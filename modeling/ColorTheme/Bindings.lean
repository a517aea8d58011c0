import ColorTheme.Text

/-!
Names bound to values, in the order in which the names were first bound. Binding a name again
changes its value and not its place. -/
namespace ColorTheme

structure Bindings where
  entries : List (Text × Text) := []
deriving DecidableEq, Repr

namespace Bindings

def get? (b : Bindings) (name : Text) : Option Text := b.entries.lookup name

def contains (b : Bindings) (name : Text) : Bool := (b.get? name).isSome

def size (b : Bindings) : Nat := b.entries.length

def isEmpty (b : Bindings) : Bool := b.entries.isEmpty

def names (b : Bindings) : List Text := b.entries.map Prod.fst

def put (name value : Text) : List (Text × Text) → List (Text × Text)
  | [] => [(name, value)]
  | (other, old) :: rest =>
    if name = other then (other, value) :: rest else (other, old) :: put name value rest

def insert (b : Bindings) (name value : Text) : Bindings := ⟨put name value b.entries⟩

/-- Later entries win. -/
def extend (b : Bindings) (entries : List (Text × Text)) : Bindings :=
  entries.foldl (fun b (name, value) => b.insert name value) b

def ofList (entries : List (Text × Text)) : Bindings := Bindings.extend {} entries

def sorted (b : Bindings) : List (Text × Text) :=
  Text.sortBy (fun x y => Text.before x.1 y.1) b.entries

theorem lookup_put (name other value : Text) (entries : List (Text × Text)) :
    (put name value entries).lookup other =
      if other = name then some value else entries.lookup other := by
  induction entries with
  | nil =>
    by_cases same : other = name
    · simp [put, same]
    · have miss : (other == name) = false := by simp [same]
      simp [put, List.lookup_cons, same, miss]
  | cons entry rest ih =>
    obtain ⟨first, old⟩ := entry
    by_cases known : name = first
    · subst known
      by_cases same : other = name
      · simp [put, same]
      · have miss : (other == name) = false := by simpa using same
        simp [put, List.lookup_cons, same, miss]
    · by_cases found : other = first
      · have apart : first ≠ name := fun eq => known eq.symm
        simp [put, known, found, apart]
      · have miss : (other == first) = false := by simpa using found
        simp [put, List.lookup_cons, known, miss, ih]

theorem get?_insert (b : Bindings) (name other value : Text) :
    (b.insert name value).get? other = if other = name then some value else b.get? other :=
  lookup_put name other value b.entries

end Bindings
end ColorTheme
