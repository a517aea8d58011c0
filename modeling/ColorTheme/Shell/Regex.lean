import ColorTheme.Pattern

/-!
Regular expressions of text tools: groups are numbered and can be referred to, and of all
matches that start first the longest counts. In the basic spelling the operators `( ) { } | + ?`
are written with a backslash, in the extended one without. -/
namespace ColorTheme.Shell

inductive Regex
  | empty
  | one (set : CharSet)
  | anchor (condition : Anchor)
  | seq (a b : Regex)
  | alt (a b : Regex)
  | many (a : Regex)
  | group (number : Nat) (a : Regex)
  | same (number : Nat)
deriving Repr

namespace Regex

structure Mark where
  place : Place
  groups : List (Nat × Text) := []

def Mark.advance (m : Mark) (covered : Text) (rest : Text) : Mark :=
  { m with place := (covered.getLast?.or m.place.1, rest) }

/-- Any number of steps that each cover something, more steps first. -/
def chain (step : Mark → List Mark) : (fuel : Nat) → Mark → List Mark
  | 0, m => [m]
  | n + 1, m =>
    ((step m).filter fun next => next.place.2.length < m.place.2.length).flatMap (chain step n)
      ++ [m]

def ends : Regex → Mark → List Mark
  | .empty, m => [m]
  | .one set, m =>
    match m.place.2 with
    | c :: rest => if set.holds c then [m.advance [c] rest] else []
    | [] => []
  | .anchor condition, m => if condition.holds m.place then [m] else []
  | .seq a b, m => (a.ends m).flatMap b.ends
  | .alt a b, m => a.ends m ++ b.ends m
  | .many a, m => chain a.ends m.place.2.length m
  | .group number a, m => (a.ends m).map fun stop =>
      let covered := m.place.2.take (m.place.2.length - stop.place.2.length)
      { stop with groups := (number, covered) :: stop.groups }
  | .same number, m =>
    let covered := (m.groups.lookup number).getD []
    match Text.after? covered m.place.2 with
    | some rest => [m.advance covered rest]
    | none => []

/-- The longest of some ends; of equally long ones the first. -/
def longest? : List Mark → Option Mark
  | [] => none
  | m :: rest =>
    match longest? rest with
    | none => some m
    | some other => if other.place.2.length < m.place.2.length then some other else some m

def matchAt? (regex : Regex) (place : Place) : Option Mark := longest? (regex.ends ⟨place, []⟩)

def occursFrom (regex : Regex) : (before : Option Char) → Text → Bool
  | before, [] => (regex.matchAt? (before, [])).isSome
  | before, c :: rest =>
    (regex.matchAt? (before, c :: rest)).isSome || regex.occursFrom (some c) rest

def occurs (regex : Regex) (text : Text) : Bool := regex.occursFrom none text

end Regex
end ColorTheme.Shell
