import ColorTheme.Proofs.Cycle
import ColorTheme.Proofs.Symbol
import ColorTheme.Proofs.Text.Letter

/-!
Declared names as values. The characters from which declared names are cut are not those that a
reference may hold, so a value that is nothing but a declared name need not be a reference; if it
is none it is taken as it is, like a literal. -/
namespace ColorTheme.Variable

/-- What a chain comes to: a value, nothing, or no end. -/
def Chain.outcome? : Chain → Option (Option Text)
  | .value v => some (some v)
  | .dangling => some none
  | .cycle _ => none

/-- A value that is followed: the names bound to it and the declarations of it come to what the
chain from it comes to. -/
structure IsFollowed (table : Bindings) (own : Text) : Prop where
  names : ∀ name, table.get? name = some own →
    (resolve table name).outcome? = (resolve table own).outcome?
  declarations : ∀ name, (terminal table ⟨name, own⟩).toOption = (resolve table own).outcome?

/-- A value that is taken as it is: the names bound to it and the declarations of it end there. -/
structure IsFinal (table : Bindings) (own : Text) : Prop where
  names : ∀ name, table.get? name = some own → resolve table name = .value own
  declarations : ∀ name, terminal table ⟨name, own⟩ = .ok (some own)

section Step

variable {table : Bindings} {name other last own : Text}

theorem visit_next (step : next? table name = some other) (i : Nat) :
    visit table name (i + 1) = visit table other i := by
  have first : visit table name 1 = some other := step
  rw [Nat.add_comm, visit_add first]

theorem Stops.next (stops : Stops table other last) (step : next? table name = some other) :
    Stops table name last := by
  obtain ⟨i, here, stop⟩ := stops
  exact ⟨i + 1, (visit_next step i).trans here, stop⟩

theorem Repeats.next (repeats : Repeats table other) (step : next? table name = some other) :
    Repeats table name := by
  obtain ⟨i, j, met, before, first, second⟩ := repeats
  exact ⟨i + 1, j + 1, met, Nat.succ_lt_succ before, (visit_next step i).trans first,
    (visit_next step j).trans second⟩

theorem outcome?_next (step : next? table name = some other) :
    (resolve table name).outcome? = (resolve table other).outcome? := by
  rcases resolve_cases table other with ⟨last, stops, answer⟩ | ⟨repeats, path, answer⟩
  · rw [answer, resolve_of_stops (stops.next step)]
  · obtain ⟨longer, cycle⟩ := resolve_eq_cycle.mpr (repeats.next step)
    rw [answer, cycle]
    rfl

theorem isFollowed_of_isReference (reference : isReference own = true) : IsFollowed table own where
  names name bound := outcome?_next (next?_eq_some.mpr ⟨bound, reference⟩)
  declarations name := by
    simp only [terminal, if_pos reference]
    cases resolve table own with
    | value last => rfl
    | dangling => rfl
    | cycle path => rfl

theorem Chain.outcome?_eq_some {chain : Chain} {last : Text} :
    chain.outcome? = some (some last) ↔ chain = .value last := by
  cases chain <;> simp [outcome?]

theorem resolve_ne_reference (reference : isReference own = true) :
    resolve table name ≠ .value own := by
  intro ended
  obtain ⟨_, _, _, _, final⟩ := ((resolve_ends table name).2.1 own).mp ended
  exact absurd (reference.symm.trans final) nofun

theorem isFinal_iff : IsFinal table own ↔ isReference own = false := by
  constructor
  · intro final
    by_contra reference
    rw [Bool.not_eq_false] at reference
    -- A declaration of a reference would end at the reference, where no chain ends.
    have followed : (terminal table ⟨[], own⟩).toOption = (resolve table own).outcome? :=
      (isFollowed_of_isReference reference).declarations []
    rw [final.declarations] at followed
    exact resolve_ne_reference reference (Chain.outcome?_eq_some.mp followed.symm)
  · intro final
    refine ⟨fun name bound => ?_, fun name => ?_⟩
    · exact (resolve_bound bound).mpr (by simp [final])
    · simp [terminal, final]

end Step

theorem isReference_name {name : Text} (named : IsName name) :
    isReference name = true ↔ ∀ c ∈ name, Text.isExtender c = false := by
  obtain ⟨word, rfl, filled, inner⟩ := named
  have sigil : Text.isExtender '@' = false := by decide
  have reference : isReference ('@' :: word) = true ↔ ∀ c ∈ word, Text.isNameChar c = true := by
    simp [isReference, filled]
  rw [reference, List.forall_mem_cons, and_iff_right sigil]
  refine forall₂_congr fun c member => ?_
  rw [Text.isNameChar_eq (inner c member), Bool.not_eq_true']

/-- The name of a declaration is a reference exactly if it holds no extender. Such a name is followed
wherever it is a value, by chains and where colors are bound; any other declared name is taken as it
is. -/
theorem declared_followed {text : Text} {d : Variable} (declared : d ∈ extract text)
    (table : Bindings) :
    let plain := ∀ c ∈ d.name, Text.isExtender c = false
    (isReference d.name = true ↔ plain) ∧ (plain → IsFollowed table d.name) ∧
      (IsFinal table d.name ↔ ¬ plain) := by
  intro plain
  have reference : isReference d.name = true ↔ plain := isReference_name (extract_name declared)
  refine ⟨reference, fun free => isFollowed_of_isReference (reference.mpr free), ?_⟩
  rw [isFinal_iff, ← reference, Bool.not_eq_true]

/-- A name with an accent of its own beside one whose accent is a mark. -/
theorem declared_followed_accents :
    let text : Text := "@ö-1: #eee; @e\u0301: #fff; @b: @ö-1; @c: @e\u0301;"
    let table := Bindings.parse text
    let letter : Variable := ⟨"@ö-1", "#eee"⟩
    let marked : Variable := ⟨"@e\u0301", "#fff"⟩
    letter ∈ extract text ∧ isReference letter.name = true ∧ resolve table "@b" = .value "#eee" ∧
      marked ∈ extract text ∧ isReference marked.name = false ∧
      resolve table "@c" = .value "@e\u0301" := by
  intro text table letter marked
  have letterDeclared : letter ∈ extract text := by decide +kernel
  have markedDeclared : marked ∈ extract text := by decide +kernel
  obtain ⟨reference, followed, _⟩ := declared_followed letterDeclared table
  obtain ⟨unreferenced, _, final⟩ := declared_followed markedDeclared table
  have letters : letter.name.all (fun c => !Text.isExtender c) = true := by decide +kernel
  have plain : ∀ c ∈ letter.name, Text.isExtender c = false := by simpa using letters
  have mark : Text.isExtender '\u0301' = true := by decide
  have extended : ¬ ∀ c ∈ marked.name, Text.isExtender c = false := fun free =>
    absurd (mark.symm.trans (free '\u0301' (by decide +kernel))) nofun
  have onward : resolve table "@ö-1" = .value "#eee" := by decide +kernel
  have ended := (followed plain).names "@b" (by decide +kernel)
  rw [onward] at ended
  exact ⟨letterDeclared, reference.mpr plain, Chain.outcome?_eq_some.mp ended, markedDeclared,
    Bool.eq_false_iff.mpr (extended ∘ unreferenced.mp),
    (final.mpr extended).names "@c" (by decide +kernel)⟩

/-- A name that holds a mark is declared and is no reference. -/
theorem declared_unfollowed :
    ¬ ∀ (text : Text), ∀ d ∈ extract text, isReference d.name = true := by
  intro followed
  have marked := followed "@e\u0301: #fff;" ⟨"@e\u0301", "#fff"⟩ (by decide +kernel)
  revert marked
  decide +kernel

end ColorTheme.Variable
