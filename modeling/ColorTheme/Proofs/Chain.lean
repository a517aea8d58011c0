import ColorTheme.Proofs.Bindings
import ColorTheme.Variable.Chain

/-!
Chains of references as walks over a table. A walk to a value meets no name twice, so the steps
that a chain may take do not run out before its end. -/
namespace ColorTheme

theorem Bindings.mem_names_of_get? {b : Bindings} {name value : Text}
    (bound : b.get? name = some value) : name ∈ b.names := by
  apply mem_names_of_contains
  rw [contains, bound, Option.isSome_some]

namespace Variable

/-- A walk from a name over references to the first value that is none, with the names met. -/
inductive Walk (table : Bindings) : Text → List Text → Text → Prop
  | last {name value : Text} (bound : table.get? name = some value)
      (final : isReference value = false) : Walk table name [name] value
  | next {name other value : Text} {names : List Text} (bound : table.get? name = some other)
      (reference : isReference other = true) (later : Walk table other names value) :
      Walk table name (name :: names) value

variable {table : Bindings} {name value : Text} {names : List Text}

theorem Walk.unique {names' : List Text} {value' : Text} (first : Walk table name names value)
    (second : Walk table name names' value') : names = names' ∧ value = value' := by
  induction first generalizing names' with
  | last bound final =>
    cases second with
    | last bound' _ => exact ⟨rfl, Option.some.inj (bound.symm.trans bound')⟩
    | next bound' reference _ =>
      cases bound.symm.trans bound'
      exact absurd reference (by simp [final])
  | next bound reference later ih =>
    cases second with
    | last bound' final =>
      cases bound.symm.trans bound'
      exact absurd reference (by simp [final])
    | next bound' _ later' =>
      cases bound.symm.trans bound'
      obtain ⟨sameNames, sameValue⟩ := ih later'
      exact ⟨congrArg _ sameNames, sameValue⟩

theorem Walk.from {met : Text} (walk : Walk table name names value) (member : met ∈ names) :
    ∃ rest, rest <:+ names ∧ Walk table met rest value := by
  induction walk with
  | @last name value bound final =>
    obtain rfl := List.mem_singleton.mp member
    exact ⟨_, List.suffix_rfl, .last bound final⟩
  | @next name other value names bound reference later ih =>
    rcases List.mem_cons.mp member with same | inside
    · subst same
      exact ⟨_, List.suffix_rfl, .next bound reference later⟩
    · obtain ⟨rest, suffix, walk⟩ := ih inside
      exact ⟨rest, suffix.trans (List.suffix_cons _ _), walk⟩

theorem Walk.nodup (walk : Walk table name names value) : names.Nodup := by
  induction walk with
  | last bound final => exact List.nodup_singleton _
  | @next name other value names bound reference later ih =>
    refine List.nodup_cons.mpr ⟨?_, ih⟩
    -- A second visit would have a shorter way to the same end.
    intro again
    obtain ⟨rest, suffix, shorter⟩ := later.from again
    have same := (shorter.unique (.next bound reference later)).1
    have bounded := suffix.length_le
    rw [same, List.length_cons] at bounded
    omega

theorem Walk.bound (walk : Walk table name names value) : names ⊆ table.names := by
  induction walk with
  | last bound final =>
    intro met member
    rw [List.mem_singleton.mp member]
    exact Bindings.mem_names_of_get? bound
  | next bound reference later ih =>
    intro met member
    rcases List.mem_cons.mp member with same | inside
    · rw [same]
      exact Bindings.mem_names_of_get? bound
    · exact ih inside

theorem Walk.length_le (walk : Walk table name names value) : names.length ≤ table.size := by
  have bounded := walk.nodup.length_le_of_subset walk.bound
  rwa [Bindings.names, List.length_map] at bounded

theorem follow_of_walk {steps : Nat} {met : List Text} (walk : Walk table name names value)
    (distinct : names.Nodup) (new : ∀ other ∈ names, other ∉ met) (enough : names.length ≤ steps) :
    follow table steps met name = .value value := by
  induction walk generalizing steps met with
  | @last name value bound final =>
    cases steps with
    | zero => simp at enough
    | succ steps =>
      have fresh := new name List.mem_cons_self
      simp [follow, fresh, bound, final]
  | @next name other value names bound reference later ih =>
    cases steps with
    | zero => simp at enough
    | succ steps =>
      obtain ⟨once, distinct⟩ := List.nodup_cons.mp distinct
      have fresh := new name List.mem_cons_self
      have apart : ∀ later ∈ names, later ∉ met ++ [name] := by
        intro later member known
        rcases List.mem_append.mp known with before | here
        · exact new later (List.mem_cons_of_mem name member) before
        · exact once (List.mem_singleton.mp here ▸ member)
      have rest := ih distinct apart (by simpa using enough)
      simpa [follow, fresh, bound, reference] using rest

theorem walk_of_follow {steps : Nat} {met : List Text}
    (found : follow table steps met name = .value value) : ∃ names, Walk table name names value := by
  induction steps generalizing met name with
  | zero => simp [follow] at found
  | succ steps ih =>
    unfold follow at found
    split at found
    · contradiction
    · split at found
      · contradiction
      · rename_i other bound
        split at found
        · rename_i reference
          obtain ⟨names, later⟩ := ih found
          exact ⟨name :: names, .next bound reference later⟩
        · rename_i final
          cases found
          exact ⟨[name], .last bound (Bool.eq_false_iff.mpr final)⟩

/-- A chain ends at a value just if there is a walk to it. -/
theorem resolve_eq_value : resolve table name = .value value ↔ ∃ names, Walk table name names value := by
  constructor
  · intro found
    exact walk_of_follow found
  · rintro ⟨names, walk⟩
    apply follow_of_walk walk walk.nodup
    · intro other _
      exact List.not_mem_nil
    · exact Nat.le_succ_of_le walk.length_le

theorem resolve_bound {own : Text} (bound : table.get? name = some own) :
    resolve table name = .value value ↔
      if isReference own then resolve table own = .value value else own = value := by
  rw [resolve_eq_value]
  split
  · rename_i reference
    rw [resolve_eq_value]
    constructor
    · rintro ⟨names, walk⟩
      cases walk with
      | last bound' final =>
        cases bound.symm.trans bound'
        exact absurd reference (by simp [final])
      | next bound' _ later =>
        cases bound.symm.trans bound'
        exact ⟨_, later⟩
    · rintro ⟨names, later⟩
      exact ⟨_, .next bound reference later⟩
  · rename_i final
    constructor
    · rintro ⟨names, walk⟩
      cases walk with
      | last bound' _ => exact Option.some.inj (bound.symm.trans bound')
      | next bound' reference _ =>
        cases bound.symm.trans bound'
        exact absurd reference final
    · rintro rfl
      exact ⟨_, .last bound (Bool.eq_false_iff.mpr final)⟩

end Variable
end ColorTheme
