import ColorTheme.Pattern.Parser
import Mathlib.Data.List.Basic

/-!
What it means that a pattern matches, and that the matcher finds it. A repetition without an upper
bound may take any number of steps; the matcher takes no more than there are characters left, since a
step that covers no character leads nowhere else. -/
namespace ColorTheme

theorem Text.exists_place_cons {P : Option Char → Text → Prop} {before : Option Char} {c : Char}
    {rest : Text} :
    (∃ front behind, c :: rest = front ++ behind ∧ P (front.getLast?.or before) behind) ↔
      P before (c :: rest) ∨
        ∃ front behind, rest = front ++ behind ∧ P (front.getLast?.or (some c)) behind := by
  have last : ∀ front : Text, ((c :: front).getLast?).or before = front.getLast?.or (some c) := by
    intro front
    cases known : front.getLast? <;> simp [List.getLast?_cons, known]
  constructor
  · rintro ⟨front, behind, whole, holds⟩
    cases front with
    | nil =>
      cases whole
      exact .inl holds
    | cons d front =>
      obtain ⟨rfl, rfl⟩ := List.cons.inj whole
      exact .inr ⟨front, behind, rfl, last front ▸ holds⟩
  · rintro (holds | ⟨front, behind, rfl, holds⟩)
    · exact ⟨[], c :: rest, rfl, holds⟩
    · exact ⟨c :: front, behind, rfl, (last front).symm ▸ holds⟩

namespace Pattern

inductive Steps (step : Place → Place → Prop) : Nat → Place → Place → Prop
  | stop {p : Place} : Steps step 0 p p
  | next {n : Nat} {p q r : Place} : step p q → Steps step n q r → Steps step (n + 1) p r

/-- A match of the pattern from one place to another. A repetition whose upper bound is below the
lower one takes just as many steps as the lower one says. -/
def Leads : Pattern → Place → Place → Prop
  | .empty, p, q => q = p
  | .char set, p, q => ∃ c rest, p.2 = c :: rest ∧ set.holds c = true ∧ q = (some c, rest)
  | .anchor condition, p, q => condition.holds p = true ∧ q = p
  | .seq a b, p, q => ∃ between, a.Leads p between ∧ b.Leads between q
  | .alt a b, p, q => a.Leads p q ∨ b.Leads p q
  | .repeated a least most, p, q =>
    ∃ n, least ≤ n ∧ (∀ bound ∈ most, n ≤ max least bound) ∧ Steps a.Leads n p q

/-- The pattern matches between two places of the text. -/
def Matches (pattern : Pattern) (text : Text) : Prop :=
  ∃ front behind, text = front ++ behind ∧ ∃ last, pattern.Leads (front.getLast?, behind) last

variable {step : Place → Place → Prop} {p q r : Place} {m n : Nat}

theorem Steps.append (first : Steps step m p q) (later : Steps step n q r) :
    Steps step (m + n) p r := by
  induction first with
  | stop => rwa [Nat.zero_add]
  | next one _ ih =>
    rw [Nat.succ_add]
    exact .next one (ih later)

theorem Steps.split (steps : Steps step (m + n) p r) : ∃ q, Steps step m p q ∧ Steps step n q r := by
  induction m generalizing p with
  | zero => exact ⟨p, .stop, by rwa [Nat.zero_add] at steps⟩
  | succ m ih =>
    rw [Nat.succ_add] at steps
    cases steps with
    | next one steps =>
      obtain ⟨q, first, later⟩ := ih steps
      exact ⟨q, .next one first, later⟩

/-- A step stays where it is or leaves a shorter text. -/
def Advances (step : Place → Place → Prop) : Prop :=
  ∀ p q, step p q → q = p ∨ q.2.length < p.2.length

theorem Steps.advances (advances : Advances step) (steps : Steps step n p q) :
    q = p ∨ q.2.length < p.2.length := by
  induction steps with
  | stop => exact .inl rfl
  | next one _ ih =>
    rcases advances _ _ one with rfl | shorter
    · exact ih
    · rcases ih with rfl | more
      · exact .inr shorter
      · exact .inr (Nat.lt_trans more shorter)

theorem Steps.shorten (advances : Advances step) (steps : Steps step n p q) :
    ∃ k ≤ p.2.length, Steps step k p q := by
  induction steps with
  | stop => exact ⟨0, Nat.zero_le _, .stop⟩
  | next one _ ih =>
    obtain ⟨k, bound, fewer⟩ := ih
    rcases advances _ _ one with rfl | shorter
    · exact ⟨k, bound, fewer⟩
    · exact ⟨k + 1, Nat.lt_of_le_of_lt bound shorter, .next one fewer⟩

theorem leads_advances (pattern : Pattern) : Advances pattern.Leads := by
  induction pattern with
  | empty => exact fun p q same => .inl same
  | char set =>
    rintro ⟨_, _⟩ q ⟨c, rest, rfl, _, rfl⟩
    exact .inr (Nat.lt_succ_self _)
  | anchor condition => exact fun p q leads => .inl leads.2
  | seq a b ihA ihB =>
    rintro p q ⟨between, first, later⟩
    have either : Advances fun p q => a.Leads p q ∨ b.Leads p q :=
      fun p q => Or.rec (ihA p q) (ihB p q)
    exact Steps.advances either (.next (.inl first) (.next (.inr later) .stop))
  | alt a b ihA ihB => exact fun p q => Or.rec (ihA p q) (ihB p q)
  | repeated a least most ih =>
    rintro p q ⟨n, _, _, steps⟩
    exact steps.advances ih

theorem mem_onward {onwards : Place → List Place} {places : List Place} :
    q ∈ onward onwards places ↔ ∃ p ∈ places, q ∈ onwards p := by
  rw [onward, List.mem_eraseDups, List.mem_flatMap]

theorem mem_times {onwards : Place → List Place} {places : List Place} :
    q ∈ times onwards n places ↔ ∃ p ∈ places, Steps (fun p q => q ∈ onwards p) n p q := by
  induction n generalizing places with
  | zero =>
    constructor
    · exact fun member => ⟨q, member, .stop⟩
    · rintro ⟨p, member, steps⟩
      cases steps
      exact member
  | succ n ih =>
    rw [times, ih]
    constructor
    · rintro ⟨between, member, steps⟩
      obtain ⟨p, listed, one⟩ := mem_onward.mp member
      exact ⟨p, listed, .next one steps⟩
    · rintro ⟨p, listed, steps⟩
      cases steps with
      | next one steps => exact ⟨_, mem_onward.mpr ⟨p, listed, one⟩, steps⟩

theorem mem_upTo {onwards : Place → List Place} {places : List Place} :
    q ∈ upTo onwards n places ↔ ∃ k ≤ n, ∃ p ∈ places, Steps (fun p q => q ∈ onwards p) k p q := by
  induction n generalizing places with
  | zero =>
    constructor
    · exact fun member => ⟨0, Nat.le_refl 0, q, member, .stop⟩
    · rintro ⟨k, bound, p, member, steps⟩
      cases Nat.le_zero.mp bound
      cases steps
      exact member
  | succ n ih =>
    rw [upTo, List.mem_eraseDups, List.mem_append, ih]
    constructor
    · rintro (member | ⟨k, bound, between, member, steps⟩)
      · exact ⟨0, Nat.zero_le _, q, member, .stop⟩
      · obtain ⟨p, listed, one⟩ := mem_onward.mp member
        exact ⟨k + 1, Nat.succ_le_succ bound, p, listed, .next one steps⟩
    · rintro ⟨k, bound, p, listed, steps⟩
      cases steps with
      | stop => exact .inl listed
      | next one steps =>
        exact .inr ⟨_, Nat.le_of_succ_le_succ bound, _, mem_onward.mpr ⟨p, listed, one⟩, steps⟩

/-- The matcher finds the ends of all matches and no others. -/
theorem mem_ends {pattern : Pattern} : q ∈ pattern.ends p ↔ pattern.Leads p q := by
  induction pattern generalizing p q with
  | empty => rw [ends, List.mem_singleton, Leads]
  | char set =>
    obtain ⟨before, text⟩ := p
    cases text with
    | nil => simp [ends, Leads]
    | cons c rest =>
      simp only [ends, Leads, List.cons.injEq]
      split
      · rename_i fits
        rw [List.mem_singleton]
        constructor
        · rintro rfl
          exact ⟨c, rest, ⟨rfl, rfl⟩, fits, rfl⟩
        · rintro ⟨_, _, ⟨rfl, rfl⟩, _, same⟩
          exact same
      · rename_i other
        constructor
        · nofun
        · rintro ⟨_, _, ⟨rfl, rfl⟩, fits, _⟩
          exact absurd fits other
  | anchor condition =>
    rw [ends, Leads]
    split
    · rename_i fits
      simp [fits]
    · rename_i other
      simp [other]
  | seq a b ihA ihB => simp only [ends, mem_onward, ihA, ihB, Leads]
  | alt a b ihA ihB => rw [ends, List.mem_eraseDups, List.mem_append, ihA, ihB, Leads]
  | repeated a least most ih =>
    have same : (fun p q => q ∈ a.ends p) = a.Leads := by
      funext p q
      exact propext ih
    simp only [ends, mem_upTo, mem_times, same, Leads, List.mem_singleton]
    constructor
    · rintro ⟨k, bound, between, ⟨_, rfl, first⟩, later⟩
      refine ⟨least + k, Nat.le_add_right least k, ?_, first.append later⟩
      rintro most rfl
      simp only at bound
      omega
    · rintro ⟨n, enough, bounded, steps⟩
      obtain ⟨k, rfl⟩ := Nat.exists_eq_add_of_le enough
      obtain ⟨between, first, later⟩ := steps.split
      cases most with
      | some most =>
        have bounded := bounded most rfl
        refine ⟨k, ?_, between, ⟨p, rfl, first⟩, later⟩
        simp only
        omega
      | none =>
        -- The matcher takes no more steps than characters are left; steps on the spot can be left out.
        obtain ⟨fewer, short, later⟩ := later.shorten (leads_advances a)
        refine ⟨fewer, ?_, between, ⟨p, rfl, first⟩, later⟩
        rcases first.advances (leads_advances a) with rfl | shorter
        · exact short
        · exact Nat.le_trans short (Nat.le_of_lt shorter)

theorem isEmpty_ends {pattern : Pattern} :
    (!(pattern.ends p).isEmpty) = true ↔ ∃ last, pattern.Leads p last := by
  rw [Bool.not_eq_true', List.isEmpty_eq_false_iff_exists_mem]
  exact exists_congr fun last => mem_ends

theorem matchesFrom_iff {pattern : Pattern} {before : Option Char} {text : Text} :
    pattern.matchesFrom before text = true ↔ ∃ front behind, text = front ++ behind ∧
      ∃ last, pattern.Leads (front.getLast?.or before, behind) last := by
  induction text generalizing before with
  | nil =>
    rw [matchesFrom, isEmpty_ends]
    constructor
    · exact fun leads => ⟨[], [], rfl, leads⟩
    · rintro ⟨front, behind, whole, leads⟩
      obtain ⟨rfl, rfl⟩ := List.append_eq_nil_iff.mp whole.symm
      exact leads
  | cons c rest ih =>
    rw [matchesFrom, Bool.or_eq_true, isEmpty_ends, ih, Text.exists_place_cons
      (P := fun before here => ∃ last, pattern.Leads (before, here) last)]

theorem isMatch_iff {pattern : Pattern} {text : Text} :
    pattern.isMatch text = true ↔ pattern.Matches text := by
  simp only [isMatch, matchesFrom_iff, Option.or_none, Matches]

/-- What the built-in engine accepts. -/
theorem exists_compile?_iff {text value : Text} :
    (∃ test, compile? text = some test ∧ test value = true) ↔
      ∃ pattern, parse? text = some pattern ∧ pattern.Matches value := by
  simp only [compile?, Option.map_eq_some_iff]
  constructor
  · rintro ⟨_, ⟨pattern, parsed, rfl⟩, matched⟩
    exact ⟨pattern, parsed, isMatch_iff.mp matched⟩
  · rintro ⟨pattern, parsed, matched⟩
    exact ⟨_, ⟨pattern, parsed, rfl⟩, isMatch_iff.mpr matched⟩

end Pattern
end ColorTheme
