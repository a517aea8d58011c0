import ColorTheme.Proofs.Removal
import Mathlib.Data.List.DropRight

/-!
Texts behind which declarations are read as if nothing stood in front. A semicolon ends a declaration
wherever the text goes on, so what was declared up to it stays declared; behind the last semicolon a
text must not begin a declaration. -/
namespace ColorTheme.Variable

/-- A declaration that ends within a text is read there however the text goes on. -/
theorem declared_stopped (before : Option Char) (start rest : Text) :
    declared before (start ++ ';' :: rest) =
      (declared before (start ++ [';'])).map fun (v, left) => (v, left ++ rest) := by
  cases known : declared before (start ++ [';']) with
  | some hit =>
    obtain ⟨v, left⟩ := hit
    obtain ⟨head, value, heading, clean, whole, trimmed⟩ := declared_eq_some.mp known
    refine declared_eq_some.mpr ⟨head, value, heading, clean, ?_, trimmed⟩
    simpa using congrArg (· ++ rest) whole
  | none =>
    rw [Option.map_none, Option.eq_none_iff_forall_ne_some]
    rintro ⟨v, left⟩ found
    obtain ⟨head, value, heading, clean, whole, trimmed⟩ := declared_eq_some.mp found
    have stopless : ';' ∉ head ++ value := by
      rw [List.mem_append, not_or]
      exact ⟨heading.notMem (by decide), clean⟩
    rw [← List.append_assoc] at whole
    obtain ⟨more, rfl, behind⟩ := Text.split_behind whole.symm stopless
    have ends : ∃ left, more ++ [';'] = ';' :: left := by
      cases more with
      | nil => exact ⟨[], rfl⟩
      | cons c more =>
        obtain ⟨rfl, _⟩ := List.cons.inj behind
        exact ⟨more ++ [';'], rfl⟩
    obtain ⟨left, ends⟩ := ends
    have again : declared before (head ++ value ++ more ++ [';']) = some (v, left) :=
      declared_eq_some.mpr ⟨head, value, heading, clean, by simp [ends], trimmed⟩
    rw [known] at again
    contradiction

theorem extract_stopped (start rest : Text) :
    extract (start ++ ';' :: rest) = extract (start ++ [';']) ++ extract rest := by
  generalize whole : start ++ [';'] = text
  induction text using Text.search_induction declared_local generalizing start with
  | nil => simp at whole
  | char c text missed ih =>
    cases start with
    | nil =>
      obtain ⟨rfl, rfl⟩ := List.cons.inj whole
      exact Text.findAll_char declared_local rfl
    | cons d start =>
      obtain ⟨rfl, behind⟩ := List.cons.inj whole
      have again : declared none (d :: (start ++ ';' :: rest)) = none := by
        rw [← List.cons_append, declared_stopped, whole, missed, Option.map_none]
      have later := ih start behind
      unfold extract at later ⊢
      rw [List.cons_append, Text.findAll_char declared_local again,
        Text.findAll_char declared_local missed, later]
  | found here v left known ih =>
    have again : declared none (start ++ ';' :: rest) = some (v, left ++ rest) := by
      rw [declared_stopped, whole, known, Option.map_some]
    have later : Text.findAll declared (left ++ rest) =
        Text.findAll declared left ++ Text.findAll declared rest := by
      rcases List.eq_nil_or_concat left with rfl | ⟨inner, c, rfl⟩
      · rfl
      · -- The text that is left over ends where the whole text ends.
        obtain ⟨d, used, rfl⟩ := declared_local.covers known
        rw [List.concat_eq_append, ← List.append_assoc] at whole
        obtain ⟨_, last⟩ := List.append_inj' whole rfl
        obtain rfl : ';' = c := by simpa using last
        simpa [extract] using ih inner (by simp)
    unfold extract
    rw [Text.findAll_match declared_local again, Text.findAll_match declared_local known, later,
      List.cons_append]

theorem extract_clean {text : Text} (clean : ';' ∉ text) : extract text = [] := by
  refine List.eq_nil_iff_forall_not_mem.mpr fun v member => ?_
  obtain ⟨here, left, suffix, found⟩ := Text.suffix_of_mem_findAll declared_local member
  obtain ⟨head, value, _, _, rfl, _⟩ := declared_eq_some.mp found
  exact clean (suffix.subset (by simp))

/-- A text behind which everything is read as if it stood alone. -/
def Closed (front : Text) : Prop := ∀ rest, extract (front ++ rest) = extract front ++ extract rest

theorem closed_nil : Closed [] := fun _ => rfl

theorem closed_stopped (start : Text) : Closed (start ++ [';']) := fun rest => by
  rw [List.append_assoc, List.singleton_append, extract_stopped]

section Closed

variable {front back : Text}

theorem Closed.append (first : Closed front) (second : Closed back) : Closed (front ++ back) := by
  intro rest
  rw [List.append_assoc, first, second, first, List.append_assoc]

theorem Closed.of_append (first : Closed front) (both : Closed (front ++ back)) : Closed back := by
  intro rest
  have whole := both rest
  rwa [List.append_assoc, first, first, List.append_assoc, List.append_cancel_left_eq] at whole

/-- What may follow the last semicolon of a text that is closed: no heading, and no beginning of
one. -/
def Settled (front : Text) : Prop :=
  let tail := front.rtakeWhile (· ≠ ';')
  isSetOff tail = true ∧ ∀ here ∈ tail.tails, heading? here = none

instance (front : Text) : Decidable (Settled front) := inferInstanceAs (Decidable (_ ∧ _))

theorem closed_rdropWhile (front : Text) : Closed (front.rdropWhile (· ≠ ';')) := by
  induction front using List.reverseRecOn with
  | nil => exact closed_nil
  | append_singleton front c ih =>
    by_cases stop : c = ';'
    · subst stop
      simpa using closed_stopped front
    · simpa [stop] using ih

theorem Settled.closed (settled : Settled front) : Closed front := by
  obtain ⟨apart, plain⟩ := settled
  rw [← List.rdropWhile_append_rtakeWhile (p := (· ≠ ';')) (l := front)]
  refine (closed_rdropWhile front).append fun rest => ?_
  generalize front.rtakeWhile (· ≠ ';') = tail at apart plain
  have passed : ∀ rest, extract (tail ++ rest) = extract rest := by
    refine fun rest => Text.findAll_passed declared_local fun here filled suffix => ?_
    rw [Option.eq_none_iff_forall_ne_some]
    rintro ⟨v, left⟩ found
    obtain ⟨head, value, heading, _, whole, _⟩ := declared_eq_some.mp found
    obtain ⟨start, rfl⟩ := suffix
    have ends := opens_of_append filled apart (opens_iff.mpr ⟨head, _, heading, whole⟩)
    rw [opens, plain here (by simp)] at ends
    contradiction
  have idle := passed []
  rw [List.append_nil] at idle
  rw [passed, idle]
  rfl

theorem extract_append_clean (clean : ';' ∉ back) : extract (front ++ back) = extract front := by
  have start := closed_rdropWhile front
  have tail : ';' ∉ front.rtakeWhile (· ≠ ';') := fun member => by
    simpa using List.mem_rtakeWhile_imp member
  have both : ';' ∉ front.rtakeWhile (· ≠ ';') ++ back := by
    rw [List.mem_append, not_or]
    exact ⟨tail, clean⟩
  rw [← List.rdropWhile_append_rtakeWhile (p := (· ≠ ';')) (l := front), List.append_assoc, start,
    start, extract_clean both, extract_clean tail]

end Closed

end ColorTheme.Variable
