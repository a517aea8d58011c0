import ColorTheme.Text.Case
import ColorTheme.Text.Letter

/-!
Letter case of plain letters. A small letter of ASCII is a case variant of just the characters that
fold to it, and these are few. -/
namespace ColorTheme.Text

theorem mem_run_of_unfoldNumber {n source : Nat} {runs : List (Nat × Nat × Nat × Int)}
    (member : source ∈ unfoldNumber n runs) :
    ∃ run ∈ runs, run.1 ≤ source ∧ source ≤ run.2.1 := by
  induction runs with
  | nil => contradiction
  | cons run runs ih =>
    have later : source ∈ unfoldNumber n runs →
        ∃ other ∈ run :: runs, other.1 ≤ source ∧ source ≤ other.2.1 := by
      intro member
      obtain ⟨other, listed, inside⟩ := ih member
      exact ⟨other, List.mem_cons_of_mem run listed, inside⟩
    simp only [unfoldNumber] at member
    split at member
    · rename_i fits
      simp only [Bool.and_eq_true, decide_eq_true_eq] at fits
      rcases List.mem_cons.mp member with rfl | member
      · exact ⟨run, List.mem_cons_self, fits.1⟩
      · exact later member
    · exact later member

theorem mem_unfoldNumber {n m : Nat} {runs : List (Nat × Nat × Nat × Int)} (positive : 0 < m)
    (folds : foldNumber n runs = m) : n = m ∨ n ∈ unfoldNumber m runs := by
  induction runs with
  | nil => exact .inl folds
  | cons run runs ih =>
    obtain ⟨first, last, step, offset⟩ := run
    simp only [foldNumber] at folds
    split at folds
    · rename_i fits
      have source : (Int.ofNat m - offset).toNat = n := by
        simp only [Int.ofNat_eq_natCast] at folds ⊢
        omega
      right
      simp only [unfoldNumber, source, fits, if_true]
      exact List.mem_cons_self
    · refine (ih folds).imp_right fun member => ?_
      simp only [unfoldNumber]
      split
      · exact List.mem_cons_of_mem _ member
      · exact member

/-- A small letter of ASCII. -/
def IsSmall (c : Char) : Prop := 97 ≤ c.toNat ∧ c.toNat ≤ 122

instance (c : Char) : Decidable (IsSmall c) := inferInstanceAs (Decidable (_ ∧ _))

theorem toNat_ofNat {n : Nat} (filled : (Char.ofNat n).toNat ≠ 0) : (Char.ofNat n).toNat = n := by
  by_cases valid : n.isValidChar
  · have made : Char.ofNat n = Char.ofNatAux n valid := dif_pos valid
    rw [made]
    rfl
  · have zero : (Char.ofNat n).toNat = 0 := congrArg Char.toNat (dif_neg valid)
    exact absurd zero filled

theorem mem_of_fold {a c : Char} (small : IsSmall a) (folds : fold c = a) :
    c.toNat ∈ a.toNat :: unfoldNumber a.toNat foldRuns := by
  have filled : (fold c).toNat ≠ 0 := by
    rw [folds]
    exact Nat.ne_of_gt (Nat.lt_of_lt_of_le (by decide) small.1)
  have number : foldNumber c.toNat foldRuns = a.toNat := by
    rw [← folds]
    exact (toNat_ofNat filled).symm
  exact List.mem_cons.mpr (mem_unfoldNumber (Nat.lt_of_lt_of_le (by decide) small.1) number)

/-- No other letter folds away from a small one. -/
theorem mem_caseVariants {a c : Char} (small : IsSmall a) :
    a ∈ caseVariants c ↔ fold c = a := by
  constructor
  · intro member
    rcases List.mem_cons.mp member with same | member
    · exact same.symm
    · obtain ⟨source, listed, rfl⟩ := List.mem_map.mp member
      obtain ⟨run, known, low, high⟩ := mem_run_of_unfoldNumber listed
      have number : (Char.ofNat source).toNat = source :=
        toNat_ofNat (Nat.ne_of_gt (Nat.lt_of_lt_of_le (by decide) small.1))
      -- The table folds no small letter to anything else.
      have apart : ∀ run ∈ foldRuns, run.2.1 < 97 ∨ 122 < run.1 := by
        decide +kernel
      rw [IsSmall, number] at small
      have := apart run known
      omega
  · rintro rfl
    exact List.mem_cons_self

theorem letter_of_fold {c : Char} (small : IsSmall (fold c)) :
    isDecimal c = false ∧ isBlank c = false ∧ c ∉ [',', '%', '('] := by
  -- Few characters fold to one of the 26 letters, so all of them can be looked at.
  have letters : ∀ n ∈ List.range' 97 26, ∀ m ∈ n :: unfoldNumber n foldRuns,
      isDecimal (Char.ofNat m) = false ∧ isBlank (Char.ofNat m) = false ∧
        Char.ofNat m ∉ [',', '%', '('] := by decide +kernel
  have inside : (fold c).toNat ∈ List.range' 97 26 := by
    rw [List.mem_range'_1]
    exact ⟨small.1, Nat.lt_succ_of_le small.2⟩
  have known := letters _ inside _ (mem_of_fold small rfl)
  rwa [Char.ofNat_toNat] at known

theorem not_isDecimal_of_isBlank {c : Char} (blank : isBlank c = true) : isDecimal c = false := by
  have blanks : ∀ n ∈ [9, 10, 11, 12, 13, 32, 0x85, 0xA0, 0x1680, 0x2000, 0x2001, 0x2002, 0x2003,
      0x2004, 0x2005, 0x2006, 0x2007, 0x2008, 0x2009, 0x200A, 0x2028, 0x2029, 0x202F, 0x205F,
      0x3000], inBlocks n decimalBlocks = false := by decide
  apply blanks
  simp only [isBlank, Bool.or_eq_true, Bool.and_eq_true, decide_eq_true_eq] at blank
  simp only [List.mem_cons, List.not_mem_nil, or_false]
  omega

end ColorTheme.Text
