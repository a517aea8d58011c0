import ColorTheme.Proofs.Text.Layout

/-!
Searches whose matcher sees what stands before a place. The search behind a match goes on as if
the text began there, but for the character that the match ends with. -/
namespace ColorTheme.Text

/-- A match covers at least one character, and what it covers is how its value is spelled. -/
def Matcher.Covers (m : Matcher α) (spell : α → Text) : Prop :=
  ∀ before here value left, m before here = some (value, left) →
    spell value ≠ [] ∧ here = spell value ++ left

variable {m : Matcher α} {spell : α → Text}

/-- The character in front of a place of a text, which itself stands behind `before`. -/
def lastOf (before : Option Char) (front : Text) : Option Char := front.getLast?.or before

@[simp] theorem lastOf_nil (before : Option Char) : lastOf before [] = before := rfl

@[simp] theorem lastOf_cons (before : Option Char) (c : Char) (front : Text) :
    lastOf before (c :: front) = lastOf (some c) front := by
  rw [lastOf, lastOf, List.getLast?_cons]
  cases front.getLast? <;> rfl

theorem lastOf_append (before : Option Char) (front more : Text) :
    lastOf before (front ++ more) = lastOf (lastOf before front) more := by
  induction front generalizing before with
  | nil => rfl
  | cons c front ih => simp [ih]

theorem pieces_past (before : Option Char) (used left : Text) :
    pieces m used.length before (used ++ left) = pieces m 0 (lastOf before used) left := by
  induction used generalizing before with
  | nil => rfl
  | cons c used ih => exact (ih (some c)).trans (by rw [lastOf_cons])

theorem pieces_passed {before : Option Char} {c : Char} {rest : Text}
    (missed : m before (c :: rest) = none) :
    pieces m 0 before (c :: rest) = .inl c :: pieces m 0 (some c) rest := by
  simp only [pieces, missed]

/-- A text that stands behind `before`, with every match removed. -/
def eraseFrom (m : Matcher Unit) (before : Option Char) (text : Text) : Text :=
  (pieces (fun before here => (m before here).map fun (_, left) => (([] : Text), left)) 0 before
    text).flatMap (Sum.elim ([·]) id)

section Erase

variable {m : Matcher Unit} {before : Option Char}

theorem erase_eq (m : Matcher Unit) (text : Text) : erase m text = eraseFrom m none text := rfl

theorem eraseFrom_passed {c : Char} {rest : Text} (missed : m before (c :: rest) = none) :
    eraseFrom m before (c :: rest) = c :: eraseFrom m (some c) rest := by
  rw [eraseFrom, pieces_passed (by rw [missed, Option.map_none])]
  rfl

theorem eraseFrom_found {used left : Text} (filled : used ≠ [])
    (found : m before (used ++ left) = some ((), left)) :
    eraseFrom m before (used ++ left) = eraseFrom m (lastOf before used) left := by
  obtain ⟨c, used, rfl⟩ := List.exists_cons_of_ne_nil filled
  have width : (used ++ left).length - left.length = used.length := by simp
  simp only [List.cons_append] at found ⊢
  simp only [eraseFrom, pieces, found, Option.map_some, width, pieces_past, lastOf_cons]
  rfl

end Erase

section Covers

variable (covers : m.Covers spell)

include covers

theorem write_found (before : Option Char) (text : Text) :
    Layout.write spell (pieces m 0 before text) = text :=
  Layout.write_pieces 0 before text fun found => covers _ _ _ _ found

theorem pieces_found {before : Option Char} {value : α} {left : Text}
    (found : m before (spell value ++ left) = some (value, left)) :
    pieces m 0 before (spell value ++ left) =
      .inr value :: pieces m 0 (lastOf before (spell value)) left := by
  obtain ⟨c, used, spelled⟩ := List.exists_cons_of_ne_nil (covers _ _ _ _ found).1
  have width : (used ++ left).length - left.length = used.length := by simp
  simp only [spelled, List.cons_append] at found ⊢
  simp only [pieces, found, width, pieces_past, lastOf_cons]

/-- Induction along a search, with what stands before each place. -/
theorem pieces_induction {P : Option Char → Text → Prop} (nil : ∀ before, P before [])
    (char : ∀ before c rest, m before (c :: rest) = none → P (some c) rest → P before (c :: rest))
    (found : ∀ before value left, m before (spell value ++ left) = some (value, left) →
      P (lastOf before (spell value)) left → P before (spell value ++ left))
    (before : Option Char) (text : Text) : P before text := by
  -- A match leaves a shorter text, which need not be the tail.
  induction measured : text.length using Nat.strongRecOn generalizing before text with
  | ind size ih =>
    cases text with
    | nil => exact nil before
    | cons c rest =>
      cases known : m before (c :: rest) with
      | none => exact char before c rest known (ih rest.length (by simp [← measured]) _ rest rfl)
      | some hit =>
        obtain ⟨value, left⟩ := hit
        obtain ⟨filled, whole⟩ := covers _ _ _ _ known
        have shorter : left.length < size := by
          have longer := List.length_pos_iff.mpr filled
          simp only [← measured, whole, List.length_append]
          omega
        rw [whole] at known ⊢
        exact found before value left known (ih left.length shorter _ left rfl)

theorem place_of_mem_pieces {before : Option Char} {text : Text} {value : α}
    (member : .inr value ∈ pieces m 0 before text) : ∃ front left,
      text = front ++ (spell value ++ left) ∧
        m (lastOf before front) (spell value ++ left) = some (value, left) := by
  induction before, text using pieces_induction covers with
  | nil before => contradiction
  | char before c rest missed ih =>
    rw [pieces_passed missed] at member
    obtain ⟨front, left, rfl, known⟩ := ih ((List.mem_cons.mp member).resolve_left nofun)
    exact ⟨c :: front, left, rfl, by rwa [lastOf_cons]⟩
  | found before other left known ih =>
    rw [pieces_found covers known] at member
    rcases List.mem_cons.mp member with same | later
    · cases same
      exact ⟨[], left, rfl, known⟩
    · obtain ⟨front, left, rfl, known⟩ := ih later
      exact ⟨spell other ++ front, left, by simp, by rwa [lastOf_append]⟩

end Covers
end ColorTheme.Text
