import ColorTheme.Proofs.Text.Layout
import ColorTheme.Proofs.Text.Lines

/-!
Words of a text. A word is a mark with the whole run of characters that continues it, so two words
never overlap, and a listed word is found where it stands and nowhere else. -/
namespace ColorTheme.Text

/-- A mark and the run of characters behind it. -/
def word (mark : Char) (continues : Char → Bool) : Matcher Text
  | _, [] => none
  | _, c :: rest =>
    if c = mark then some (mark :: rest.takeWhile continues, rest.dropWhile continues) else none

def wordOf (mark : Char) (continues : Char → Bool) (words : List Text) : Matcher Text :=
  fun before here => (word mark continues before here).filter fun hit => words.contains hit.1

variable {mark : Char} {continues : Char → Bool} {words : List Text}

theorem word_eq_some {before : Option Char} {here found left : Text} :
    word mark continues before here = some (found, left) ↔
      here = found ++ left ∧ Marked mark continues found ∧ left.head?.any continues = false := by
  constructor
  · intro hit
    unfold word at hit
    split at hit
    · contradiction
    · rename_i c rest
      obtain ⟨rfl, same⟩ := Option.ite_none_right_eq_some.mp hit
      obtain ⟨rfl, rfl⟩ := Prod.mk.inj (Option.some.inj same)
      refine ⟨by simp, ⟨_, rfl, ?_⟩, dropWhile_closed continues rest⟩
      exact List.all_eq_true.mp List.all_takeWhile
  · rintro ⟨rfl, ⟨tail, rfl, inner⟩, closed⟩
    obtain ⟨run, behind⟩ := run_append inner closed
    simp [word, run, behind]

theorem wordOf_eq_some {before : Option Char} {here found left : Text} :
    wordOf mark continues words before here = some (found, left) ↔
      found ∈ words ∧ here = found ++ left ∧ Marked mark continues found ∧
        left.head?.any continues = false := by
  simp only [wordOf, Option.filter_eq_some_iff, word_eq_some, List.contains_iff_mem]
  exact and_comm

theorem word_local : (word mark continues).Local where
  blind _ _ here := by cases here <;> rfl
  covers hit := by
    obtain ⟨rfl, ⟨tail, rfl, _⟩, _⟩ := word_eq_some.mp hit
    exact ⟨mark, tail, rfl⟩

theorem wordOf_local : (wordOf mark continues words).Local where
  blind before other here := by rw [wordOf, wordOf, word_local.blind before other]
  covers hit := word_local.covers (Option.filter_eq_some_iff.mp hit).1

theorem wordOf_congr {others : List Text} (same : ∀ found, found ∈ words ↔ found ∈ others) :
    wordOf mark continues words = wordOf mark continues others := by
  have listed : ∀ found, words.contains found = others.contains found := fun found =>
    Bool.eq_iff_iff.mpr (by simp only [List.contains_iff_mem, same])
  funext before here
  simp only [wordOf, listed]

theorem wordOf_inLine (stops : continues '\n' = false) (other : mark ≠ '\n') :
    (wordOf mark continues words).InLine := by
  intro before line rest single
  cases line with
  | nil => simp [wordOf, word, Ne.symm other]
  | cons c line =>
    by_cases begins : c = mark
    · simp only [wordOf, word, List.cons_append, begins, if_true, takeWhile_line stops,
        dropWhile_line stops, Option.filter_some]
      split <;> rfl
    · simp [wordOf, word, begins]

theorem mem_words_of_pieces {text found : Text}
    (member : .inr found ∈ pieces (wordOf mark continues words) 0 none text) : found ∈ words := by
  obtain ⟨_, _, _, hit⟩ := matched_of_mem_pieces member
  exact (wordOf_eq_some.mp hit).1

theorem write_words (text : Text) :
    Layout.write id (pieces (wordOf mark continues words) 0 none text) = text := by
  refine Layout.write_pieces 0 none text fun {_ _ found _} hit => ?_
  obtain ⟨_, whole, ⟨tail, rfl, _⟩, _⟩ := wordOf_eq_some.mp hit
  exact ⟨List.cons_ne_nil mark tail, whole⟩

/-- Behind its mark a word holds no other, so where it is not listed all of it is kept. -/
theorem pieces_unlisted (idle : continues mark = false) {found : Text}
    (marked : Marked mark continues found) (unlisted : found ∉ words) {left : Text}
    (closed : left.head?.any continues = false) :
    pieces (wordOf mark continues words) 0 none (found ++ left) =
      found.map .inl ++ pieces (wordOf mark continues words) 0 none left := by
  have missed : wordOf mark continues words none (found ++ left) = none := by
    rw [wordOf, word_eq_some.mpr ⟨rfl, marked, closed⟩]
    simp [unlisted]
  obtain ⟨tail, rfl, inner⟩ := marked
  refine pieces_append wordOf_local fun here filled suffix => ?_
  rcases List.suffix_cons_iff.mp suffix with rfl | inside
  · exact missed
  · obtain ⟨c, rest, rfl⟩ := List.exists_cons_of_ne_nil filled
    have other : c ≠ mark := by
      rintro rfl
      exact Bool.false_ne_true (idle.symm.trans (inner c (inside.subset List.mem_cons_self)))
    simp [wordOf, word, other]

/-- The listed words of a text are respelled by one pass over all its words. -/
theorem write_listed (idle : continues mark = false) {spell : Text → Text}
    (unlisted : ∀ found, found ∉ words → spell found = found) (text : Text) :
    Layout.write spell (pieces (wordOf mark continues words) 0 none text) =
      replaceBy (fun before here => (word mark continues before here).map fun (found, left) =>
        (spell found, left)) text := by
  have passes := (word_local : (word mark continues).Local).map spell
  induction text using search_induction (word_local : (word mark continues).Local) with
  | nil => rfl
  | char c rest missed ih =>
    have unfound : wordOf mark continues words none (c :: rest) = none := by
      rw [wordOf, missed, Option.filter_none]
    rw [pieces_char wordOf_local unfound, Layout.write_char, ih,
      replaceBy_char passes (by rw [missed, Option.map_none])]
  | found here found left hit ih =>
    have same := replaceBy_match passes (by rw [hit, Option.map_some])
    obtain ⟨rfl, marked, closed⟩ := word_eq_some.mp hit
    rw [same, ← ih]
    by_cases listed : found ∈ words
    · rw [pieces_match wordOf_local (wordOf_eq_some.mpr ⟨listed, rfl, marked, closed⟩),
        Layout.write_place]
    · rw [pieces_unlisted idle marked listed closed, Layout.write_append, Layout.write_chars,
        unlisted found listed]

end ColorTheme.Text
