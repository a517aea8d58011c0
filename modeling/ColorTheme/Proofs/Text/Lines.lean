import ColorTheme.Proofs.Text.Run
import ColorTheme.Proofs.Text.Search
import Mathlib.Data.List.TakeWhile

/-!
Texts met part by part and line by line. A stop separates two texts, and a matcher that does not
reach over it does the same on both sides of it as on each side alone; the stop of lines is the line
feed. -/
namespace ColorTheme

theorem notMem_of_mem_splitOn {c : Char} {part text : Text} (member : part ∈ text.splitOn c) :
    c ∉ part := by
  induction text generalizing part with
  | nil =>
    rw [List.splitOn_nil, List.mem_singleton] at member
    simp [member]
  | cons d rest ih =>
    simp only [List.splitOn, List.splitOnP_cons_eq_if_modifyHead] at member ih
    split at member
    · rcases List.mem_cons.mp member with rfl | later
      · exact List.not_mem_nil
      · exact ih later
    · rename_i other
      cases known : List.splitOnP (· == c) rest with
      | nil => exact absurd known (List.splitOnP_ne_nil _ _)
      | cons first parts =>
        rw [known] at member ih
        rcases List.mem_cons.mp member with rfl | later
        · have apart : c ≠ d := fun same => other (by simp [same])
          exact List.not_mem_cons_of_ne_of_not_mem apart (ih List.mem_cons_self)
        · exact ih (List.mem_cons_of_mem first later)

theorem splitOn_append (c : Char) (front back : Text) :
    (front ++ c :: back).splitOn c = front.splitOn c ++ back.splitOn c :=
  List.splitOnP_append_cons front back (by simp)

namespace Text

theorem lines_line {line : Text} (single : '\n' ∉ line) : lines line = [line] := by
  have split : (['\n'].intercalate [line]).splitOn '\n' = [line] :=
    List.splitOn_intercalate '\n' (by simpa using single) (List.cons_ne_nil line [])
  rwa [List.intercalate_singleton] at split

theorem lines_append {line : Text} (single : '\n' ∉ line) (rest : Text) :
    lines (line ++ '\n' :: rest) = line :: lines rest := by
  have first : line.splitOn '\n' = [line] := lines_line single
  rw [lines, splitOn_append, first, List.singleton_append, lines]

/-- Induction over the lines of a text. -/
theorem lines_induction {P : Text → Prop} (last : ∀ line, '\n' ∉ line → P line)
    (feed : ∀ line rest, '\n' ∉ line → P rest → P (line ++ '\n' :: rest)) (text : Text) :
    P text := by
  induction measured : text.length using Nat.strongRecOn generalizing text with
  | ind size ih =>
    by_cases more : '\n' ∈ text
    · obtain ⟨line, rest, rfl, single⟩ := List.eq_append_cons_of_mem more
      refine feed line rest single (ih rest.length ?_ rest rfl)
      simp only [← measured, List.length_append, List.length_cons]
      omega
    · exact last text more

section Lines

variable {α : Type}

/-- A matcher that finds on a line the same whatever lines follow, and leaves these over. -/
def Matcher.InLine (m : Matcher α) : Prop := ∀ before line rest, '\n' ∉ line →
  m before (line ++ '\n' :: rest) = (m before line).map fun (value, left) =>
    (value, left ++ '\n' :: rest)

/-- A matcher that finds in a part the same whatever follows the stop behind it. -/
def Matcher.Within (stop : Char) (m : Matcher α) : Prop := ∀ before part rest, stop ∉ part →
  m before (part ++ stop :: rest) = (m before part).map fun (value, left) =>
    (value, left ++ stop :: rest)

theorem Matcher.Within.map {β : Type} {stop : Char} {m : Matcher α} (stays : m.Within stop)
    (f : α → β) : Matcher.Within stop fun before here =>
      (m before here).map fun (value, left) => (f value, left) := by
  intro before part rest clean
  simp only [stays before part rest clean, Option.map_map]
  rfl

theorem Matcher.InLine.map {β : Type} {m : Matcher α} (stays : m.InLine) (f : α → β) :
    Matcher.InLine fun before here =>
      (m before here).map fun (value, left) => (f value, left) :=
  Matcher.Within.map stays f

theorem after?_within {stop : Char} {start part : Text} (clean : stop ∉ start) (rest : Text) :
    after? start (part ++ stop :: rest) = (after? start part).map (· ++ stop :: rest) := by
  induction start generalizing part with
  | nil => rfl
  | cons c start ih =>
    obtain ⟨other, later⟩ := List.ne_and_not_mem_of_not_mem_cons clean
    cases part with
    | nil => simp [after?, Ne.symm other]
    | cons d part =>
      by_cases same : c = d
      · simp [after?, same, ih later]
      · simp [after?, same]

theorem after?_line {start line : Text} (single : '\n' ∉ start) (rest : Text) :
    after? start (line ++ '\n' :: rest) = (after? start line).map (· ++ '\n' :: rest) :=
  after?_within single rest

theorem dropWhile_line {p : Char → Bool} (stops : p '\n' = false) (line rest : Text) :
    (line ++ '\n' :: rest).dropWhile p = line.dropWhile p ++ '\n' :: rest := by
  induction line with
  | nil => simp [stops]
  | cons c line ih =>
    by_cases on : p c = true
    · simp [on, ih]
    · simp [on]

theorem cutLineLast?_of_line {stop : Char} {line : Text} (single : '\n' ∉ line) (rest : Text) :
    cutLineLast? stop (line ++ '\n' :: rest) =
      (cutLast? stop line).map fun (head, tail) => (head, tail ++ '\n' :: rest) := by
  have inner : ∀ c ∈ line, decide (c ≠ '\n') = true := fun c member =>
    decide_eq_true fun same => single (same ▸ member)
  simp only [cutLineLast?, List.takeWhile_append_of_pos inner, List.dropWhile_append_of_pos inner]
  simp

theorem cutLineLast?_last {stop : Char} {line : Text} (single : '\n' ∉ line) :
    cutLineLast? stop line = cutLast? stop line := by
  have inner : ∀ c ∈ line, decide (c ≠ '\n') = true := fun c member =>
    decide_eq_true fun same => single (same ▸ member)
  simp only [cutLineLast?, List.takeWhile_eq_self_iff.mpr inner, List.dropWhile_eq_nil_iff.mpr inner]
  simp

theorem takeWhile_line {p : Char → Bool} (stops : p '\n' = false) (line rest : Text) :
    (line ++ '\n' :: rest).takeWhile p = line.takeWhile p := by
  induction line with
  | nil => simp [stops]
  | cons c line ih =>
    by_cases on : p c = true
    · simp [on, ih]
    · simp [on]

/-- A search starts anew behind a stop that no match reaches over. -/
theorem pieces_within {stop : Char} {m : Matcher α} (is : m.Local) (stays : m.Within stop)
    {part : Text} (clean : stop ∉ part) (rest : Text) : pieces m 0 none (part ++ stop :: rest) =
      pieces m 0 none part ++ .inl stop :: pieces m 0 none rest := by
  induction part using search_induction is with
  | nil =>
    have missed : m none (stop :: rest) = none := by
      rw [← List.nil_append (stop :: rest), stays none [] rest List.not_mem_nil, is.nil]
      rfl
    exact pieces_char is missed
  | char c part missed ih =>
    have later := List.ne_and_not_mem_of_not_mem_cons clean
    have again : m none (c :: (part ++ stop :: rest)) = none := by
      rw [← List.cons_append, stays none _ rest clean, missed, Option.map_none]
    rw [List.cons_append, pieces_char is again, pieces_char is missed, ih later.2,
      List.cons_append]
  | found here value left found ih =>
    have again : m none (here ++ stop :: rest) = some (value, left ++ stop :: rest) := by
      rw [stays none _ rest clean, found, Option.map_some]
    obtain ⟨c, used, rfl⟩ := is.covers found
    rw [pieces_match is again, pieces_match is found, List.cons_append]
    exact congrArg _ (ih fun member => clean (List.mem_append_right _ member))

theorem replaceBy_within {stop : Char} {m : Matcher Text} (is : m.Local) (stays : m.Within stop)
    {part : Text} (clean : stop ∉ part) (rest : Text) :
    replaceBy m (part ++ stop :: rest) = replaceBy m part ++ stop :: replaceBy m rest := by
  simp [replaceBy, pieces_within is stays clean]

theorem pieces_line {m : Matcher α} (is : m.Local) (stays : m.InLine) {line : Text}
    (single : '\n' ∉ line) (rest : Text) : pieces m 0 none (line ++ '\n' :: rest) =
      pieces m 0 none line ++ .inl '\n' :: pieces m 0 none rest :=
  pieces_within is stays single rest

theorem replaceBy_line {m : Matcher Text} (is : m.Local) (stays : m.InLine) {line : Text}
    (single : '\n' ∉ line) (rest : Text) :
    replaceBy m (line ++ '\n' :: rest) = replaceBy m line ++ '\n' :: replaceBy m rest :=
  replaceBy_within is stays single rest

theorem lines_ne_nil (text : Text) : lines text ≠ [] := List.splitOnP_ne_nil _ text

theorem replaceBy_lines {m : Matcher Text} (is : m.Local) (stays : m.InLine) (text : Text) :
    replaceBy m text = joinLines ((lines text).map (replaceBy m)) := by
  induction text using lines_induction with
  | last line single => simp [lines_line single, joinLines]
  | feed line rest single ih =>
    have more : (lines rest).map (replaceBy m) ≠ [] := by simp [lines_ne_nil]
    rw [replaceBy_line is stays single, lines_append single, List.map_cons, joinLines,
      List.intercalate_cons_of_ne_nil more, ih, joinLines]
    simp

end Lines

section Erase

variable {m : Matcher Unit}

variable (is : m.Local)

include is

theorem erase_match {here left : Text} (found : m none here = some ((), left)) :
    erase m here = erase m left := by
  have emptied : (m none here).map (fun hit => (([] : Text), hit.2)) = some ([], left) := by
    rw [found, Option.map_some]
  exact replaceBy_match (is.map fun _ => []) emptied

theorem erase_char {c : Char} {rest : Text} (missed : m none (c :: rest) = none) :
    erase m (c :: rest) = c :: erase m rest :=
  replaceBy_char (is.map fun _ => []) (by rw [missed, Option.map_none])

theorem erase_append {start rest : Text}
    (missed : ∀ here, here ≠ [] → here <:+ start → m none (here ++ rest) = none) :
    erase m (start ++ rest) = start ++ erase m rest :=
  replaceBy_kept (is.map fun _ => []) fun here filled suffix => by
    rw [missed here filled suffix, Option.map_none]

theorem erase_idle {text : Text} (missed : ∀ here, here <:+ text → m none here = none) :
    erase m text = text :=
  replaceBy_idle (is.map fun _ => []) fun here suffix => by
    rw [missed here suffix, Option.map_none]

theorem erase_sublist (text : Text) : (erase m text).Sublist text := by
  induction text using search_induction is with
  | nil => exact List.Sublist.slnil
  | char c rest missed ih =>
    rw [erase_char is missed]
    exact ih.cons_cons c
  | found here value left found ih =>
    obtain ⟨c, used, rfl⟩ := is.covers found
    rw [erase_match is found]
    exact ih.trans (List.sublist_append_right _ left)

theorem erase_line (stays : m.InLine) {line : Text} (single : '\n' ∉ line) (rest : Text) :
    erase m (line ++ '\n' :: rest) = erase m line ++ '\n' :: erase m rest :=
  replaceBy_line (is.map fun _ => []) (stays.map fun _ => []) single rest

theorem lines_erase (stays : m.InLine) (text : Text) :
    lines (erase m text) = (lines text).map (erase m) := by
  induction text using lines_induction with
  | last line single =>
    rw [lines_line single, lines_line fun member => single ((erase_sublist is line).subset member)]
    rfl
  | feed line rest single ih =>
    have still : '\n' ∉ erase m line := fun member => single ((erase_sublist is line).subset member)
    rw [erase_line is stays single, lines_append still, lines_append single, ih, List.map_cons]

end Erase

end Text
end ColorTheme
