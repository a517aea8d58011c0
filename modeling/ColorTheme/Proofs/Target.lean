import ColorTheme.Import
import ColorTheme.Proofs.Text.Trim
import Mathlib.Data.List.DropRight

/-!
What an import line names. The target stands between two quotation marks behind the keyword, with
nothing before it but white space and one list of options; only then is there one. -/
namespace ColorTheme

namespace Text

theorem trimEnd_append {c : Char} (solid : isBlank c = false) (front rest : Text) :
    trimEnd (front ++ c :: rest) = front ++ c :: trimEnd rest := by
  have whole : (front ++ c :: rest).reverse = rest.reverse ++ c :: front.reverse := by simp
  have stop : (c :: front.reverse).dropWhile isBlank = c :: front.reverse :=
    List.dropWhile_cons_of_neg (by simp [solid])
  rw [trimEnd, trimEnd, whole, List.dropWhile_append, stop]
  split
  · rename_i blank
    rw [List.isEmpty_iff.mp blank]
    simp
  · simp

theorem trimEnd_trimEnd (text : Text) : trimEnd (trimEnd text) = trimEnd text := by
  rw [trimEnd, trimEnd, List.reverse_reverse, List.dropWhile_idempotent]

end Text

namespace Import

open Variable (isQuote)

/-- A target in quotation marks, which need not be alike. -/
def Quoted (text target : Text) : Prop := ∃ opening closing rest,
  text = opening :: (target ++ closing :: rest) ∧ isQuote opening = true ∧
    isQuote closing = true ∧ target ≠ [] ∧ ∀ c ∈ target, isQuote c = false

inductive Preamble : Text → Prop
  | blank {gap : Text} : (∀ c ∈ gap, Text.isBlank c = true) → Preamble gap
  | options {gap inner space : Text} : (∀ c ∈ gap, Text.isBlank c = true) → ')' ∉ inner →
      (∀ c ∈ space, Text.isBlank c = true) → Preamble (gap ++ '(' :: (inner ++ ')' :: space))

/-- A line that imports a target. -/
def IsTarget (line target : Text) : Prop :=
  ∃ front text, line = "@import".toList ++ (front ++ text) ∧ Preamble front ∧ Quoted text target

/-- The text behind the options, if there are any. -/
def unlisted? : Text → Option Text
  | '(' :: inner => (Text.cut? [')'] inner).map fun (_, rest) => Text.trimStart rest
  | text => some text

def quoted? : Text → Option Text
  | [] => none
  | c :: rest =>
    let target := rest.takeWhile (!isQuote ·)
    if isQuote c && !target.isEmpty && (rest.drop target.length).head?.any isQuote then some target
    else none

theorem target?_eq (line : Text) : target? line =
    (Text.after? "@import" (Text.trimEnd line)).bind fun text =>
      (unlisted? (Text.trimStart text)).bind quoted? := by
  have marks : ∀ c : Char, (decide (c = '"') || decide (c = '\'')) = isQuote c :=
    fun c => Bool.or_comm _ _
  simp only [target?, marks]
  cases Text.after? "@import" (Text.trimEnd line) with
  | none => rfl
  | some text =>
    simp only [Option.bind_eq_bind, Option.bind_some]
    cases Text.trimStart text with
    | nil => rfl
    | cons c text =>
      by_cases opened : c = '('
      · subst opened
        rfl
      · simp [unlisted?, opened, quoted?]

theorem isBlank_of_isQuote {c : Char} (quote : isQuote c = true) : Text.isBlank c = false := by
  rcases Bool.or_eq_true_iff.mp quote with same | same
  · rw [of_decide_eq_true same]
    decide
  · rw [of_decide_eq_true same]
    decide

theorem quoted?_eq_some {text target : Text} : quoted? text = some target ↔ Quoted text target := by
  constructor
  · intro found
    cases text with
    | nil => contradiction
    | cons opening rest =>
      have cut : rest.drop (rest.takeWhile (!isQuote ·)).length = rest.dropWhile (!isQuote ·) := by
        have split : rest = rest.takeWhile (!isQuote ·) ++ rest.dropWhile (!isQuote ·) :=
          List.takeWhile_append_dropWhile.symm
        exact (congrArg (List.drop _) split).trans List.drop_left
      simp only [quoted?, cut, Option.ite_none_right_eq_some, Option.some.injEq, Bool.and_eq_true,
        Bool.not_eq_true', List.isEmpty_eq_false_iff] at found
      obtain ⟨⟨⟨opens, filled⟩, closes⟩, rfl⟩ := found
      cases left : rest.dropWhile (!isQuote ·) with
      | nil => simp [left] at closes
      | cons closing back =>
        rw [left] at closes
        refine ⟨opening, closing, back, ?_, opens, by simpa using closes, filled, ?_⟩
        · rw [← left, List.takeWhile_append_dropWhile]
        · exact fun c member => by simpa using List.mem_takeWhile_imp member
  · rintro ⟨opening, closing, rest, rfl, opens, closes, filled, inner⟩
    have run : (target ++ closing :: rest).takeWhile (!isQuote ·) = target :=
      (Text.run_append (by simpa using inner) (by simp [closes])).1
    simp [quoted?, run, opens, closes, filled]

/-- What begins with a mark is met behind the blanks and options before it. -/
theorem unlisted?_preamble {front text target : Text} (before : Preamble front)
    (quoted : Quoted text target) :
    unlisted? (Text.trimStart (front ++ text)) = some text := by
  obtain ⟨opening, _, _, whole, opens, _⟩ := quoted
  have solid : Text.trimStart text = text := by
    rw [whole]
    exact Text.trimStart_cons_of_solid (isBlank_of_isQuote opens) _
  have skip : ∀ gap rest, (∀ c ∈ gap, Text.isBlank c = true) →
      Text.trimStart (gap ++ rest) = Text.trimStart rest :=
    fun gap rest blank => List.dropWhile_append_of_pos blank
  cases before with
  | blank gap =>
    have other : opening ≠ '(' := by
      rintro rfl
      contradiction
    rw [skip _ _ gap, solid, whole]
    simp [unlisted?, other]
  | @options _ inner space gap single after =>
    have cut : Text.cut? [')'] (inner ++ ')' :: (space ++ text)) = some (inner, space ++ text) := by
      refine (Text.cut?_iff (List.cons_ne_nil _ _)).mpr ⟨rfl, ?_⟩
      rwa [List.dropLast_concat, List.singleton_infix_iff]
    have start : Text.trimStart ('(' :: (inner ++ ')' :: space) ++ text) =
        '(' :: (inner ++ ')' :: (space ++ text)) := by
      rw [List.cons_append, List.append_assoc, List.cons_append]
      exact Text.trimStart_cons_of_solid (by decide) _
    rw [List.append_assoc, skip _ _ gap, start, unlisted?, cut, Option.map_some]
    exact congrArg some ((skip _ _ after).trans solid)

theorem exists_preamble {text rest : Text} (found : unlisted? (Text.trimStart text) = some rest) :
    ∃ front, Preamble front ∧ text = front ++ rest := by
  have split : ∀ text : Text, text = text.takeWhile Text.isBlank ++ Text.trimStart text :=
    fun text => List.takeWhile_append_dropWhile.symm
  have blank : ∀ text : Text, ∀ c ∈ text.takeWhile Text.isBlank, Text.isBlank c = true :=
    fun _ _ => List.mem_takeWhile_imp
  generalize left : Text.trimStart text = behind at found
  unfold unlisted? at found
  split at found
  · rename_i inner
    obtain ⟨⟨options, after⟩, cut, rfl⟩ := Option.map_eq_some_iff.mp found
    obtain ⟨rfl, single⟩ := (Text.cut?_iff (List.cons_ne_nil _ _)).mp cut
    rw [List.dropLast_concat, List.singleton_infix_iff] at single
    refine ⟨_, .options (blank text) single (blank after), ?_⟩
    nth_rewrite 1 [split text]
    rw [left]
    nth_rewrite 1 [split after]
    simp
  · cases found
    exact ⟨_, .blank (blank text), by rw [← left, ← split text]⟩

theorem target?_eq_some {line target : Text} :
    target? line = some target ↔ IsTarget line target := by
  rw [target?_eq]
  constructor
  · intro found
    obtain ⟨text, after, found⟩ := Option.bind_eq_some_iff.mp found
    obtain ⟨rest, listed, quoted⟩ := Option.bind_eq_some_iff.mp found
    obtain ⟨front, before, rfl⟩ := exists_preamble listed
    obtain ⟨opening, closing, more, rfl, marks⟩ := quoted?_eq_some.mp quoted
    obtain ⟨cut, whole⟩ := Text.trimEnd_begins line
    refine ⟨front, opening :: (target ++ closing :: (more ++ cut)), ?_, before,
      opening, closing, more ++ cut, rfl, marks⟩
    rw [← whole, Text.after?_eq_some.mp after]
    simp
  · rintro ⟨front, text, rfl, before, opening, closing, rest, rfl, marks⟩
    have kept : Text.trimEnd ("@import".toList ++
        (front ++ opening :: (target ++ closing :: rest))) = "@import".toList ++
          (front ++ opening :: (target ++ closing :: Text.trimEnd rest)) := by
      have shape : ∀ back, "@import".toList ++ (front ++ opening :: (target ++ closing :: back)) =
          ("@import".toList ++ (front ++ opening :: target)) ++ closing :: back := by simp
      rw [shape, shape, Text.trimEnd_append (isBlank_of_isQuote marks.2.1)]
    have quoted : Quoted (opening :: (target ++ closing :: Text.trimEnd rest)) target :=
      ⟨opening, closing, _, rfl, marks⟩
    rw [kept, Text.after?_append, Option.bind_some, unlisted?_preamble before quoted,
      Option.bind_some]
    exact quoted?_eq_some.mpr quoted

theorem target?_trim {line : Text} (imports : isImportLine line = true) :
    isImportLine (Text.trim line) = true ∧ target? (Text.trim line) = target? line := by
  obtain ⟨rest, found⟩ := Option.isSome_iff_exists.mp imports
  obtain rfl := Text.after?_eq_some.mp found
  have trimmed : Text.trim ("@import".toList ++ rest) =
      Text.trimEnd ("@import".toList ++ rest) :=
    congrArg Text.trimEnd (Text.trimStart_cons_of_solid (by decide) _)
  have kept : Text.trimEnd ("@import".toList ++ rest) = "@import".toList ++ Text.trimEnd rest :=
    Text.trimEnd_append (c := 't') (by decide) "@impor".toList rest
  refine ⟨?_, ?_⟩
  · rw [trimmed, kept, isImportLine, Text.startsWith, Text.after?_append]
    rfl
  · rw [trimmed, target?_eq, target?_eq, Text.trimEnd_trimEnd]

end Import
end ColorTheme
