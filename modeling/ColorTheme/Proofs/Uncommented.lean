import ColorTheme.Minify
import ColorTheme.Proofs.Text.Lines
import Mathlib.Data.List.Infix

/-!
A sheet without its comments. They are taken out from left to right, a block with the first mark that
closes it and a line up to its end, and what is left over does not come together to a comment. -/
namespace ColorTheme.Minify

open Text

/-- A comment in front of `rest`: a block that ends with the first mark that closes it, or a line
up to its line feed. A carriage return there belongs to the line. -/
inductive Comment (rest : Text) : Text → Prop
  | block {body : Text} (first : ¬ ("*/" : Text) <:+: body ++ "*") :
      Comment rest ("/*" ++ (body ++ "*/"))
  | line {words : Text} (single : '\n' ∉ words) (ends : rest.head?.all (· = '\n') = true) :
      Comment rest ("//" ++ words)

/-- The text without its comments, from left to right. -/
inductive Uncommented : (text left : Text) → Prop
  | nil : Uncommented [] []
  | char {c : Char} {rest left : Text}
      (free : ∀ used behind, c :: rest = used ++ behind → ¬ Comment behind used) :
      Uncommented rest left → Uncommented (c :: rest) (c :: left)
  | comment {used rest left : Text} (is : Comment rest used) :
      Uncommented rest left → Uncommented (used ++ rest) left

/-- A block is closed by the first mark that can close it. -/
theorem closes_iff {text body left : Text} : cut? "*/" text = some (body, left) ↔
    text = body ++ ("*/" ++ left) ∧ ¬ ("*/" : Text) <:+: body ++ "*" := by
  rw [cut?_iff (by decide), List.dropLast_append_of_ne_nil (by decide)]
  rfl

theorem blockComment_eq_some {before : Option Char} {here left : Text} :
    blockComment before here = some ((), left) ↔ ∃ body,
      ¬ ("*/" : Text) <:+: body ++ "*" ∧ here = "/*" ++ (body ++ "*/") ++ left := by
  simp only [blockComment, Option.bind_eq_bind, Option.bind_eq_some_iff, after?_eq_some]
  constructor
  · rintro ⟨text, rfl, ⟨body, rest⟩, cut, same⟩
    cases same
    obtain ⟨rfl, first⟩ := closes_iff.mp cut
    exact ⟨body, first, by simp⟩
  · rintro ⟨body, first, rfl⟩
    exact ⟨_, by simp, _, closes_iff.mpr ⟨rfl, first⟩, rfl⟩

theorem lineComment_eq_some {before : Option Char} {here left : Text} :
    lineComment before here = some ((), left) ↔ ∃ words,
      '\n' ∉ words ∧ left.head?.all (· = '\n') = true ∧ here = "//" ++ words ++ left := by
  simp only [lineComment, Option.bind_eq_bind, Option.bind_eq_some_iff, after?_eq_some]
  constructor
  · rintro ⟨text, rfl, same⟩
    cases same
    refine ⟨text.takeWhile (· ≠ '\n'), fun member => ?_, ?_, ?_⟩
    · simpa using List.all_eq_true.mp List.all_takeWhile _ member
    · have closed := dropWhile_closed (· ≠ '\n') text
      cases known : text.dropWhile (· ≠ '\n') with
      | nil => rfl
      | cons c rest =>
        rw [known] at closed
        simpa using closed
    · rw [List.append_assoc, List.takeWhile_append_dropWhile]
  · rintro ⟨words, single, ends, rfl⟩
    have inner : ∀ c ∈ words, decide (c ≠ '\n') = true := fun c member =>
      decide_eq_true fun same => single (same ▸ member)
    have closed : left.head?.any (fun c => decide (c ≠ '\n')) = false := by
      cases left with
      | nil => rfl
      | cons c left => simpa using ends
    refine ⟨words ++ left, by simp, ?_⟩
    rw [(run_append inner closed).2]
    rfl

theorem comment_eq_some {before : Option Char} {here left : Text} :
    comment before here = some ((), left) ↔ ∃ used, here = used ++ left ∧ Comment left used := by
  unfold comment
  cases closed : blockComment before here with
  | some hit =>
    obtain ⟨⟨⟩, behind⟩ := hit
    obtain ⟨body, first, whole⟩ := blockComment_eq_some.mp closed
    constructor
    · intro same
      cases same
      exact ⟨_, whole, .block first⟩
    · rintro ⟨_, split, @⟨other, apart⟩ | ⟨_, _⟩⟩
      · rw [← blockComment_eq_some.mpr ⟨other, apart, split⟩, closed]
        rfl
      · rw [whole] at split
        simp at split
  | none =>
    have unclosed : ∀ {body}, ¬ ("*/" : Text) <:+: body ++ "*" →
        here ≠ "/*" ++ (body ++ "*/") ++ left := by
      intro body first whole
      rw [blockComment_eq_some.mpr ⟨body, first, whole⟩] at closed
      contradiction
    rw [Option.orElse_none, lineComment_eq_some]
    constructor
    · rintro ⟨words, single, ends, whole⟩
      exact ⟨_, whole, .line single ends⟩
    · rintro ⟨_, split, first | ⟨single, ends⟩⟩
      · exact absurd split (unclosed first)
      · exact ⟨_, single, ends, split⟩

theorem Comment.slash {rest used : Text} (is : Comment rest used) : ∃ more, used = '/' :: more := by
  rcases is with first | ⟨single, ends⟩ <;> exact ⟨_, rfl⟩

theorem comment_local : comment.Local where
  blind _ _ _ := rfl
  covers found := by
    obtain ⟨used, rfl, is⟩ := comment_eq_some.mp found
    obtain ⟨more, rfl⟩ := is.slash
    exact ⟨'/', more, rfl⟩

theorem comment_eq_none {here : Text} :
    comment none here = none ↔ ∀ used left, here = used ++ left → ¬ Comment left used := by
  rw [Option.eq_none_iff_forall_ne_some]
  constructor
  · intro missed used left whole is
    exact missed ((), left) (comment_eq_some.mpr ⟨used, whole, is⟩)
  · rintro free ⟨⟨⟩, left⟩ found
    obtain ⟨used, whole, is⟩ := comment_eq_some.mp found
    exact free used left whole is

theorem uncommented_erase (text : Text) : Uncommented text (erase comment text) := by
  induction text using search_induction comment_local with
  | nil => exact .nil
  | char c rest missed ih =>
    rw [erase_char comment_local missed]
    exact .char (comment_eq_none.mp missed) ih
  | found here value left found ih =>
    obtain ⟨used, rfl, is⟩ := comment_eq_some.mp found
    rw [erase_match comment_local found]
    exact .comment is ih

theorem uncommented_iff {text left : Text} : Uncommented text left ↔ left = erase comment text := by
  constructor
  · intro uncommented
    induction uncommented with
    | nil => rfl
    | char none _ ih => rw [erase_char comment_local (comment_eq_none.mpr none), ih]
    | comment is _ ih =>
      rw [erase_match comment_local (comment_eq_some.mpr ⟨_, rfl, is⟩), ih]
  · rintro rfl
    exact uncommented_erase text

/-- A comment begins here: one of a line, or a block that is closed. -/
def Begins (here : Text) : Prop :=
  ("//" : Text) <+: here ∨ ∃ more, here = '/' :: '*' :: more ∧ ("*/" : Text) <:+: more

theorem comment_eq_none_iff {here : Text} : comment none here = none ↔ ¬ Begins here := by
  constructor
  · rintro missed (⟨more, rfl⟩ | ⟨more, rfl, inside⟩)
    · cases missed
    · cases known : cut? "*/" more with
      | none => exact (cut?_eq_none (by decide)).mp known inside
      | some parts =>
        obtain ⟨rfl, first⟩ := closes_iff.mp known
        exact comment_eq_none.mp missed ("/*" ++ (parts.1 ++ "*/")) parts.2 (by simp) (.block first)
  · intro idle
    rw [Option.eq_none_iff_forall_ne_some]
    rintro ⟨⟨⟩, left⟩ found
    obtain ⟨_, rfl, @⟨body, _⟩ | ⟨_, _⟩⟩ := comment_eq_some.mp found
    · exact idle (.inr ⟨body ++ "*/" ++ left, rfl, ⟨body, left, rfl⟩⟩)
    · exact idle (.inl ⟨_, rfl⟩)

/-- No comment begins anywhere. -/
def Commentless (text : Text) : Prop := ∀ here, here <:+ text → ¬ Begins here

theorem erase_commentless {text : Text} (commentless : Commentless text) : erase comment text = text :=
  erase_idle comment_local fun here suffix => comment_eq_none_iff.mpr (commentless here suffix)

theorem slash_of_erase {text more : Text} (left : erase comment text = '/' :: more) :
    ∃ rest, text = '/' :: rest := by
  cases text with
  | nil => cases left
  | cons c rest =>
    cases known : comment none (c :: rest) with
    | none =>
      rw [erase_char comment_local known] at left
      exact ⟨rest, by rw [(List.cons.inj left).1]⟩
    | some hit =>
      obtain ⟨used, whole, is⟩ := comment_eq_some.mp known
      obtain ⟨inner, rfl⟩ := is.slash
      exact ⟨_, whole⟩

theorem closed_of_erase {text : Text} (closed : ("*/" : Text) <:+: erase comment text) :
    ("*/" : Text) <:+: text := by
  induction text using search_induction comment_local with
  | nil => exact closed
  | char c rest missed ih =>
    rw [erase_char comment_local missed] at closed
    rw [List.infix_cons_iff] at closed ⊢
    refine closed.imp (fun start => ?_) ih
    obtain ⟨rfl, more⟩ := List.cons_prefix_cons.mp start
    obtain ⟨behind, left⟩ := more
    obtain ⟨rest, rfl⟩ := slash_of_erase left.symm
    exact ⟨rest, rfl⟩
  | found here value left found ih =>
    obtain ⟨used, rfl, _⟩ := comment_eq_some.mp found
    rw [erase_match comment_local found] at closed
    exact (ih closed).trans (List.suffix_append used left).isInfix

theorem commentless_erase (text : Text) : Commentless (erase comment text) := by
  induction text using search_induction comment_local with
  | nil =>
    intro here suffix
    rw [List.suffix_nil.mp suffix]
    exact comment_eq_none_iff.mp rfl
  | char c rest missed ih =>
    rw [erase_char comment_local missed]
    intro here suffix
    rcases List.suffix_cons_iff.mp suffix with rfl | later
    · refine mt ?_ (comment_eq_none_iff.mp missed)
      rintro (start | ⟨more, whole, closed⟩)
      · obtain ⟨rfl, behind, left⟩ := List.cons_prefix_cons.mp start
        obtain ⟨rest, rfl⟩ := slash_of_erase left.symm
        exact .inl ⟨rest, rfl⟩
      · obtain ⟨rfl, left⟩ := List.cons.inj whole
        -- A comment cannot begin behind a slash: both together are a comment.
        cases known : comment none rest with
        | some hit =>
          obtain ⟨used, rfl, is⟩ := comment_eq_some.mp known
          obtain ⟨inner, rfl⟩ := is.slash
          exact .inl ⟨inner ++ hit.2, rfl⟩
        | none =>
          cases rest with
          | nil => cases left
          | cons d rest =>
            rw [erase_char comment_local known] at left
            obtain ⟨rfl, rfl⟩ := List.cons.inj left
            exact .inr ⟨rest, rfl, closed_of_erase closed⟩
    · exact ih here later
  | found here value left found ih =>
    rw [erase_match comment_local found]
    exact ih

end ColorTheme.Minify
