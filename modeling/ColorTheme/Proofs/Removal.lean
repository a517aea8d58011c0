import ColorTheme.Proofs.Declaration
import ColorTheme.Proofs.Text.Lines
import ColorTheme.Substitution

/-!
What the removal of declarations leaves. A removal takes a declaration out of a line, up to the last
semicolon of it, and what stood on both sides of it comes together. On a tidy line no heading is
passed over by that and none comes about. -/
namespace ColorTheme

namespace Variable

/-- A declaration of `name` begins here. -/
def opens (name here : Text) : Bool := (heading? here).any (·.1 = name)

theorem opens_iff {name here : Text} :
    opens name here = true ↔ ∃ head rest, Heading name head ∧ here = head ++ rest := by
  rw [opens, Option.any_eq_true]
  constructor
  · rintro ⟨⟨other, rest⟩, found, same⟩
    obtain rfl : other = name := by simpa using same
    obtain ⟨head, heading, whole⟩ := heading?_eq_some.mp found
    exact ⟨head, rest, heading, whole⟩
  · rintro ⟨head, rest, heading, whole⟩
    exact ⟨(name, rest), heading?_eq_some.mpr ⟨head, heading, whole⟩, by simp⟩

theorem opens_append {name here : Text} (begins : opens name here = true) (rest : Text) :
    opens name (here ++ rest) = true := by
  obtain ⟨head, behind, heading, rfl⟩ := opens_iff.mp begins
  exact opens_iff.mpr ⟨head, behind ++ rest, heading, List.append_assoc ..⟩

theorem opens_line {name line rest : Text} (begins : opens name (line ++ '\n' :: rest) = true) :
    opens name line = true := by
  obtain ⟨head, behind, heading, whole⟩ := opens_iff.mp begins
  rcases List.append_eq_append_iff.mp whole with ⟨more, split, feed⟩ | ⟨more, split, _⟩
  · cases more with
    | nil => exact opens_iff.mpr ⟨head, [], heading, by simp [split]⟩
    | cons c more =>
      obtain ⟨rfl, _⟩ := List.cons.inj feed
      have inside : '\n' ∈ head := by simp [split]
      exact absurd inside (heading.notMem (by decide))
  · exact opens_iff.mpr ⟨head, more, heading, split⟩

/-- No heading could go on behind this text. -/
def isSetOff (front : Text) : Bool := (front.reverse.dropWhile isHeadChar).head? ≠ some '@'

theorem isSetOff_heading (start : Text) {inner : Text} (chars : ∀ c ∈ inner, isHeadChar c = true) :
    isSetOff (start ++ '@' :: inner) = false := by
  have closed : ('@' :: start.reverse).head?.any isHeadChar = false :=
    (by decide : isHeadChar '@' = false)
  have run := Text.run_append (fun c member => chars c (List.mem_reverse.mp member)) closed
  have reversed : (start ++ '@' :: inner).reverse = inner.reverse ++ '@' :: start.reverse := by simp
  simp [isSetOff, reversed, run.2]

/-- A heading behind a text that is set off does not reach into it: one that begins in the text also
ends in it. -/
theorem opens_of_append {name start between rest : Text} (filled : between ≠ [])
    (apart : isSetOff (start ++ between) = true) (begins : opens name (between ++ rest) = true) :
    opens name between = true := by
  obtain ⟨head, behind, heading, whole⟩ := opens_iff.mp begins
  rcases List.append_eq_append_iff.mp whole with ⟨more, split, _⟩ | ⟨more, split, _⟩
  · rcases List.eq_nil_or_concat more with rfl | ⟨more, colon, rfl⟩
    · exact opens_iff.mpr ⟨head, [], heading, by simp [split]⟩
    · -- The heading would go on behind the text, which breaks off after the sigil.
      obtain ⟨inner, same, chars⟩ := heading.inner
      obtain ⟨c, between, rfl⟩ := List.exists_cons_of_ne_nil filled
      rw [split, List.concat_eq_append, ← List.append_assoc] at same
      have cut := (List.append_inj' same rfl).1
      obtain ⟨rfl, rfl⟩ := List.cons.inj cut
      have off := isSetOff_heading start
        fun d member => chars d (List.mem_append_left more member)
      exact absurd apart (by simp [off])
  · exact opens_iff.mpr ⟨head, more, heading, split⟩

theorem IsName.single {name : Text} (named : IsName name) : '\n' ∉ name := by
  obtain ⟨word, rfl, _, inner⟩ := named
  refine List.not_mem_cons_of_ne_of_not_mem (by decide) fun member => ?_
  exact absurd (inner _ member) (by decide)

end Variable

namespace Substitution

open Variable

variable {name : Text}

theorem dropWhile_spaces {spaces : Text} (blank : ∀ c ∈ spaces, c = ' ') (rest : Text) :
    (spaces ++ ':' :: rest).dropWhile (· = ' ') = ':' :: rest :=
  (Text.run_append (fun c member => decide_eq_true (blank c member)) rfl).2

theorem declarationOf_eq_some {before : Option Char} {here left : Text} :
    declarationOf name before here = some ((), left) ↔ ∃ spaces rest value,
      (∀ c ∈ spaces, c = ' ') ∧ here = name ++ (spaces ++ ':' :: rest) ∧
        Text.cutLineLast? ';' rest = some (value, left) := by
  simp only [declarationOf, Option.bind_eq_bind, Option.bind_eq_some_iff, Text.after?_eq_some]
  constructor
  · rintro ⟨text, rfl, rest, colon, ⟨value, behind⟩, cut, same⟩
    cases same
    refine ⟨text.takeWhile (· = ' '), rest, value, ?_, ?_, cut⟩
    · intro c member
      simpa using List.mem_takeWhile_imp member
    · rw [show ':' :: rest = text.dropWhile (· = ' ') from colon.symm,
        List.takeWhile_append_dropWhile]
  · rintro ⟨spaces, rest, value, blank, rfl, cut⟩
    exact ⟨_, rfl, rest, dropWhile_spaces blank rest, _, cut, rfl⟩

theorem declarationOf_local (named : IsName name) : (declarationOf name).Local where
  blind _ _ _ := rfl
  covers found := by
    obtain ⟨spaces, rest, value, _, rfl, cut⟩ := declarationOf_eq_some.mp found
    obtain ⟨word, rfl, _⟩ := named
    rw [Text.cutLineLast?_eq_append cut]
    exact ⟨'@', word ++ (spaces ++ ':' :: (value ++ [';'])), by simp⟩

theorem declarationOf_inLine (named : IsName name) : (declarationOf name).InLine := by
  intro before line rest single
  simp only [declarationOf, Option.bind_eq_bind, Text.after?_line named.single]
  cases start : Text.after? name line with
  | none => rfl
  | some text =>
    simp only [Option.map_some, Option.bind_some,
      Text.dropWhile_line (p := (· = ' ')) (by decide),
      Text.after?_line (show '\n' ∉ (":" : Text) by decide)]
    cases colon : Text.after? ":" (text.dropWhile (· = ' ')) with
    | none => rfl
    | some value =>
      have still : '\n' ∉ value := by
        intro member
        have inside : '\n' ∈ text.dropWhile (· = ' ') := by
          rw [Text.after?_eq_some.mp colon]
          exact List.mem_append_right _ member
        rw [Text.after?_eq_some.mp start] at single
        exact single (List.mem_append_right _ ((List.dropWhile_suffix _).subset inside))
      simp only [Option.map_some, Option.bind_some, Text.cutLineLast?_of_line still,
        Text.cutLineLast?_last still]
      cases Text.cutLast? ';' value <;> rfl

/-- On a line a declaration is removed if a semicolon follows its colon. -/
theorem declarationOf_isSome {line : Text} {before : Option Char} (single : '\n' ∉ line) :
    (declarationOf name before line).isSome = true ↔ ∃ spaces rest,
      (∀ c ∈ spaces, c = ' ') ∧ line = name ++ (spaces ++ ':' :: rest) ∧ ';' ∈ rest := by
  rw [Option.isSome_iff_exists]
  constructor
  · rintro ⟨⟨_, left⟩, found⟩
    obtain ⟨spaces, rest, value, blank, whole, cut⟩ := declarationOf_eq_some.mp found
    refine ⟨spaces, rest, blank, whole, ?_⟩
    rw [Text.cutLineLast?_eq_append cut]
    simp
  · rintro ⟨spaces, rest, blank, rfl, stop⟩
    have still : '\n' ∉ rest := fun member => single (by simp [member])
    cases cut : Text.cutLast? ';' rest with
    | none => exact absurd stop (Text.cutLast?_eq_none.mp cut)
    | some parts =>
      obtain ⟨value, left⟩ := parts
      refine ⟨((), left), declarationOf_eq_some.mpr ⟨spaces, rest, value, blank, rfl, ?_⟩⟩
      rw [Text.cutLineLast?_last still, cut]

/-- What is left behind a removed declaration on its line holds no semicolon. -/
theorem declarationOf_clean {line left : Text} {before : Option Char} (single : '\n' ∉ line)
    (found : declarationOf name before line = some ((), left)) : ';' ∉ left := by
  obtain ⟨spaces, rest, value, _, rfl, cut⟩ := declarationOf_eq_some.mp found
  have still : '\n' ∉ rest := fun member => single (by simp [member])
  rw [Text.cutLineLast?_last still] at cut
  exact Text.cutLast?_clean cut

theorem declarationOf_unstopped {line : Text} {before : Option Char} (single : '\n' ∉ line)
    (clean : ';' ∉ line) : declarationOf name before line = none := by
  rw [← Option.not_isSome_iff_eq_none, declarationOf_isSome single]
  rintro ⟨spaces, rest, _, rfl, stop⟩
  exact clean (by simp [stop])

/-- A line and what the removal takes out of it: the first declaration that it finds, and with it
all that follows to the last semicolon. -/
structure Shortens (name line front used left : Text) : Prop where
  whole : line = front ++ (used ++ left)
  erased : Text.erase (declarationOf name) line = front ++ left
  found : (declarationOf name none (used ++ left)).isSome = true
  clean : ';' ∉ left
  first : ∀ start between, front = start ++ between → between ≠ [] →
    declarationOf name none (between ++ (used ++ left)) = none

theorem Shortens.cons {line front used left : Text} (is : (declarationOf name).Local) {c : Char}
    (missed : declarationOf name none (c :: line) = none)
    (shortens : Shortens name line front used left) :
    Shortens name (c :: line) (c :: front) used left where
  whole := congrArg (c :: ·) shortens.whole
  erased := by rw [Text.erase_char is missed, shortens.erased, List.cons_append]
  found := shortens.found
  clean := shortens.clean
  first start between split filled := by
    cases start with
    | nil =>
      rw [shortens.whole, ← List.cons_append, split] at missed
      exact missed
    | cons d start => exact shortens.first start between (List.cons.inj split).2 filled

theorem erase_declaration (named : IsName name) {line : Text} (single : '\n' ∉ line) :
    (∀ here, here <:+ line → declarationOf name none here = none) ∨
      ∃ front used left, Shortens name line front used left := by
  have is := declarationOf_local named
  induction line using Text.search_induction is with
  | nil => exact .inl fun here suffix => by rw [List.suffix_nil.mp suffix, is.nil]
  | char c rest missed ih =>
    rcases ih (List.not_mem_of_not_mem_cons single) with idle | ⟨front, used, left, shortens⟩
    · refine .inl fun here suffix => ?_
      rcases List.suffix_cons_iff.mp suffix with rfl | inside
      · exact missed
      · exact idle here inside
    · exact .inr ⟨c :: front, used, left, shortens.cons is missed⟩
  | found here value left found _ =>
    obtain ⟨c, used, rfl⟩ := is.covers found
    have clean := declarationOf_clean single found
    have idle : Text.erase (declarationOf name) left = left := by
      refine Text.erase_idle is fun here suffix => declarationOf_unstopped ?_ ?_
      · exact fun member => single (List.mem_append_right _ (suffix.subset member))
      · exact fun member => clean (suffix.subset member)
    refine .inr ⟨[], c :: used, left, rfl, ?_, ?_, clean, ?_⟩
    · rw [Text.erase_match is found, idle, List.nil_append]
    · rw [found, Option.isSome_some]
    · intro start between split filled
      exact absurd (List.append_eq_nil_iff.mp split.symm).2 filled

/-- A heading behind which a declaration is removed as a whole and nothing else with it: it is set
off from what precedes it and spelled as the removal expects, with a semicolon on the line, and the
declaration ends before a heading of another name begins. -/
structure Removable (names : List Text) (name front here : Text) : Prop where
  setOff : isSetOff front = true
  plain : (declarationOf name none here).isSome = true
  ends : ∀ between next, here = between ++ next → between ≠ [] →
    ∀ other ∈ names, opens other next = true → ';' ∈ between

/-- A line on which every declaration of one of the names can be removed. -/
def TidyLine (names : List Text) (line : Text) : Prop := ∀ front here, line = front ++ here →
  ∀ name ∈ names, opens name here = true → Removable names name front here

/-- What holds wherever a text is divided is decided by looking at each of its places. -/
instance decidableDivided (text : Text) (P : Text → Text → Prop)
    [∀ front rest, Decidable (P front rest)] :
    Decidable (∀ front rest, text = front ++ rest → P front rest) :=
  decidable_of_iff (∀ i < text.length + 1, P (text.take i) (text.drop i)) <| by
    constructor
    · rintro holds front rest rfl
      have place := holds front.length (by rw [List.length_append]; omega)
      rwa [List.take_left, List.drop_left] at place
    · exact fun holds i _ => holds _ _ (List.take_append_drop i text).symm

instance (names : List Text) (name front here : Text) :
    Decidable (Removable names name front here) :=
  decidable_of_iff (_ ∧ _ ∧ _) ⟨fun ⟨setOff, plain, ends⟩ => ⟨setOff, plain, ends⟩,
    fun can => ⟨can.setOff, can.plain, can.ends⟩⟩

instance (names : List Text) (line : Text) : Decidable (TidyLine names line) :=
  decidableDivided line _

/-- Every line is tidy. -/
def Tidy (names : List Text) (text : Text) : Prop := ∀ line ∈ Text.lines text, TidyLine names line

instance (names : List Text) (text : Text) : Decidable (Tidy names text) :=
  inferInstanceAs (Decidable (∀ line ∈ Text.lines text, TidyLine names line))

/-- The declarations of the names removed from a text, those of the last name first. -/
def withoutDeclarations (names : List Text) (text : Text) : Text :=
  names.foldr (fun name text => Text.erase (declarationOf name) text ++ "\n") text

theorem withoutDeclarations_cons (name : Text) (names : List Text) (text : Text) :
    withoutDeclarations (name :: names) text =
      Text.erase (declarationOf name) (withoutDeclarations names text) ++ "\n" := rfl

/-- The text declares nothing under the name. -/
def Free (name text : Text) : Prop := ∀ here, here <:+ text → opens name here = false

variable {names : List Text}

theorem declarationOf_opens (named : IsName name) {before : Option Char} {here : Text}
    (found : (declarationOf name before here).isSome = true) : opens name here = true := by
  obtain ⟨⟨_, left⟩, found⟩ := Option.isSome_iff_exists.mp found
  obtain ⟨spaces, rest, _, blank, rfl, _⟩ := declarationOf_eq_some.mp found
  exact opens_iff.mpr ⟨_, rest, heading_plain named blank, by simp⟩

/-- A declaration that ends within a text is also removed if the text goes on in another way. -/
theorem declarationOf_swap (named : IsName name) {between rest other : Text}
    (single : '\n' ∉ between ++ rest) (still : '\n' ∉ between ++ other) (stop : ';' ∈ between)
    (found : (declarationOf name none (between ++ rest)).isSome = true) :
    (declarationOf name none (between ++ other)).isSome = true := by
  obtain ⟨spaces, value, blank, whole, _⟩ := (declarationOf_isSome single).mp found
  have clean : ';' ∉ name ++ (spaces ++ [':']) := by
    simpa using (heading_plain named blank).notMem (c := ';') (by decide)
  have split : between ++ rest = name ++ (spaces ++ [':']) ++ value := by simp [whole]
  rcases List.append_eq_append_iff.mp split with ⟨more, inside, _⟩ | ⟨more, rfl, _⟩
  · exact absurd (inside ▸ List.mem_append_left more stop) clean
  · refine (declarationOf_isSome still).mpr ⟨spaces, more ++ other, blank, by simp, ?_⟩
    exact List.mem_append_left other ((List.mem_append.mp stop).resolve_left clean)

section Shortened

variable {line front used left : Text} (named : ∀ name ∈ names, IsName name)
  (tidy : TidyLine names line) (single : '\n' ∉ line) (listed : name ∈ names)
  (shortens : Shortens name line front used left)

include named tidy single listed shortens

/-- A heading of the shortened line stands in front of the removed declaration, and a semicolon
follows it there. -/
theorem TidyLine.opens_left {start here other : Text} (split : front ++ left = start ++ here)
    (known : other ∈ names) (begins : opens other here = true) : ∃ between, between ≠ [] ∧
      front = start ++ between ∧ here = between ++ left ∧ opens other between = true ∧
        ';' ∈ between := by
  have opened := declarationOf_opens (named name listed) shortens.found
  have behind : ∀ more, left ≠ more ++ here := by
    intro more same
    have whole : line = front ++ used ++ more ++ here := by simp [shortens.whole, same]
    have removed := (tidy _ _ whole other known begins).plain
    have unstopped : declarationOf other none here = none := by
      refine declarationOf_unstopped ?_ ?_
      · exact fun member => single (whole ▸ List.mem_append_right _ member)
      · exact fun member => shortens.clean (same ▸ List.mem_append_right _ member)
    exact absurd removed (by simp [unstopped])
  rcases List.append_eq_append_iff.mp split with ⟨more, _, within⟩ | ⟨between, ahead, rfl⟩
  · exact absurd within (behind more)
  · have filled : between ≠ [] := by
      rintro rfl
      exact behind [] rfl
    have apart := (tidy _ _ shortens.whole name listed opened).setOff
    have ends := opens_of_append filled (ahead ▸ apart) begins
    have whole : line = start ++ (between ++ (used ++ left)) := by simp [shortens.whole, ahead]
    have can := tidy start _ whole other known (opens_append ends _)
    exact ⟨between, filled, ahead, rfl, ends, can.ends between _ rfl filled name listed opened⟩

theorem TidyLine.shortened : TidyLine names (front ++ left) := by
  intro start here split other known begins
  obtain ⟨between, _, ahead, rfl, ends, stop⟩ :=
    tidy.opens_left named single listed shortens split known begins
  have whole : line = start ++ (between ++ (used ++ left)) := by simp [shortens.whole, ahead]
  have can := tidy start _ whole other known (opens_append ends _)
  refine ⟨can.setOff, ?_, fun upto next same filled second bound opened => ?_⟩
  · have inner : between ++ (used ++ left) <:+ line := ⟨start, whole.symm⟩
    have shorter : (between ++ left).Sublist (between ++ (used ++ left)) :=
      (List.sublist_append_right used left).append_left between
    refine declarationOf_swap (named other known) ?_ ?_ stop can.plain
    · exact fun member => single (inner.subset member)
    · exact fun member => single (inner.subset (shorter.subset member))
  · -- The next heading stands in front of the removed declaration as well.
    have later : front ++ left = start ++ upto ++ next := by rw [split, same, List.append_assoc]
    obtain ⟨more, _, beyond, rfl, follows, _⟩ :=
      tidy.opens_left named single listed shortens later bound opened
    obtain rfl : between = upto ++ more := by
      rwa [ahead, List.append_assoc, List.append_cancel_left_eq] at beyond
    exact can.ends upto (more ++ (used ++ left)) (by simp) filled second bound
      (opens_append follows _)

theorem TidyLine.opens_before {start here other : Text} (split : front ++ left = start ++ here)
    (known : other ∈ names) (begins : opens other here = true) : ∃ between, between ≠ [] ∧
      front = start ++ between ∧ line = start ++ (between ++ (used ++ left)) ∧
        opens other (between ++ (used ++ left)) = true := by
  obtain ⟨between, filled, ahead, _, ends, _⟩ :=
    tidy.opens_left named single listed shortens split known begins
  refine ⟨between, filled, ahead, ?_, opens_append ends _⟩
  rw [shortens.whole, ahead, List.append_assoc]

theorem TidyLine.shortened_free : Free name (front ++ left) := by
  rintro here ⟨start, split⟩
  rw [← Bool.not_eq_true]
  intro begins
  obtain ⟨between, filled, ahead, whole, opened⟩ :=
    tidy.opens_before named single listed shortens split.symm listed begins
  have can := tidy start _ whole name listed opened
  exact absurd can.plain (by simp [shortens.first start between ahead filled])

theorem TidyLine.shortened_stays {other : Text} (known : other ∈ names) (free : Free other line) :
    Free other (front ++ left) := by
  rintro here ⟨start, split⟩
  rw [← Bool.not_eq_true]
  intro begins
  obtain ⟨between, _, _, whole, opened⟩ :=
    tidy.opens_before named single listed shortens split.symm known begins
  exact absurd opened (by simp [free _ ⟨start, whole.symm⟩])

end Shortened

theorem free_nil (name : Text) : Free name [] := by
  intro here suffix
  rw [List.suffix_nil.mp suffix]
  rfl

theorem tidyLine_nil (names : List Text) : TidyLine names [] := by
  intro front here whole name _ begins
  have empty := free_nil name here ⟨front, whole.symm⟩
  exact absurd begins (by simp [empty])

theorem free_of_lines {text : Text} (free : ∀ line ∈ Text.lines text, Free name line) :
    Free name text := by
  induction text using Text.lines_induction with
  | last line single => exact free line (by simp [Text.lines_line single])
  | feed line rest single ih =>
    rw [Text.lines_append single] at free
    obtain ⟨first, later⟩ := List.forall_mem_cons.mp free
    rintro here ⟨start, split⟩
    rcases List.append_eq_append_iff.mp split with ⟨between, rfl, rfl⟩ | ⟨between, rfl, behind⟩
    · rw [← Bool.not_eq_true]
      intro begins
      exact absurd (opens_line begins) (by simp [first between (List.suffix_append start between)])
    · cases between with
      | nil =>
        rw [List.nil_append] at behind
        exact behind ▸ rfl
      | cons c between => exact ih later here ⟨between, (List.cons.inj behind).2.symm⟩

section Lines

variable (named : ∀ name ∈ names, IsName name)

include named

/-- Where a removal has gone over a tidy line, the line is tidy, the removed name is free on it, and
so are the names that were free before. -/
theorem TidyLine.erase {line : Text} (tidy : TidyLine names line) (single : '\n' ∉ line)
    (listed : name ∈ names) :
    TidyLine names (Text.erase (declarationOf name) line) ∧
      Free name (Text.erase (declarationOf name) line) ∧
      ∀ other ∈ names, Free other line → Free other (Text.erase (declarationOf name) line) := by
  rcases erase_declaration (named name listed) single with idle | ⟨front, used, left, shortens⟩
  · rw [Text.erase_idle (declarationOf_local (named name listed)) idle]
    refine ⟨tidy, fun here suffix => ?_, fun other known free => free⟩
    rw [← Bool.not_eq_true]
    intro begins
    obtain ⟨front, whole⟩ := id suffix
    have can := tidy front here whole.symm name listed begins
    exact absurd can.plain (by simp [idle here suffix])
  · rw [shortens.erased]
    exact ⟨tidy.shortened named single listed shortens,
      tidy.shortened_free named single listed shortens,
      fun other => tidy.shortened_stays named single listed shortens⟩

theorem lines_withoutDeclarations (text : Text) (done : List Text) (listed : name ∈ names) :
    Text.lines (withoutDeclarations (name :: done) text) =
      (Text.lines (withoutDeclarations done text)).map (Text.erase (declarationOf name)) ++ [[]] := by
  have last : Text.lines (withoutDeclarations (name :: done) text) =
      Text.lines (Text.erase (declarationOf name) (withoutDeclarations done text)) ++ [[]] :=
    splitOn_append '\n' _ []
  rw [last, Text.lines_erase (declarationOf_local (named name listed))
    (declarationOf_inLine (named name listed))]

/-- No removal disturbs another: when all are made, every name is free on every line. -/
theorem withoutDeclarations_tidy {text : Text} (tidy : Tidy names text) {done : List Text}
    (part : done ⊆ names) : Tidy names (withoutDeclarations done text) ∧
      ∀ name ∈ done, ∀ line ∈ Text.lines (withoutDeclarations done text), Free name line := by
  induction done with
  | nil => exact ⟨tidy, List.forall_mem_nil _⟩
  | cons name done ih =>
    obtain ⟨listed, later⟩ := List.cons_subset.mp part
    obtain ⟨still, free⟩ := ih later
    have lines := lines_withoutDeclarations named text done listed
    constructor
    · intro line member
      rw [lines] at member
      rcases List.mem_append.mp member with shorter | last
      · obtain ⟨longer, known, rfl⟩ := List.mem_map.mp shorter
        exact ((still longer known).erase named (notMem_of_mem_splitOn known) listed).1
      · rw [List.mem_singleton.mp last]
        exact tidyLine_nil names
    · intro other known line member
      rw [lines] at member
      rcases List.mem_append.mp member with shorter | last
      · obtain ⟨longer, here, rfl⟩ := List.mem_map.mp shorter
        have erased := (still longer here).erase named (notMem_of_mem_splitOn here) listed
        rcases List.mem_cons.mp known with rfl | earlier
        · exact erased.2.1
        · exact erased.2.2 other (later earlier) (free other earlier longer here)
      · rw [List.mem_singleton.mp last]
        exact free_nil other

theorem extract_withoutDeclarations {text : Text} (tidy : Tidy names text) {v : Variable}
    (member : v ∈ extract (withoutDeclarations names text)) : v.name ∉ names := by
  intro listed
  obtain ⟨here, left, suffix, found⟩ := Text.suffix_of_mem_findAll declared_local member
  obtain ⟨head, value, heading, _, whole, _⟩ := declared_eq_some.mp found
  have free := free_of_lines
    ((withoutDeclarations_tidy named tidy (List.Subset.refl names)).2 v.name listed)
  exact absurd (opens_iff.mpr ⟨head, _, heading, whole⟩) (by simp [free here suffix])

end Lines

end Substitution
end ColorTheme
