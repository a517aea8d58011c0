import ColorTheme.Color
import ColorTheme.Proofs.Text.Case
import ColorTheme.Proofs.Text.Run

/-!
The numeric notation of colors as a grammar. The scanner never goes back: a digit, a unit and a
separator cannot be taken for one another, and blanks that it takes from the gap before the last
component are not missed there. So it accepts just what the grammar describes. -/
namespace ColorTheme.Notation

open Text

structure IsRun (holds : Char → Bool) (run : Text) : Prop where
  filled : run ≠ []
  inner : ∀ c ∈ run, holds c = true

def Spells (words : List Text) (text : Text) : Prop := text.map fold ∈ words

def colorSpaces : List Text := ["rgb", "hsl", "hsv"]
def angleUnits : List Text := ["deg", "rad", "grad", "turn"]

def isFigure (c : Char) : Bool := isDecimal c || c = '.'

inductive IsComponent : Text → Prop
  | intro {digits percent unit gap : Text} (number : IsRun isDecimal digits)
      (rated : percent = [] ∨ percent = ['%']) (measured : unit = [] ∨ Spells angleUnits unit)
      (parted : IsRun isSeparator gap) : IsComponent (digits ++ (percent ++ (unit ++ gap)))

inductive IsLast : Text → Prop
  | intro {gap figures percent : Text} (slashed : ∀ c ∈ gap, isBlank c = true ∨ c = '/')
      (number : IsRun isFigure figures) (rated : percent = [] ∨ percent = ['%']) :
      IsLast (gap ++ (figures ++ (percent ++ [')'])))

/-- The name of a color space, an optional `a`, and in brackets two or three components and a last
one. -/
inductive IsNumeric : Text → Prop
  | intro {space alpha last : Text} {components : List Text} (named : Spells colorSpaces space)
      (opacity : alpha = [] ∨ Spells ["a"] alpha)
      (count : components.length = 2 ∨ components.length = 3)
      (each : ∀ component ∈ components, IsComponent component) (ends : IsLast last) :
      IsNumeric (space ++ (alpha ++ '(' :: (components.flatten ++ last)))

theorem keyword?_eq_some {word text rest : Text} (small : ∀ a ∈ word, IsSmall a) :
    keyword? word text = some rest ↔ ∃ used, used.map fold = word ∧ text = used ++ rest := by
  induction word generalizing text with
  | nil => simp [keyword?, eq_comm]
  | cons a word ih =>
    obtain ⟨first, small⟩ := List.forall_mem_cons.mp small
    cases text with
    | nil =>
      simp only [keyword?, reduceCtorEq, false_iff]
      rintro ⟨used, spelled, whole⟩
      obtain ⟨rfl, _⟩ := List.append_eq_nil_iff.mp whole.symm
      contradiction
    | cons c text =>
      simp only [keyword?, List.contains_iff_mem, mem_caseVariants first]
      constructor
      · intro found
        split at found
        · rename_i same
          obtain ⟨used, spelled, rfl⟩ := (ih small).mp found
          exact ⟨c :: used, by rw [List.map_cons, same, spelled], rfl⟩
        · contradiction
      · rintro ⟨used, spelled, whole⟩
        obtain ⟨d, used, rfl⟩ := List.exists_cons_of_ne_nil
          (show used ≠ [] by rintro rfl; contradiction)
        obtain ⟨same, spells⟩ := List.cons.inj spelled
        obtain ⟨rfl, rfl⟩ := List.cons.inj whole
        rw [if_pos same]
        exact (ih small).mpr ⟨used, spells, rfl⟩

/-- Of words none of which begins another at most one stands at the beginning of a text. -/
theorem findSome?_keyword {words : List Text} (small : ∀ word ∈ words, ∀ a ∈ word, IsSmall a)
    (apart : ∀ v ∈ words, ∀ w ∈ words, v <+: w → v = w) {text rest : Text} :
    words.findSome? (keyword? · text) = some rest ↔
      ∃ used, Spells words used ∧ text = used ++ rest := by
  have sound : ∀ {rest}, words.findSome? (keyword? · text) = some rest →
      ∃ used, Spells words used ∧ text = used ++ rest := by
    intro rest found
    obtain ⟨word, listed, found⟩ := List.exists_of_findSome?_eq_some found
    obtain ⟨used, spelled, whole⟩ := (keyword?_eq_some (small word listed)).mp found
    exact ⟨used, by rw [Spells, spelled]; exact listed, whole⟩
  refine ⟨sound, ?_⟩
  rintro ⟨used, spelled, whole⟩
  cases known : words.findSome? (keyword? · text) with
  | none =>
    have missed := List.findSome?_eq_none_iff.mp known _ spelled
    have found := (keyword?_eq_some (small _ spelled)).mpr ⟨used, rfl, whole⟩
    exact absurd (missed.symm.trans found) nofun
  | some other =>
    obtain ⟨front, also, split⟩ := sound known
    -- Both words begin the same text, so the shorter one begins the longer one.
    have same : used.map fold = front.map fold := by
      rcases List.prefix_or_prefix_of_prefix ⟨rest, whole.symm⟩ ⟨other, split.symm⟩ with
        short | short
      · exact apart _ spelled _ also (short.map fold)
      · exact (apart _ also _ spelled (short.map fold)).symm
    have length : used.length = front.length := by simpa using congrArg List.length same
    rw [(List.append_inj (whole.symm.trans split) length).2]

theorem small_of_all {words : List Text}
    (all : (words.all fun word => word.all fun a => decide (IsSmall a)) = true) :
    ∀ word ∈ words, ∀ a ∈ word, IsSmall a := by
  intro word listed a member
  have inner := List.all_eq_true.mp all word listed
  exact of_decide_eq_true (List.all_eq_true.mp inner a member)

theorem angleUnits_small : ∀ word ∈ angleUnits, ∀ a ∈ word, IsSmall a := small_of_all (by decide)

theorem colorSpaces_small : ∀ word ∈ colorSpaces, ∀ a ∈ word, IsSmall a := small_of_all (by decide)

theorem IsRun.takeWhile {holds : Char → Bool} {text : Text} (starts : text.head?.any holds = true) :
    IsRun holds (text.takeWhile holds) where
  filled := by
    cases text with
    | nil => contradiction
    | cons c rest =>
      have first : holds c = true := starts
      simp [first]
  inner := List.all_eq_true.mp List.all_takeWhile

theorem IsRun.head {holds : Char → Bool} {run : Text} (is : IsRun holds run) (rest : Text) :
    ∃ c more, run ++ rest = c :: more ∧ holds c = true := by
  obtain ⟨c, more, rfl⟩ := List.exists_cons_of_ne_nil is.filled
  exact ⟨c, more ++ rest, rfl, is.inner c List.mem_cons_self⟩

theorem isSeparator_plain {c : Char} (parts : isSeparator c = true) :
    isDecimal c = false ∧ c ≠ '%' ∧ ¬ IsSmall (fold c) := by
  simp only [isSeparator, Bool.or_eq_true, decide_eq_true_eq] at parts
  rcases parts with rfl | blank
  · decide
  · refine ⟨not_isDecimal_of_isBlank blank, ?_, ?_⟩
    · rintro rfl
      contradiction
    · intro small
      exact Bool.false_ne_true ((letter_of_fold small).2.1.symm.trans blank)

theorem exists_percent (text : Text) :
    ∃ percent, (percent = [] ∨ percent = ['%']) ∧ text = percent ++ afterPercent text := by
  unfold afterPercent
  split
  · exact ⟨['%'], .inr rfl, rfl⟩
  · exact ⟨[], .inl rfl, rfl⟩

theorem afterPercent_append {percent rest : Text} (rated : percent = [] ∨ percent = ['%'])
    (other : rest.head? ≠ some '%') : afterPercent (percent ++ rest) = rest := by
  rcases rated with rfl | rfl
  · rw [List.nil_append, afterPercent]
    rintro text rfl
    exact other rfl
  · rfl

theorem exists_unit (text : Text) :
    ∃ unit, (unit = [] ∨ Spells angleUnits unit) ∧ text = unit ++ afterUnit text := by
  unfold afterUnit
  cases known : [("deg" : Text), "rad", "grad", "turn"].findSome? (keyword? · text) with
  | none => exact ⟨[], .inl rfl, rfl⟩
  | some rest =>
    obtain ⟨unit, spelled, whole⟩ := (findSome?_keyword angleUnits_small (by decide)).mp known
    exact ⟨unit, .inr spelled, whole⟩

theorem Spells.head {words : List Text} (small : ∀ word ∈ words, ∀ a ∈ word, IsSmall a)
    (filled : [] ∉ words) {used : Text} (spelled : Spells words used) (rest : Text) :
    ∃ c more, used ++ rest = c :: more ∧ IsSmall (fold c) := by
  cases used with
  | nil => exact absurd spelled filled
  | cons c used => exact ⟨c, used ++ rest, rfl, small _ spelled _ List.mem_cons_self⟩

theorem afterUnit_append {unit rest : Text} (measured : unit = [] ∨ Spells angleUnits unit)
    (parted : rest.head?.any isSeparator = true) : afterUnit (unit ++ rest) = rest := by
  have read : afterUnit (unit ++ rest) =
      (angleUnits.findSome? (keyword? · (unit ++ rest))).getD (unit ++ rest) := rfl
  rw [read]
  rcases measured with rfl | spelled
  · have unmeasured : angleUnits.findSome? (keyword? · rest) = none := by
      rw [Option.eq_none_iff_forall_ne_some]
      intro other found
      obtain ⟨used, spelled, whole⟩ := (findSome?_keyword angleUnits_small (by decide)).mp found
      obtain ⟨c, more, split, small⟩ := spelled.head angleUnits_small (by decide) other
      rw [whole, split] at parted
      exact (isSeparator_plain parted).2.2 small
    rw [List.nil_append, unmeasured]
    rfl
  · rw [(findSome?_keyword angleUnits_small (by decide)).mpr ⟨unit, spelled, rfl⟩]
    rfl

theorem measure_head {unit gap rest : Text} (measured : unit = [] ∨ Spells angleUnits unit)
    (parted : IsRun isSeparator gap) : ∃ c more, unit ++ (gap ++ rest) = c :: more ∧
      isDecimal c = false ∧ c ≠ '%' := by
  rcases measured with rfl | spelled
  · obtain ⟨c, more, whole, parts⟩ := parted.head rest
    exact ⟨c, more, whole, (isSeparator_plain parts).1, (isSeparator_plain parts).2.1⟩
  · obtain ⟨c, more, whole, small⟩ := spelled.head angleUnits_small (by decide) (gap ++ rest)
    obtain ⟨digit, _, marks⟩ := letter_of_fold small
    exact ⟨c, more, whole, digit, fun same => marks (by simp [same])⟩

theorem exists_component {text rest : Text} (found : afterComponent? text = some rest) :
    ∃ component, IsComponent component ∧ text = component ++ rest := by
  unfold afterComponent? at found
  split at found
  · rename_i digit
    simp only at found
    split at found
    · rename_i parted
      obtain ⟨percent, rated, second⟩ := exists_percent (text.dropWhile isDecimal)
      obtain ⟨unit, measured, third⟩ := exists_unit (afterPercent (text.dropWhile isDecimal))
      have is := IsComponent.intro (.takeWhile digit) rated measured (.takeWhile parted)
      refine ⟨_, is, ?_⟩
      calc text
        _ = text.takeWhile isDecimal ++ text.dropWhile isDecimal :=
          List.takeWhile_append_dropWhile.symm
        _ = text.takeWhile isDecimal ++ (percent ++ (unit ++
            afterUnit (afterPercent (text.dropWhile isDecimal)))) := by rw [← third, ← second]
        _ = _ := by
          rw [← Option.some.inj found]
          simp only [List.append_assoc, List.takeWhile_append_dropWhile]
    · contradiction
  · contradiction

theorem afterComponent?_append {component : Text} (is : IsComponent component) (rest : Text) :
    afterComponent? (component ++ rest) = some (rest.dropWhile isSeparator) := by
  obtain ⟨number, rated, measured, parted⟩ := is
  rename_i digits percent unit gap
  obtain ⟨d, digits', starts, digit⟩ := number.head (percent ++ (unit ++ (gap ++ rest)))
  have followed : ∃ c more, unit ++ (gap ++ rest) = c :: more ∧ isDecimal c = false ∧ c ≠ '%' :=
    measure_head measured parted
  obtain ⟨c, more, behind, other, mark⟩ := followed
  obtain ⟨s, seps, gapped, parts⟩ := parted.head rest
  -- Each part stops where the next one begins, whichever of the optional ones are there.
  have closed : (percent ++ (unit ++ (gap ++ rest))).head?.any isDecimal = false := by
    rcases rated with rfl | rfl
    · simp [behind, other]
    · simp only [List.cons_append, List.head?_cons, Option.any_some]
      decide
  have numbered := (run_append number.inner closed).2
  have percented : afterPercent (percent ++ (unit ++ (gap ++ rest))) = unit ++ (gap ++ rest) := by
    apply afterPercent_append rated
    simp [behind, mark]
  have spaced : (gap ++ rest).head?.any isSeparator = true := by simp [gapped, parts]
  have united : afterUnit (unit ++ (gap ++ rest)) = gap ++ rest := afterUnit_append measured spaced
  simp only [List.append_assoc, afterComponent?, numbered, percented, united, spaced, if_true]
  rw [starts, if_pos (by simpa using digit), List.dropWhile_append_of_pos parted.inner]

theorem isFigure_plain {c : Char} (figure : isFigure c = true) :
    isBlank c = false ∧ c ≠ '/' ∧ isSeparator c = false := by
  simp only [isFigure, Bool.or_eq_true, decide_eq_true_eq] at figure
  rcases figure with digit | rfl
  · have solid : isBlank c = false := by
      rw [← Bool.not_eq_true]
      exact fun blank => Bool.false_ne_true ((not_isDecimal_of_isBlank blank).symm.trans digit)
    have apart : ∀ {d}, isDecimal d = false → c ≠ d := by
      rintro d other rfl
      exact Bool.false_ne_true (other.symm.trans digit)
    exact ⟨solid, apart (by decide), by simp [isSeparator, solid, apart (d := ',') (by decide)]⟩
  · decide

theorem isLast_iff {text : Text} : isLast text = true ↔ IsLast text := by
  let slash (c : Char) : Bool := isBlank c || c = '/'
  have read : isLast text = ((text.dropWhile slash).head?.any isFigure &&
      decide (afterPercent ((text.dropWhile slash).dropWhile isFigure) = [')'])) := rfl
  have slashes : ∀ c, slash c = true ↔ isBlank c = true ∨ c = '/' := by simp [slash]
  rw [read, Bool.and_eq_true, decide_eq_true_eq]
  constructor
  · rintro ⟨figure, closed⟩
    obtain ⟨percent, rated, whole⟩ := exists_percent ((text.dropWhile slash).dropWhile isFigure)
    have gap : ∀ c ∈ text.takeWhile slash, isBlank c = true ∨ c = '/' := fun c member =>
      (slashes c).mp (List.all_eq_true.mp List.all_takeWhile c member)
    have is := IsLast.intro gap (.takeWhile figure) rated
    rw [← closed, ← whole, List.takeWhile_append_dropWhile, List.takeWhile_append_dropWhile] at is
    exact is
  · rintro ⟨slashed, number, rated⟩
    rename_i gap figures percent
    obtain ⟨c, more, starts, figure⟩ := number.head (percent ++ [')'])
    obtain ⟨solid, plain, _⟩ := isFigure_plain figure
    have opened : (figures ++ (percent ++ [')'])).head?.any slash = false := by
      simp [starts, slash, solid, plain]
    have closed : (percent ++ [')']).head?.any isFigure = false := by
      rcases rated with rfl | rfl <;> decide
    have inner := fun c member => (slashes c).mpr (slashed c member)
    rw [(run_append inner opened).2, (run_append number.inner closed).2]
    refine ⟨by simp [starts, figure], afterPercent_append rated ?_⟩
    decide

/-- Separators in front of the last component are part of its gap. -/
theorem IsLast.dropWhile {text : Text} (is : IsLast text) : IsLast (text.dropWhile isSeparator) := by
  obtain ⟨slashed, number, rated⟩ := is
  rename_i gap figures percent
  obtain ⟨c, more, starts, figure⟩ := number.head (percent ++ [')'])
  have kept : (figures ++ (percent ++ [')'])).dropWhile isSeparator =
      figures ++ (percent ++ [')']) := by
    rw [starts, List.dropWhile_cons_of_neg (by simp [(isFigure_plain figure).2.2])]
  have split : (gap ++ (figures ++ (percent ++ [')']))).dropWhile isSeparator =
      gap.dropWhile isSeparator ++ (figures ++ (percent ++ [')'])) := by
    rw [List.dropWhile_append]
    split
    · rename_i empty
      rw [kept, List.isEmpty_iff.mp empty, List.nil_append]
    · rfl
  rw [split]
  apply IsLast.intro _ number rated
  exact fun c member => slashed c ((List.dropWhile_suffix isSeparator).subset member)

theorem IsComponent.dropWhile {component : Text} (is : IsComponent component) (rest : Text) :
    (component ++ rest).dropWhile isSeparator = component ++ rest := by
  obtain ⟨number, rated, measured, parted⟩ := is
  rename_i digits percent unit gap
  obtain ⟨c, more, starts, digit⟩ := number.head (percent ++ (unit ++ gap) ++ rest)
  have figure : isFigure c = true := by simp [isFigure, digit]
  rw [List.append_assoc, starts,
    List.dropWhile_cons_of_neg (by simp [(isFigure_plain figure).2.2])]

theorem afterSpace?_eq_some {text rest : Text} : afterSpace? text = some rest ↔
    ∃ space alpha, Spells colorSpaces space ∧ (alpha = [] ∨ Spells ["a"] alpha) ∧
      text = space ++ (alpha ++ '(' :: rest) := by
  have small : ∀ a ∈ ("a" : Text), IsSmall a :=
    small_of_all (by decide) "a" (List.mem_singleton_self "a".toList)
  unfold afterSpace?
  rw [Option.bind_eq_bind, Option.bind_eq_some_iff]
  constructor
  · rintro ⟨behind, found, opened⟩
    obtain ⟨space, named, rfl⟩ := (findSome?_keyword colorSpaces_small (by decide)).mp found
    cases known : keyword? "a" behind with
    | none =>
      rw [known, Option.getD_none] at opened
      exact ⟨space, [], named, .inl rfl, by rw [after?_eq_some.mp opened]; rfl⟩
    | some more =>
      rw [known, Option.getD_some] at opened
      obtain ⟨alpha, spelled, rfl⟩ := (keyword?_eq_some small).mp known
      refine ⟨space, alpha, named, .inr (by rw [Spells, spelled]; exact List.mem_singleton_self _), ?_⟩
      rw [after?_eq_some.mp opened]
      rfl
  · rintro ⟨space, alpha, named, opacity, rfl⟩
    refine ⟨_, (findSome?_keyword colorSpaces_small (by decide)).mpr ⟨space, named, rfl⟩, ?_⟩
    have stripped : (keyword? "a" (alpha ++ '(' :: rest)).getD (alpha ++ '(' :: rest) =
        '(' :: rest := by
      rcases opacity with rfl | spelled
      · have solid : keyword? "a" ('(' :: rest) = none := if_neg (by decide)
        rw [List.nil_append, solid, Option.getD_none]
      · rw [(keyword?_eq_some small).mpr ⟨alpha, List.mem_singleton.mp spelled, rfl⟩,
          Option.getD_some]
    rw [stripped]
    exact after?_eq_some.mpr rfl

/-- The scanner accepts what the grammar describes. -/
theorem isNumeric_iff {text : Text} : isNumeric text = true ↔ IsNumeric text := by
  constructor
  · intro accepted
    unfold isNumeric at accepted
    split at accepted
    · contradiction
    · rename_i behind found
      simp only [Option.bind_eq_bind, Option.bind_eq_some_iff] at found
      obtain ⟨second, ⟨first, opened, one⟩, two⟩ := found
      obtain ⟨space, alpha, named, opacity, rfl⟩ := afterSpace?_eq_some.mp opened
      obtain ⟨a, isA, rfl⟩ := exists_component one
      obtain ⟨b, isB, rfl⟩ := exists_component two
      rw [Bool.or_eq_true, Option.any_eq_true] at accepted
      rcases accepted with last | ⟨rest, three, last⟩
      · have each : ∀ component ∈ [a, b], IsComponent component := by simp [isA, isB]
        have is := IsNumeric.intro named opacity (.inl rfl) each (isLast_iff.mp last)
        simpa using is
      · obtain ⟨c, isC, rfl⟩ := exists_component three
        have each : ∀ component ∈ [a, b, c], IsComponent component := by simp [isA, isB, isC]
        have is := IsNumeric.intro named opacity (.inr rfl) each (isLast_iff.mp last)
        simpa using is
  · rintro ⟨named, opacity, count, each, ends⟩
    rename_i space alpha last components
    have opened : ∀ rest, afterSpace? (space ++ (alpha ++ '(' :: rest)) = some rest :=
      fun rest => afterSpace?_eq_some.mpr ⟨space, alpha, named, opacity, rfl⟩
    rcases count with two | three
    · obtain ⟨a, b, rfl⟩ := List.length_eq_two.mp two
      obtain ⟨isA, isB⟩ : IsComponent a ∧ IsComponent b := by simpa using each
      have one := afterComponent?_append isA (b ++ last)
      have two := afterComponent?_append isB last
      rw [isB.dropWhile] at one
      simp only [isNumeric, opened, List.flatten_cons, List.flatten_nil, List.append_nil,
        List.append_assoc, Option.bind_eq_bind, Option.bind_some, one, two,
        isLast_iff.mpr ends.dropWhile, Bool.true_or]
    · obtain ⟨a, b, c, rfl⟩ := List.length_eq_three.mp three
      obtain ⟨isA, isB, isC⟩ : IsComponent a ∧ IsComponent b ∧ IsComponent c := by simpa using each
      have one := afterComponent?_append isA (b ++ (c ++ last))
      have two := afterComponent?_append isB (c ++ last)
      have three := afterComponent?_append isC last
      rw [isB.dropWhile] at one
      rw [isC.dropWhile] at two
      simp only [isNumeric, opened, List.flatten_cons, List.flatten_nil, List.append_nil,
        List.append_assoc, Option.bind_eq_bind, Option.bind_some, one, two, three, Option.any_some,
        isLast_iff.mpr ends.dropWhile, Bool.or_true]

end ColorTheme.Notation
