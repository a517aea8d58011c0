import ColorTheme.Css.Sheet
import ColorTheme.Probe
import ColorTheme.Proofs.Css.Plain
import ColorTheme.Proofs.Exchange
import ColorTheme.Proofs.Text.Lines

/-!
Backward substitution in a sheet that was written from its rules. Each pass runs over the whole
text, but none finds anything in what is written around the values, and none reaches over the
semicolon behind a value. So it is the values that are changed, and every declaration stays. -/
namespace ColorTheme

namespace Text

section Passes

variable {α : Type}

def Matcher.Passes (m : Matcher α) (text : Text) : Prop :=
  ∀ here, here ≠ [] → here <:+ text → ∀ rest, m none (here ++ rest) = none

theorem Matcher.Passes.map {β : Type} {m : Matcher α} {text : Text} (passes : m.Passes text)
    (f : α → β) : Matcher.Passes (fun before here =>
      (m before here).map fun (value, left) => (f value, left)) text := by
  intro here filled suffix rest
  simp only [passes here filled suffix rest, Option.map_none]

theorem Matcher.Passes.replaceBy {m : Matcher Text} {text : Text} (passes : m.Passes text)
    (is : m.Local) (rest : Text) : replaceBy m (text ++ rest) = text ++ replaceBy m rest := by
  apply replaceBy_kept is
  intro here filled suffix
  exact passes here filled suffix rest

theorem passes_of_foreign {m : Matcher α} {mark : Char} {text : Text}
    (begins : ∀ c rest, c ≠ mark → m none (c :: rest) = none) (foreign : mark ∉ text) :
    m.Passes text := by
  intro here filled suffix rest
  obtain ⟨c, here, rfl⟩ := List.exists_cons_of_ne_nil filled
  apply begins
  rintro rfl
  exact foreign (suffix.subset List.mem_cons_self)

theorem literal_eq_some {needle here left : Text} (filled : needle ≠ []) {before : Option Char} :
    literal needle before here = some ((), left) ↔ here = needle ++ left := by
  simp [literal, filled, after?_eq_some]

theorem literal_local {needle : Text} (filled : needle ≠ []) : (literal needle).Local where
  blind _ _ _ := rfl
  covers found := by
    obtain ⟨c, used, rfl⟩ := List.exists_cons_of_ne_nil filled
    exact ⟨c, used, (literal_eq_some filled).mp found⟩

theorem literal_within {stop : Char} {needle : Text} (clean : stop ∉ needle) :
    (literal needle).Within stop := by
  intro before part rest _
  unfold literal
  split
  · rfl
  · rw [after?_within clean, Option.map_map, Option.map_map]
    rfl

/-- A text that lacks a character of the needle and ends with none of those in front of it. -/
theorem literal_passes {needle front more text : Text} {c last : Char}
    (spelled : needle = front ++ c :: more) (clean : c ∉ text ++ [last]) (other : last ∉ front) :
    (literal needle).Passes (text ++ [last]) := by
  intro here filled suffix rest
  rw [Option.eq_none_iff_forall_ne_some]
  rintro ⟨_, left⟩ found
  have whole := (literal_eq_some (by simp [spelled])).mp found
  rw [spelled, List.append_assoc] at whole
  obtain ⟨behind, rfl, _⟩ := split_behind whole fun member => clean (suffix.subset member)
  have ends : last ∈ here := by
    obtain ⟨start, e, rfl⟩ := List.eq_nil_or_concat here |>.resolve_left filled
    rw [List.concat_eq_append] at suffix ⊢
    obtain ⟨lead, same⟩ := suffix
    rw [← List.append_assoc] at same
    obtain ⟨_, rfl⟩ := List.append_inj' same rfl |>.imp_right fun h => (List.cons.inj h).1
    simp
  exact other (List.mem_append_left behind ends)

theorem bounded_within {stop : Char} {needle replacement : Text} {continues : Char → Bool}
    (clean : stop ∉ needle) (closed : continues stop = false) :
    (bounded needle replacement continues).Within stop := by
  intro before part rest other
  unfold bounded
  rw [literal_within clean before part rest other]
  cases known : literal needle before part with
  | none => rfl
  | some hit =>
    obtain ⟨_, left⟩ := hit
    cases left with
    | nil => simp [closed]
    | cons c left => rfl

theorem mem_replaceBy {m : Matcher Text} (is : m.Local) {c : Char} {text : Text}
    (member : c ∈ replaceBy m text) : c ∈ text ∨
      ∃ here value left, here <:+ text ∧ m none here = some (value, left) ∧ c ∈ value := by
  induction text using search_induction is with
  | nil => exact .inl member
  | char d rest missed ih =>
    rw [replaceBy_char is missed] at member
    rcases List.mem_cons.mp member with rfl | later
    · exact .inl List.mem_cons_self
    · refine (ih later).imp (List.mem_cons_of_mem d) ?_
      rintro ⟨here, value, left, suffix, found⟩
      exact ⟨here, value, left, suffix.trans (List.suffix_cons d rest), found⟩
  | found here value left found ih =>
    rw [replaceBy_match is found] at member
    rcases List.mem_append.mp member with inside | later
    · exact .inr ⟨here, value, left, List.suffix_rfl, found, inside⟩
    · obtain ⟨d, used, rfl⟩ := is.covers found
      have behind : left <:+ d :: used ++ left := List.suffix_append _ left
      refine (ih later).imp (fun h => behind.subset h) ?_
      rintro ⟨place, other, more, suffix, found⟩
      exact ⟨place, other, more, suffix.trans behind, found⟩

theorem mem_replaceBounded {mark : Char} {needle replacement text : Text}
    {continues : Char → Bool} (marked : Marked mark continues needle) {c : Char}
    (member : c ∈ replaceBounded needle replacement continues text) :
    c ∈ text ∨ c ∈ replacement := by
  rcases mem_replaceBy (bounded_local marked) member with
    old | ⟨here, value, left, suffix, found, inside⟩
  · exact .inl old
  · obtain ⟨rfl, rfl⟩ := (bounded_eq_some marked).mp found
    split at inside
    · exact .inl (suffix.subset (List.mem_append_left left inside))
    · exact .inr inside

end Passes

end Text

namespace Css

def Rule.mapValues (f : Text → Text) (r : Rule) : Rule :=
  { r with declarations := r.declarations.map fun d => { d with value := f d.value } }

theorem Rule.mapValues_id (r : Rule) : r.mapValues (fun value => value) = r := by
  simp [Rule.mapValues]

theorem Rule.mapValues_mapValues (f g : Text → Text) (r : Rule) :
    (r.mapValues f).mapValues g = r.mapValues fun value => g (f value) := by
  simp [Rule.mapValues]

/-- A pass changes the values of the rule and finds nothing around them. -/
structure Rule.Framed (m : Text.Matcher Text) (f : Text → Text) (r : Rule) : Prop where
  selector : m.Passes (r.selector ++ " \x7b\n")
  property : ∀ d ∈ r.declarations, m.Passes ("  " ++ d.property ++ ": ")
  value : ∀ d ∈ r.declarations, ∀ rest, Text.replaceBy m (d.value ++ (";\n" ++ rest)) =
    f d.value ++ (";\n" ++ Text.replaceBy m rest)

section Framed

variable {m : Text.Matcher Text} (is : m.Local) {f : Text → Text}

include is

theorem Declaration.replaceBy_render {ds : List Declaration}
    (property : ∀ d ∈ ds, m.Passes ("  " ++ d.property ++ ": "))
    (value : ∀ d ∈ ds, ∀ rest, Text.replaceBy m (d.value ++ (";\n" ++ rest)) =
      f d.value ++ (";\n" ++ Text.replaceBy m rest)) (rest : Text) :
    Text.replaceBy m (ds.flatMap Declaration.render ++ rest) =
      (ds.map fun d => { d with value := f d.value }).flatMap Declaration.render ++
        Text.replaceBy m rest := by
  induction ds with
  | nil => rfl
  | cons d ds ih =>
    obtain ⟨name, property⟩ := List.forall_mem_cons.mp property
    obtain ⟨first, value⟩ := List.forall_mem_cons.mp value
    have text : (d :: ds).flatMap Declaration.render ++ rest = ("  " ++ d.property ++ ": ") ++
        (d.value ++ (";\n" ++ (ds.flatMap Declaration.render ++ rest))) := by
      simp [Declaration.render]
    rw [text, name.replaceBy is, first, ih property value]
    simp [Declaration.render]

theorem Rule.replaceBy_render {r : Rule} (framed : r.Framed m f) (closing : m.Passes "\x7d\n")
    (rest : Text) : Text.replaceBy m (r.render ++ rest) =
      (r.mapValues f).render ++ Text.replaceBy m rest := by
  have text : r.render ++ rest = (r.selector ++ " \x7b\n") ++
      (r.declarations.flatMap Declaration.render ++ ("\x7d\n" ++ rest)) := by simp [Rule.render]
  rw [text, framed.selector.replaceBy is,
    Declaration.replaceBy_render is framed.property framed.value, closing.replaceBy is]
  simp [Rule.render, Rule.mapValues]

/-- A pass that finds nothing around the values is a pass over the values. -/
theorem Sheet.replaceBy_render {rules : List Rule} (framed : ∀ r ∈ rules, r.Framed m f)
    (closing : m.Passes "\x7d\n") : Text.replaceBy m (Sheet.render (rules.map .rule)) =
      Sheet.render ((rules.map (Rule.mapValues f)).map .rule) := by
  induction rules with
  | nil => rfl
  | cons r rules ih =>
    obtain ⟨first, framed⟩ := List.forall_mem_cons.mp framed
    have text : Sheet.render ((r :: rules).map .rule) =
        r.render ++ Sheet.render (rules.map .rule) := rfl
    rw [text, Rule.replaceBy_render is first closing, ih framed]
    rfl

end Framed

/-- The characters that are written around values. -/
def isFrameChar (c : Char) : Bool :=
  isSelectorChar c || isNamePart c || "\n\x7b\x7d".toList.contains c

/-- Without the signs by which a value or a declaration ends and without escapes. -/
def Inner (value : Text) : Prop := ∀ c ∈ value, ";:\\".toList.contains c = false

theorem Inner.of_all {value : Text} {p : Char → Bool}
    (closed : (";:\\".toList.all fun c => !p c) = true) (all : ∀ c ∈ value, p c = true) :
    Inner value := by
  intro c member
  rw [← Bool.not_eq_true]
  intro sign
  have other := List.all_eq_true.mp closed c (List.contains_iff_mem.mp sign)
  simp [all c member] at other

theorem Inner.of_clean {text : Text}
    (clean : (text.all fun c => !";:\\".toList.contains c) = true) : Inner text := by
  intro c member
  simpa using List.all_eq_true.mp clean c member

/-- A rule whose values end where they are written to end. -/
structure Rule.Enclosed (r : Rule) : Prop where
  selector : ∀ c ∈ r.selector, isSelectorChar c = true
  property : ∀ d ∈ r.declarations, ∀ c ∈ d.property, isNamePart c = true
  value : ∀ d ∈ r.declarations, Inner d.value

theorem Rule.Enclosed.mapValues {r : Rule} (enclosed : r.Enclosed) {f : Text → Text}
    (keeps : ∀ value, Inner value → Inner (f value)) : (r.mapValues f).Enclosed where
  selector := enclosed.selector
  property := by
    intro d member
    obtain ⟨old, inside, rfl⟩ := List.mem_map.mp member
    exact enclosed.property old inside
  value := by
    intro d member
    obtain ⟨old, inside, rfl⟩ := List.mem_map.mp member
    exact keeps old.value (enclosed.value old inside)

/-- A pass that finds nothing in what ends with white space around the values, and nothing that
reaches over the end of a value. -/
theorem Sheet.replaceBy_enclosed {m : Text.Matcher Text} (is : m.Local) {f : Text → Text}
    {rules : List Rule} (enclosed : ∀ r ∈ rules, r.Enclosed)
    (frame : ∀ text, (∀ c ∈ text, isFrameChar c = true) → ∀ last ∈ [' ', '\n'],
      m.Passes (text ++ [last]))
    (value : ∀ value, Inner value → ∀ rest, Text.replaceBy m (value ++ (";\n" ++ rest)) =
      f value ++ (";\n" ++ Text.replaceBy m rest)) :
    Text.replaceBy m (Sheet.render (rules.map .rule)) =
      Sheet.render ((rules.map (Rule.mapValues f)).map .rule) := by
  apply Sheet.replaceBy_render is
  · intro r member
    have known := enclosed r member
    refine ⟨?_, fun d inside => ?_, fun d inside => value d.value (known.value d inside)⟩
    · have text : r.selector ++ (" \x7b\n" : Text) = r.selector ++ " \x7b" ++ ['\n'] := by simp
      rw [text]
      apply frame _ _ _ (by decide)
      refine List.forall_mem_append.mpr ⟨fun c letter => ?_, List.all_eq_true.mp (by decide)⟩
      simp [isFrameChar, known.selector c letter]
    · have text : ("  " : Text) ++ d.property ++ (": " : Text) =
          "  " ++ d.property ++ ":" ++ [' '] := by simp
      rw [text]
      apply frame _ _ _ (by decide)
      refine List.forall_mem_append.mpr ⟨List.forall_mem_append.mpr
        ⟨List.all_eq_true.mp (by decide), fun c letter => ?_⟩, List.all_eq_true.mp (by decide)⟩
      simp [isFrameChar, known.property d inside c letter]
  · exact frame "\x7d" (List.all_eq_true.mp (by decide)) '\n' (by decide)

/-- Selectors, properties and values in the characters that a reduced sheet is written in. -/
structure Rule.Lettered (r : Rule) : Prop where
  selector : r.selector.all isSelectorChar = true
  property : ∀ d ∈ r.declarations, d.property.all isNamePart = true
  value : ∀ d ∈ r.declarations, d.value.all isValueChar = true

instance (r : Rule) : Decidable r.Lettered :=
  decidable_of_iff (r.selector.all isSelectorChar = true ∧
      (∀ d ∈ r.declarations, d.property.all isNamePart = true) ∧
      ∀ d ∈ r.declarations, d.value.all isValueChar = true)
    ⟨fun ⟨selector, property, value⟩ => ⟨selector, property, value⟩,
      fun lettered => ⟨lettered.selector, lettered.property, lettered.value⟩⟩

theorem Rule.Lettered.enclosed {r : Rule} (lettered : r.Lettered) : r.Enclosed where
  selector := List.all_eq_true.mp lettered.selector
  property d member := List.all_eq_true.mp (lettered.property d member)
  value d member := Inner.of_all (by decide) (List.all_eq_true.mp (lettered.value d member))

end Css

namespace Substitution

open Css

/-- A declaration that is left over begins with a name and a colon on the same line. -/
theorem leftover_eq_some {before : Option Char} {here left : Text}
    (found : leftover before here = some ((), left)) : ∃ word rest,
      here = '@' :: (word ++ ':' :: rest) ∧ (∀ c ∈ word, Text.isWordOrDash c = true) ∧
        left <:+ rest := by
  simp only [leftover, Option.bind_eq_bind, Option.bind_eq_some_iff, Text.after?_eq_some] at found
  obtain ⟨text, rfl, found⟩ := found
  split at found
  · contradiction
  · obtain ⟨rest, colon, found⟩ := Option.bind_eq_some_iff.mp found
    obtain ⟨⟨value, behind⟩, cut, same⟩ := Option.bind_eq_some_iff.mp found
    cases same
    have word : text.takeWhile Text.isWordOrDash ++ ':' :: rest = text := by
      have whole :=
        List.prefix_iff_eq_append.mp (List.takeWhile_prefix Text.isWordOrDash (l := text))
      rwa [Text.after?_eq_some.mp colon] at whole
    refine ⟨text.takeWhile Text.isWordOrDash, rest, ?_, fun _ => List.mem_takeWhile_imp, ?_⟩
    · rw [word]
      rfl
    · have inner : behind <:+ rest.dropWhile Text.isBlank := by
        rw [Text.cutLineLast?_eq_append cut]
        exact ⟨value ++ [';'], by simp⟩
      exact (List.dropWhile_suffix _).trans (inner.trans (List.dropWhile_suffix _))

theorem leftover_local : leftover.Local where
  blind _ _ _ := rfl
  covers found := by
    obtain ⟨word, rest, rfl, _, used, rfl⟩ := leftover_eq_some found
    exact ⟨'@', word ++ ':' :: used, by simp⟩

/-- In front of the end of its value no sign begins a declaration. -/
theorem leftover_passes {value : Text} (inner : Inner value) :
    leftover.Passes (value ++ ";\n") := by
  intro here filled suffix rest
  rw [Option.eq_none_iff_forall_ne_some]
  rintro ⟨_, left⟩ found
  obtain ⟨word, behind, whole, letters, _⟩ := leftover_eq_some found
  obtain ⟨c, here, rfl⟩ := List.exists_cons_of_ne_nil filled
  obtain ⟨rfl, spelled⟩ := List.cons.inj whole
  -- The sign stands in the value, so the semicolon stands behind it.
  obtain ⟨tail, rfl, later⟩ : ∃ tail, here = tail ++ ";\n" ∧ tail ⊆ value := by
    rcases List.suffix_or_suffix_of_suffix suffix (List.suffix_append value _) with
      short | ⟨front, same⟩
    · exact absurd (short.subset List.mem_cons_self) (by decide)
    · cases front with
      | nil => simp at same
      | cons d front =>
        obtain ⟨rfl, rfl⟩ := List.cons.inj same
        obtain ⟨lead, split⟩ := suffix
        rw [← same, ← List.append_assoc, List.append_cancel_right_eq] at split
        refine ⟨front, rfl, fun c member => ?_⟩
        simp [← split, member]
  have stops : ';' ∉ word := fun member => absurd (letters ';' member) (by decide)
  have ends : word ++ ':' :: behind = tail ++ ';' :: ('\n' :: rest) := by
    simpa using spelled.symm
  obtain ⟨more, rfl, colon⟩ := Text.split_behind ends stops
  cases more with
  | nil => simp at colon
  | cons d more =>
    obtain ⟨rfl, _⟩ := List.cons.inj colon
    exact absurd (inner ':' (later (by simp))) (by decide)

theorem foreign_of_frame {mark last : Char} {text : Text} (other : isFrameChar mark = false)
    (frame : ∀ c ∈ text, isFrameChar c = true) (known : last ∈ [' ', '\n']) :
    mark ∉ text ++ [last] := by
  intro member
  rcases List.mem_append.mp member with inside | ends
  · exact Bool.false_ne_true (other.symm.trans (frame mark inside))
  · have spaces : (([' ', '\n'] : Text).all isFrameChar) = true := by decide
    rw [List.mem_singleton.mp ends] at other
    exact Bool.false_ne_true (other.symm.trans (List.all_eq_true.mp spaces last known))

/-- What becomes of a value: literals become symbols, and then the faded primary color its
expression. -/
def restoreValue (compiled : Bindings) (value : Text) : Text :=
  Text.replaceAll fadedLiteral fadedExpression (restoreSymbols compiled value)

section Sheets

variable {rules : List Rule}

/-- A pass that reaches over no semicolon and finds nothing in a frame. -/
theorem replaceBy_values {m : Text.Matcher Text} (is : m.Local) (stays : m.Within ';')
    (enclosed : ∀ r ∈ rules, r.Enclosed)
    (frame : ∀ text, (∀ c ∈ text, isFrameChar c = true) → ∀ last ∈ [' ', '\n'],
      m.Passes (text ++ [last])) : Text.replaceBy m (Sheet.render (rules.map .rule)) =
      Sheet.render ((rules.map (Rule.mapValues (Text.replaceBy m))).map .rule) := by
  apply Sheet.replaceBy_enclosed is enclosed frame
  intro value inner rest
  have clean : ';' ∉ value := fun member => absurd (inner ';' member) (by decide)
  have feed : m.Passes ['\n'] := frame [] (List.forall_mem_nil _) '\n' (by decide)
  have split := Text.replaceBy_within is stays clean ('\n' :: rest)
  have behind := feed.replaceBy is rest
  rw [List.singleton_append] at behind
  rw [behind] at split
  exact split

section Literal

variable {name literal : Text} (marked : Text.Marked '#' Text.isHexDigit literal)

include marked

theorem replaceLiteral_inner (known : Inner name) {value : Text} (inner : Inner value) :
    Inner (Text.replaceBounded literal (symbolOf name) Text.isAsciiAlphanumeric value) := by
  intro c member
  rcases Text.mem_replaceBounded (marked.mono Text.isAsciiAlphanumeric_of_isHexDigit) member with
    old | new
  · exact inner c old
  · rcases mem_symbolOf new with letter | sign
    · exact known c letter
    · have signs : Inner expressionSigns := .of_clean (by decide)
      exact signs c sign

theorem replaceLiteral_values (enclosed : ∀ r ∈ rules, r.Enclosed) :
    Text.replaceBounded literal (symbolOf name) Text.isAsciiAlphanumeric
        (Sheet.render (rules.map .rule)) =
      Sheet.render ((rules.map (Rule.mapValues (Text.replaceBounded literal (symbolOf name)
        Text.isAsciiAlphanumeric))).map .rule) := by
  have word := marked.mono Text.isAsciiAlphanumeric_of_isHexDigit
  have clean : ';' ∉ literal := by
    obtain ⟨tail, spelled, letters⟩ := word
    rw [spelled]
    intro member
    rcases List.mem_cons.mp member with sign | inside
    · exact absurd sign (by decide)
    · exact absurd (letters ';' inside) (by decide)
  apply replaceBy_values (Text.bounded_local word) (Text.bounded_within clean (by decide)) enclosed
  intro text frame last known
  apply Text.passes_of_foreign fun c rest other => Text.bounded_begins word rest other
  exact foreign_of_frame (by decide) frame known

end Literal

theorem restoreSymbols_inner {compiled : Bindings} (names : ∀ name ∈ compiled.names, Inner name)
    (literals : ∀ entry ∈ compiled.entries, Text.Marked '#' Text.isHexDigit entry.2) {value : Text}
    (inner : Inner value) : Inner (restoreSymbols compiled value) :=
  List.foldlRecOn (motive := Inner) compiled.entries _ inner fun _ inner entry member =>
    replaceLiteral_inner (literals entry member) (names entry.1 (List.mem_map_of_mem member)) inner

theorem restoreSymbols_values {compiled : Bindings} (enclosed : ∀ r ∈ rules, r.Enclosed)
    (names : ∀ name ∈ compiled.names, Inner name)
    (literals : ∀ entry ∈ compiled.entries, Text.Marked '#' Text.isHexDigit entry.2) :
    restoreSymbols compiled (Sheet.render (rules.map .rule)) =
      Sheet.render ((rules.map (Rule.mapValues (restoreSymbols compiled))).map .rule) := by
  obtain ⟨entries⟩ := compiled
  induction entries generalizing rules with
  | nil =>
    have kept : Rule.mapValues (restoreSymbols ⟨[]⟩) = id := funext Rule.mapValues_id
    rw [kept, List.map_id]
    rfl
  | cons entry entries ih =>
    obtain ⟨known, names⟩ := List.forall_mem_cons.mp names
    obtain ⟨marked, literals⟩ := List.forall_mem_cons.mp literals
    have still : ∀ r ∈ rules.map (Rule.mapValues (Text.replaceBounded entry.2 (symbolOf entry.1)
        Text.isAsciiAlphanumeric)), r.Enclosed := by
      rw [List.forall_mem_map]
      intro r member
      exact (enclosed r member).mapValues fun value => replaceLiteral_inner marked known
    have both : Rule.mapValues (restoreSymbols ⟨entries⟩) ∘ Rule.mapValues (Text.replaceBounded
        entry.2 (symbolOf entry.1) Text.isAsciiAlphanumeric) =
          Rule.mapValues (restoreSymbols ⟨entry :: entries⟩) :=
      funext (Rule.mapValues_mapValues _ _)
    have first : restoreSymbols ⟨entry :: entries⟩ (Sheet.render (rules.map .rule)) =
        restoreSymbols ⟨entries⟩ (Text.replaceBounded entry.2 (symbolOf entry.1)
          Text.isAsciiAlphanumeric (Sheet.render (rules.map .rule))) := rfl
    rw [first, replaceLiteral_values marked enclosed, ih still names literals,
      List.map_map (l := rules), both]

theorem replaceFaded_values (enclosed : ∀ r ∈ rules, r.Enclosed) :
    Text.replaceAll fadedLiteral fadedExpression (Sheet.render (rules.map .rule)) =
      Sheet.render ((rules.map (Rule.mapValues
        (Text.replaceAll fadedLiteral fadedExpression))).map .rule) := by
  have is : (Text.literal fadedLiteral).Local := Text.literal_local (by decide)
  have stays : (Text.literal fadedLiteral).Within ';' := Text.literal_within (by decide)
  apply replaceBy_values (is.map fun _ => fadedExpression) (stays.map fun _ => fadedExpression)
    enclosed
  intro text frame last known
  -- Only a text that reaches the bracket behind the name begins a match.
  have spelled : fadedLiteral = "rgba" ++ '(' :: "18, 52, 86, 0.2)" := by decide
  refine Text.Matcher.Passes.map (Text.literal_passes spelled ?_ ?_) fun _ => fadedExpression
  · exact foreign_of_frame (by decide) frame known
  · have apart : ([' ', '\n'].all fun last => !"rgba".toList.contains last) = true := by decide
    have outside := List.all_eq_true.mp apart last known
    simpa using outside

theorem replaceFaded_inner {value : Text} (inner : Inner value) :
    Inner (Text.replaceAll fadedLiteral fadedExpression value) := by
  have is : (Text.literal fadedLiteral).Local := Text.literal_local (by decide)
  intro c member
  rcases Text.mem_replaceBy (is.map fun _ => fadedExpression) member with
    old | ⟨here, new, left, _, found, inside⟩
  · exact inner c old
  · obtain ⟨_, _, same⟩ := Option.map_eq_some_iff.mp found
    cases same
    have clean : Inner fadedExpression := .of_clean (by decide)
    exact clean c inside

theorem replaceBy_sheet_idle {m : Text.Matcher Text} (is : m.Local)
    (enclosed : ∀ r ∈ rules, r.Enclosed)
    (frame : ∀ text, (∀ c ∈ text, isFrameChar c = true) → ∀ last ∈ [' ', '\n'],
      m.Passes (text ++ [last]))
    (value : ∀ value, Inner value → m.Passes (value ++ ";\n")) :
    Text.replaceBy m (Sheet.render (rules.map .rule)) = Sheet.render (rules.map .rule) := by
  have same : rules.map (Rule.mapValues fun value => value) = rules := by
    rw [show Rule.mapValues (fun value => value) = id from funext Rule.mapValues_id, List.map_id]
  have passed := Sheet.replaceBy_enclosed (f := fun value => value) is enclosed frame
    fun text inner rest => by
      have whole := (value text inner).replaceBy is rest
      simpa only [List.append_assoc] using whole
  rwa [same] at passed

theorem erase_leftover_idle (enclosed : ∀ r ∈ rules, r.Enclosed) :
    Text.erase leftover (Sheet.render (rules.map .rule)) = Sheet.render (rules.map .rule) := by
  apply replaceBy_sheet_idle (leftover_local.map fun _ => []) enclosed
  · intro text frame last known
    apply Text.Matcher.Passes.map (m := leftover) (f := fun _ => [])
    have foreign : '@' ∉ text ++ [last] := foreign_of_frame (by decide) frame known
    apply Text.passes_of_foreign _ foreign
    intro c rest other
    rw [Option.eq_none_iff_forall_ne_some]
    rintro ⟨_, left⟩ found
    obtain ⟨_, _, same, _⟩ := leftover_eq_some found
    exact other (List.cons.inj same).1
  · intro value inner
    exact (leftover_passes inner).map fun _ => []

theorem replaceHack_idle (enclosed : ∀ r ∈ rules, r.Enclosed) :
    Text.replaceAll legacyHack [] (Sheet.render (rules.map .rule)) =
      Sheet.render (rules.map .rule) := by
  have is : (Text.literal legacyHack).Local := Text.literal_local (by decide)
  have begins : ∀ c rest, c ≠ '\\' → Text.literal legacyHack none (c :: rest) = none := by
    intro c rest other
    rw [Option.eq_none_iff_forall_ne_some]
    rintro ⟨_, left⟩ found
    exact other (List.cons.inj ((Text.literal_eq_some (by decide)).mp found)).1
  apply replaceBy_sheet_idle (is.map fun _ => []) enclosed
  · intro text frame last known
    have foreign : '\\' ∉ text ++ [last] := foreign_of_frame (by decide) frame known
    exact Text.Matcher.Passes.map (Text.passes_of_foreign begins foreign) fun _ => []
  · intro value inner
    refine Text.Matcher.Passes.map (Text.passes_of_foreign begins fun member => ?_) fun _ => []
    rcases List.mem_append.mp member with inside | ends
    · exact absurd (inner '\\' inside) (by decide)
    · exact absurd ends (by decide)

end Sheets

theorem inner_of_selectorChars {name : Text} (named : Text.Marked '@' Probe.isSelectorChar name) :
    Inner name := by
  obtain ⟨tail, rfl, letters⟩ := named
  apply Inner.of_all (p := fun c => c = '@' || Probe.isSelectorChar c) (by decide)
  intro c member
  rcases List.mem_cons.mp member with rfl | inside
  · rfl
  · exact Bool.or_eq_true_iff.mpr (.inr (letters c inside))

/-- Escaped calls apart, going back from literals to variables changes the values of a sheet and
nothing else: each rule and each declaration stays where it is, and no text around the values is
taken for a literal or for a declaration that is left over. -/
theorem backward_values {rules : List Rule} {compiled : Bindings}
    (lettered : ∀ r ∈ rules, r.Lettered)
    (names : ∀ name ∈ compiled.names, Text.Marked '@' Probe.isSelectorChar name)
    (literals : ∀ entry ∈ compiled.entries, Text.Marked '#' Text.isHexDigit entry.2) :
    backward (Sheet.render (rules.map .rule)) {} compiled =
      Sheet.render ((rules.map (Rule.mapValues (restoreValue compiled))).map .rule) := by
  have inner : ∀ name ∈ compiled.names, Inner name := fun name member =>
    inner_of_selectorChars (names name member)
  have enclosed : ∀ r ∈ rules, r.Enclosed := fun r member => (lettered r member).enclosed
  have restored : ∀ r ∈ rules.map (Rule.mapValues (restoreSymbols compiled)), r.Enclosed := by
    rw [List.forall_mem_map]
    intro r member
    exact (enclosed r member).mapValues fun value => restoreSymbols_inner inner literals
  have faded : ∀ r ∈ (rules.map (Rule.mapValues (restoreSymbols compiled))).map
      (Rule.mapValues (Text.replaceAll fadedLiteral fadedExpression)), r.Enclosed := by
    rw [List.forall_mem_map]
    intro r member
    exact (restored r member).mapValues fun value => replaceFaded_inner
  have both : Rule.mapValues (Text.replaceAll fadedLiteral fadedExpression) ∘
      Rule.mapValues (restoreSymbols compiled) = Rule.mapValues (restoreValue compiled) :=
    funext (Rule.mapValues_mapValues _ _)
  have calls : restoreCalls {} (Sheet.render (rules.map .rule)) = Sheet.render (rules.map .rule) :=
    rfl
  simp only [backward]
  rw [calls, restoreSymbols_values enclosed inner literals, replaceFaded_values restored,
    erase_leftover_idle faded, replaceHack_idle faded, List.map_map (l := rules), both]

/-- The symbol of a shade, which holds brackets and quotes, a literal that is continued, the faded
primary color, and a rule without declarations. -/
theorem backward_values_shade :
    let rules : List Rule := [
      ⟨".a > .b", [⟨"color", "#12 #123#12a"⟩, ⟨"border", "1px rgba(18, 52, 86, 0.2)"⟩]⟩, ⟨".c", []⟩]
    let compiled : Bindings := ⟨[("@primary-5", "#12"), ("@it's", "#123")]⟩
    (∀ r ∈ rules, r.Lettered) ∧
      (∀ name ∈ compiled.names, Text.Marked '@' Probe.isSelectorChar name) ∧
      (∀ entry ∈ compiled.entries, Text.Marked '#' Text.isHexDigit entry.2) ∧
      backward (Sheet.render (rules.map .rule)) {} compiled =
        Sheet.render ([⟨".a > .b", [
          ⟨"color", "color(~`colorPalette(\"@\x7bprimary-color\x7d\", 5)`) @it's#12a"⟩,
          ⟨"border", "1px fade(@primary-color, 20%)"⟩]⟩, ⟨".c", []⟩].map .rule) := by
  intro rules compiled
  have lettered : ∀ r ∈ rules, r.Lettered := by decide +kernel
  have names : ∀ name ∈ compiled.names, Text.Marked '@' Probe.isSelectorChar name := by
    decide +kernel
  have literals : ∀ entry ∈ compiled.entries, Text.Marked '#' Text.isHexDigit entry.2 := by
    decide +kernel
  have values : rules.map (Rule.mapValues (restoreValue compiled)) = [⟨".a > .b", [
      ⟨"color", "color(~`colorPalette(\"@\x7bprimary-color\x7d\", 5)`) @it's#12a"⟩,
      ⟨"border", "1px fade(@primary-color, 20%)"⟩]⟩, ⟨".c", []⟩] := by decide +kernel
  refine ⟨lettered, names, literals, ?_⟩
  rw [backward_values lettered names literals, values]

end Substitution
end ColorTheme
