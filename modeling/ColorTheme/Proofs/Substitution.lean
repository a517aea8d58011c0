import ColorTheme.Proofs.Bindings
import ColorTheme.Proofs.Text.Word
import ColorTheme.Proofs.Text.Letter

/-!
Substitution as a change of spelling. A source is laid out in characters and the bound names that
it mentions behind the first colon of a line. Forward substitution writes the literals in place of
the names, and backward substitution writes the names again. -/
namespace ColorTheme.Text

theorem linesWithEnds_isChain (text : Text) :
    (linesWithEnds text).IsChain fun line _ => line.getLast? = some '\n' := by
  induction text with
  | nil => exact List.isChain_nil
  | cons c rest ih =>
    unfold linesWithEnds
    by_cases feed : c = '\n'
    · rw [if_pos feed]
      exact List.isChain_cons.mpr ⟨fun _ _ => congrArg some feed, ih⟩
    · rw [if_neg feed]
      split
      · exact List.isChain_singleton _
      · rename_i line others known
        rw [known] at ih
        obtain ⟨ends, later⟩ := List.isChain_cons.mp ih
        refine List.isChain_cons.mpr ⟨fun next follows => ?_, later⟩
        simp [List.getLast?_cons, ends next follows]

end Text

namespace Substitution

open Text (Layout Marked Stands Matcher)
open Text.Layout

/-- A bound name that no further character continues. -/
def mention (names : List Text) : Matcher Text
  | _, '@' :: rest =>
    let name := '@' :: rest.takeWhile Text.isNameChar
    if name ∈ names then some (name, rest.dropWhile Text.isNameChar) else none
  | _, _ => none

/-- The characters of a line and the names mentioned from its first colon on. -/
def lineLayout (names : List Text) (line : Text) : Layout Text :=
  (line.takeWhile (· ≠ ':')).map Sum.inl ++
    Text.pieces (mention names) 0 none (line.dropWhile (· ≠ ':'))

def sourceLayout (names : List Text) (source : Text) : Layout Text :=
  ((Text.linesWithEnds source).map (lineLayout names)).flatten

def valueOf (compiled : Bindings) (name : Text) : Text := (compiled.get? name).getD name

theorem mention_eq (names : List Text) :
    mention names = Text.wordOf '@' Text.isNameChar names := by
  funext before here
  cases here with
  | nil => rfl
  | cons c rest =>
    by_cases sign : c = '@'
    · subst sign
      simp only [mention, Text.wordOf, Text.word, if_true, Option.filter_some, List.contains_iff_mem]
    · simp [mention, Text.wordOf, Text.word, sign]

section Mention

variable {names : List Text}

theorem mention_local : (mention names).Local := by
  rw [mention_eq]
  exact Text.wordOf_local

theorem mem_names_of_pieces {text name : Text}
    (member : .inr name ∈ Text.pieces (mention names) 0 none text) : name ∈ names :=
  Text.mem_words_of_pieces (mention_eq names ▸ member)

theorem mem_names_of_line {line name : Text} (member : .inr name ∈ lineLayout names line) :
    name ∈ names := by
  rcases List.mem_append.mp member with head | tail
  · obtain ⟨c, _, same⟩ := List.mem_map.mp head
    contradiction
  · exact mem_names_of_pieces tail

theorem mem_names_of_source {source name : Text}
    (member : .inr name ∈ sourceLayout names source) : name ∈ names := by
  obtain ⟨_, part, member⟩ := List.mem_flatten.mp member
  obtain ⟨line, _, rfl⟩ := List.mem_map.mp part
  exact mem_names_of_line member

theorem write_mentions (text : Text) :
    write id (Text.pieces (mention names) 0 none text) = text := by
  rw [mention_eq]
  exact Text.write_words text

theorem write_line (line : Text) : write id (lineLayout names line) = line := by
  rw [lineLayout, write_append, write_chars, write_mentions, List.takeWhile_append_dropWhile]

theorem write_source (source : Text) : write id (sourceLayout names source) = source := by
  rw [sourceLayout, write_flatten, List.flatMap_map]
  simp only [write_line]
  rw [List.flatMap_id', Text.linesWithEnds_flatten]

variable (marked : ∀ name ∈ names, Marked '@' Text.isNameChar name)

include marked

theorem mention_eq_some {before : Option Char} {here name left : Text} :
    mention names before here = some (name, left) ↔
      name ∈ names ∧ here = name ++ left ∧ left.head?.any Text.isNameChar = false := by
  rw [mention_eq, Text.wordOf_eq_some]
  constructor
  · rintro ⟨bound, whole, _, closed⟩
    exact ⟨bound, whole, closed⟩
  · rintro ⟨bound, whole, closed⟩
    exact ⟨bound, whole, marked name bound, closed⟩

/-- A mention is not continued by what follows it, in any spelling that no name can go on with. -/
theorem pieces_apart {continues : Char → Bool} {old new : Text → Text}
    (narrow : ∀ c, continues c = true → Text.isNameChar c = true)
    (opens : ∀ name ∈ names, Closes continues old new (.inr name)) (text : Text) :
    Apart continues old new (Text.pieces (mention names) 0 none text) := by
  induction text using Text.search_induction (mention_local : (mention names).Local) with
  | nil => exact List.isChain_nil
  | char c rest missed ih =>
    rw [Text.pieces_char mention_local missed]
    exact apart_chars [c] ih
  | found here name left found ih =>
    rw [Text.pieces_match mention_local found]
    refine List.isChain_cons.mpr ⟨fun item next _ => ?_, ih⟩
    cases item with
    | inr other => exact opens other (mem_names_of_pieces (List.mem_of_head? next))
    | inl c =>
      obtain ⟨later, split⟩ := List.head?_eq_some_iff.mp next
      have goes : left = c :: write id later := by
        rw [← write_mentions left, split]
        rfl
      have stops := ((mention_eq_some marked).mp found).2.2
      rw [goes] at stops
      exact Bool.eq_false_iff.mpr fun on => Bool.false_ne_true (stops.symm.trans (narrow c on))

theorem line_apart {continues : Char → Bool} {old new : Text → Text}
    (narrow : ∀ c, continues c = true → Text.isNameChar c = true)
    (opens : ∀ name ∈ names, Closes continues old new (.inr name)) (line : Text) :
    Apart continues old new (lineLayout names line) :=
  apart_chars _ (pieces_apart marked narrow opens _)

theorem source_apart {continues : Char → Bool} {old new : Text → Text}
    (narrow : ∀ c, continues c = true → Text.isNameChar c = true)
    (opens : ∀ name ∈ names, Closes continues old new (.inr name)) (source : Text) :
    Apart continues old new (sourceLayout names source) := by
  refine apart_flatten ?_ ?_
  · intro l part
    obtain ⟨line, _, rfl⟩ := List.mem_map.mp part
    exact line_apart marked narrow opens line
  · refine List.isChain_map_of_isChain (lineLayout names) ?_ (Text.linesWithEnds_isChain source)
    intro line _ feed name last
    -- A line that ended in a mention would have the name's last character as its own.
    obtain ⟨front, split⟩ := List.getLast?_eq_some_iff.mp last
    have bound := mem_names_of_line (List.mem_of_getLast? last)
    obtain ⟨tail, spelled, inner⟩ := marked name bound
    have ending : line = write id front ++ name := by
      rw [← write_line line, split]
      simp
    have member : '\n' ∈ name := by
      rw [ending, List.getLast?_append_of_ne_nil _ (by simp [spelled])] at feed
      exact List.mem_of_getLast? feed
    rw [spelled] at member
    rcases List.mem_cons.mp member with same | inside
    · contradiction
    · exact absurd (inner _ inside) (by decide)

end Mention

/-- Names that a source can mention, each bound once, to a literal that mentions none. -/
structure Mentionable (compiled : Bindings) : Prop where
  names : ∀ name ∈ compiled.names, Marked '@' Text.isNameChar name
  distinct : compiled.names.Nodup
  values : ∀ entry ∈ compiled.entries, ∃ tail, entry.2 = '#' :: tail ∧ '@' ∉ tail

section Forward

variable {compiled : Bindings}

theorem valueOf_of_mem (distinct : compiled.names.Nodup) {entry : Text × Text}
    (member : entry ∈ compiled.entries) : valueOf compiled entry.1 = entry.2 := by
  simp [valueOf, Bindings.get?_of_mem distinct member]

theorem foldl_entries (distinct : compiled.names.Nodup) (step : Text → Text → Text → Text)
    (text : Text) :
    compiled.entries.foldl (fun text entry => step text entry.1 entry.2) text =
      compiled.names.foldl (fun text name => step text name (valueOf compiled name)) text := by
  rw [Bindings.names, List.foldl_map]
  refine List.foldl_ext _ _ text fun text entry member => ?_
  rw [valueOf_of_mem distinct member]

variable (able : Mentionable compiled)

include able

theorem Mentionable.value {name : Text} (bound : name ∈ compiled.names) :
    ∃ tail, valueOf compiled name = '#' :: tail ∧ '@' ∉ tail := by
  obtain ⟨entry, member, rfl⟩ := List.mem_map.mp bound
  rw [valueOf_of_mem able.distinct member]
  exact able.values entry member

theorem Mentionable.closes {continues : Char → Bool}
    (narrow : ∀ c, continues c = true → Text.isNameChar c = true) {name : Text}
    (bound : name ∈ compiled.names) : Closes continues id (valueOf compiled) (.inr name) := by
  have stops : ∀ c, Text.isNameChar c = false → continues c = false :=
    fun c other => Bool.eq_false_iff.mpr fun on => Bool.false_ne_true (other.symm.trans (narrow c on))
  obtain ⟨word, spelled, _⟩ := able.names name bound
  obtain ⟨tail, value, _⟩ := able.value bound
  rintro _ (same | same)
  · exact ⟨'@', word, same.trans spelled, stops '@' (by decide)⟩
  · exact ⟨'#', tail, same.trans value, stops '#' (by decide)⟩

/-- Behind the first colon each replacement writes the literal of one name. -/
theorem mention_settles (text : Text) {name : Text} (bound : name ∈ compiled.names) :
    Settles Text.isNameChar id (valueOf compiled)
      (Text.pieces (mention compiled.names) 0 none text) name := by
  have opens : ∀ other ∈ compiled.names,
      Closes Text.isNameChar id (valueOf compiled) (.inr other) :=
    fun other known => able.closes (fun _ on => on) known
  have inside : ∀ other, .inr other ∈ Text.pieces (mention compiled.names) 0 none text →
      other ∈ compiled.names := fun _ place => mem_names_of_pieces place
  refine settles_of_foreign (by decide) (able.names name bound)
    (fun other place => able.names other (inside other place)) (fun _ _ other => other)
    (pieces_apart able.names (fun _ on => on) opens text) ?_ ?_
  · intro other place member
    obtain ⟨tail, value, clean⟩ := able.value (inside other place)
    rw [value] at member
    rcases List.mem_cons.mp member with same | later
    · contradiction
    · exact clean later
  · intro spell between c rest suffix stands
    rcases Text.suffix_pieces mention_local suffix with
      ⟨_, more, same, rfl, missed⟩ | ⟨_, _, _, same, _⟩
    · cases same
      obtain ⟨tail, spelled, inner⟩ := able.names name bound
      rw [id, spelled, Text.stands_cons inner] at stands
      obtain ⟨rfl, run⟩ := stands
      -- The run behind the sign is the same in every spelling, so it was a mention in the source.
      have behind := (List.suffix_cons _ _).trans suffix
      rw [takeWhile_write (fun p place => opens p (mem_names_of_pieces place))
        (between.suffix behind), write_mentions] at run
      simp [mention, run, ← spelled, bound] at missed
    · contradiction

theorem substituteLine_eq (line : Text) :
    substituteLine compiled line = write (valueOf compiled) (lineLayout compiled.names line) := by
  have steps := foldl_settles able.distinct
    (fun name bound => mention_settles able (line.dropWhile (· ≠ ':')) bound)
    (fun _ _ => .inl rfl) fun _ _ => rfl
  rw [write_mentions] at steps
  rw [lineLayout, write_append, write_chars]
  refine congrArg (line.takeWhile (· ≠ ':') ++ ·) ?_
  refine (foldl_entries able.distinct
    (fun text name value => Text.replaceBounded name value Text.isNameChar text) _).trans ?_
  refine steps.trans (write_congr fun name place => ?_)
  rw [if_pos (mem_names_of_pieces place)]

/-- Forward substitution writes the literals in place of the names that are mentioned. -/
theorem forward_eq (source : Text) :
    forward source compiled = write (valueOf compiled) (sourceLayout compiled.names source) := by
  rw [forward, sourceLayout, write_flatten, List.flatMap_map]
  exact List.flatMap_congr fun line _ => substituteLine_eq able line

end Forward

/-- A compiled map that can be read back: distinct hex literals of distinct names, none of which
is the name of a shade. -/
structure Reversible (compiled : Bindings) : Prop where
  names : ∀ name ∈ compiled.names, Marked '@' Text.isNameChar name
  plain : ∀ name ∈ compiled.names, Shade.isShadeName name = false
  distinctNames : compiled.names.Nodup
  values : ∀ entry ∈ compiled.entries, Marked '#' Text.isHexDigit entry.2
  distinctValues : (compiled.entries.map Prod.snd).Nodup

section Backward

variable {compiled : Bindings} (reversible : Reversible compiled)

include reversible

theorem Reversible.mentionable : Mentionable compiled where
  names := reversible.names
  distinct := reversible.distinctNames
  values entry member := by
    obtain ⟨tail, value, hex⟩ := reversible.values entry member
    exact ⟨tail, value, fun sigil => absurd (hex '@' sigil) (by decide)⟩

theorem Reversible.marked {name : Text} (bound : name ∈ compiled.names) :
    Marked '#' Text.isAsciiAlphanumeric (valueOf compiled name) := by
  obtain ⟨entry, member, rfl⟩ := List.mem_map.mp bound
  obtain ⟨tail, value, hex⟩ := reversible.values entry member
  rw [valueOf_of_mem reversible.distinctNames member]
  exact ⟨tail, value, fun c inside => Text.isAsciiAlphanumeric_of_isHexDigit (hex c inside)⟩

theorem Reversible.valueOf_inj {name other : Text} (bound : name ∈ compiled.names)
    (known : other ∈ compiled.names) (same : valueOf compiled name = valueOf compiled other) :
    name = other := by
  obtain ⟨entry, member, rfl⟩ := List.mem_map.mp bound
  obtain ⟨second, listed, rfl⟩ := List.mem_map.mp known
  rw [valueOf_of_mem reversible.distinctNames member,
    valueOf_of_mem reversible.distinctNames listed] at same
  rw [List.inj_on_of_nodup_map reversible.distinctValues member listed same]

theorem restoreSymbols_eq (css : Text) :
    restoreSymbols compiled css = compiled.names.foldl (fun css name =>
      Text.replaceBounded (valueOf compiled name) name Text.isAsciiAlphanumeric css) css := by
  rw [← foldl_entries reversible.distinctNames
    (fun css name value => Text.replaceBounded value name Text.isAsciiAlphanumeric css)]
  refine List.foldl_ext _ _ css fun css entry member => ?_
  have plain := reversible.plain entry.1 (List.mem_map_of_mem member)
  have base : Shade.expression? entry.1 = none := by
    simpa [Shade.isShadeName, Shade.expression?] using plain
  simp [symbolOf, base]

theorem restoreSymbols_write (source : Text)
    (absent : ∀ entry ∈ compiled.entries, ¬ entry.2 <:+: source) :
    restoreSymbols compiled (write (valueOf compiled) (sourceLayout compiled.names source)) =
      source := by
  have inside : ∀ name, .inr name ∈ sourceLayout compiled.names source → name ∈ compiled.names :=
    fun _ place => mem_names_of_source place
  have narrow := fun c => @Text.isNameChar_of_isAsciiAlphanumeric c
  have settles : ∀ name ∈ compiled.names, Settles Text.isAsciiAlphanumeric (valueOf compiled) id
      (sourceLayout compiled.names source) name := by
    intro name bound
    refine settles_of_absent (by decide) (reversible.marked bound)
      (fun other place => reversible.marked (inside other place)) ?_
      (source_apart reversible.names narrow
        (fun other known => (reversible.mentionable.closes narrow known).swap) source) ?_
    · intro other place different same
      exact different (reversible.valueOf_inj (inside other place) bound same)
    · obtain ⟨entry, member, rfl⟩ := List.mem_map.mp bound
      rw [write_source, valueOf_of_mem reversible.distinctNames member]
      exact absent entry member
  rw [restoreSymbols_eq reversible]
  refine (foldl_settles reversible.distinctNames settles (fun _ _ => .inl rfl)
    fun _ _ => rfl).trans ?_
  refine (write_congr fun name place => ?_).trans (write_source source)
  rw [if_pos (inside name place)]

end Backward

/-- What was substituted forward comes back as the source does on its own. -/
theorem backward_forward (source : Text) (compiled : Bindings) (reversible : Reversible compiled)
    (absent : ∀ entry ∈ compiled.entries, ¬ entry.2 <:+: source) :
    backward (forward source compiled) {} compiled = backward source {} {} := by
  have restored := restoreSymbols_write reversible source absent
  rw [← forward_eq reversible.mentionable] at restored
  have unescaped : restoreCalls {} (forward source compiled) = forward source compiled := rfl
  simp only [backward, unescaped, restored]
  rfl

/-- Names and literals that begin others, and mentions on both sides of a colon. -/
theorem backward_forward_beginnings :
    let source : Text := "@a b: @a-b,@a;\n@a: @ab"
    let compiled : Bindings := ⟨[("@a", "#abc"), ("@a-b", "#ab")]⟩
    forward source compiled = ("@a b: #ab,#abc;\n@a: @ab" : Text) ∧ Reversible compiled ∧
      (∀ entry ∈ compiled.entries, ¬ entry.2 <:+: source) ∧
      backward (forward source compiled) {} compiled = backward source {} {} := by
  intro source compiled
  have reversible : Reversible compiled := {
    names := by decide +kernel
    plain := by decide +kernel
    distinctNames := by decide +kernel
    values := by decide +kernel
    distinctValues := by decide +kernel }
  have absent : ∀ entry ∈ compiled.entries, ¬ entry.2 <:+: source := by decide +kernel
  exact ⟨by decide +kernel, reversible, absent, backward_forward source compiled reversible absent⟩

end Substitution
end ColorTheme
