import ColorTheme.Proofs.Chain
import ColorTheme.Proofs.Symbol
import ColorTheme.Proofs.Text.Run
import ColorTheme.Proofs.Text.Trim

/-!
How declarations are read. A declaration begins with a heading, from the sigil to the colon, which
never leaves its line; its value goes on to the next semicolon, over as many lines as it takes. -/
namespace ColorTheme

namespace Variable

/-- At most one quotation mark. -/
def IsMark (mark : Text) : Prop := mark = [] ∨ ∃ c, isQuote c = true ∧ mark = [c]

/-- How a declaration of a name may begin. -/
inductive Heading : (name head : Text) → Prop
  | mk {opening word closing gaps : Text} (opens : IsMark opening) (filled : word ≠ [])
      (inner : ∀ c ∈ word, Text.isWordOrDash c = true) (closes : IsMark closing)
      (apart : ∀ c ∈ gaps, isGap c = true) :
      Heading ('@' :: word) ('@' :: (opening ++ (word ++ (closing ++ gaps))) ++ [':'])

/-- The name that a heading here declares and the text behind the heading. -/
def heading? (here : Text) : Option (Text × Text) := do
  let text ← Text.after? "@" here
  let (_, text) := splitQuote text
  let word := text.takeWhile Text.isWordOrDash
  if word.isEmpty then none
  else
    let (_, text) := splitQuote (text.drop word.length)
    let rest ← Text.after? ":" (text.dropWhile isGap)
    return ('@' :: word, rest)

/-- A declaration is a heading and a value up to the next semicolon. -/
theorem declared_eq (before : Option Char) (here : Text) :
    declared before here = (heading? here).bind fun (name, text) =>
      (Text.cut? [';'] text).map fun (value, rest) => (⟨name, Text.trim value⟩, rest) := by
  unfold declared heading?
  cases Text.after? "@" here with
  | none => rfl
  | some text =>
    simp only [Option.bind_eq_bind, Option.bind_some]
    split
    · rfl
    · simp only [Option.bind_assoc, Option.map_eq_bind]
      rfl

theorem splitQuote_spec (text : Text) :
    IsMark (splitQuote text).1 ∧ (splitQuote text).1 ++ (splitQuote text).2 = text := by
  cases text with
  | nil => exact ⟨.inl rfl, rfl⟩
  | cons c rest =>
    by_cases quote : isQuote c = true
    · simp only [splitQuote, if_pos quote]
      exact ⟨.inr ⟨c, quote, rfl⟩, rfl⟩
    · simp only [splitQuote, if_neg quote]
      exact ⟨.inl rfl, rfl⟩

theorem splitQuote_append {mark rest : Text} (is : IsMark mark)
    (plain : rest.head?.any isQuote = false) : splitQuote (mark ++ rest) = (mark, rest) := by
  rcases is with rfl | ⟨c, quote, rfl⟩
  · cases rest with
    | nil => rfl
    | cons d rest =>
      have other : isQuote d = false := plain
      simp [splitQuote, other]
  · simp [splitQuote, quote]

theorem isWordOrDash_other {c : Char} (other : isQuote c = true ∨ isGap c = true ∨ c = ':') :
    Text.isWordOrDash c = false := by
  have known : c ∈ ['\'', '"', ' ', '\t', ':'] := by
    simpa [isQuote, isGap, or_assoc] using other
  have all : ['\'', '"', ' ', '\t', ':'].all (fun c => !Text.isWordOrDash c) = true := by decide
  simpa using List.all_eq_true.mp all c known

theorem isQuote_gap {c : Char} (gap : isGap c = true) : isQuote c = false := by
  have known : c = ' ' ∨ c = '\t' := by simpa [isGap] using gap
  rcases known with rfl | rfl
  · decide
  · decide

theorem heading?_of_heading {name head : Text} (heading : Heading name head) (rest : Text) :
    heading? (head ++ rest) = some (name, rest) := by
  obtain @⟨opening, word, closing, gaps, opens, filled, inner, closes, apart⟩ := heading
  have colon : (gaps ++ ':' :: rest).takeWhile isGap = gaps ∧
      (gaps ++ ':' :: rest).dropWhile isGap = ':' :: rest := Text.run_append apart rfl
  have plain : (gaps ++ ':' :: rest).head?.any isQuote = false ∧
      (gaps ++ ':' :: rest).head?.any Text.isWordOrDash = false := by
    cases gaps with
    | nil => exact ⟨rfl, isWordOrDash_other (.inr (.inr rfl))⟩
    | cons c gaps =>
      have gap := apart c List.mem_cons_self
      exact ⟨isQuote_gap gap, isWordOrDash_other (.inr (.inl gap))⟩
  have stops : (closing ++ (gaps ++ ':' :: rest)).head?.any Text.isWordOrDash = false := by
    rcases closes with rfl | ⟨c, quote, rfl⟩
    · exact plain.2
    · exact isWordOrDash_other (.inl quote)
  have run := Text.run_append inner stops
  have first : (word ++ (closing ++ (gaps ++ ':' :: rest))).head?.any isQuote = false := by
    obtain ⟨c, more, rfl⟩ := List.exists_cons_of_ne_nil filled
    rw [← Bool.not_eq_true]
    intro quote
    exact absurd (inner c List.mem_cons_self) (by simp [isWordOrDash_other (.inl quote)])
  have whole : '@' :: (opening ++ (word ++ (closing ++ gaps))) ++ [':'] ++ rest =
      ("@" : Text) ++ (opening ++ (word ++ (closing ++ (gaps ++ ':' :: rest)))) := by simp
  rw [whole, heading?, Text.after?_append]
  simp only [Option.bind_eq_bind, Option.bind_some, splitQuote_append opens first, run.1,
    List.drop_left, splitQuote_append closes plain.1, colon.2]
  simp [filled, Text.after?]

theorem heading?_eq_some {here name rest : Text} :
    heading? here = some (name, rest) ↔ ∃ head, Heading name head ∧ here = head ++ rest := by
  constructor
  · intro found
    simp only [heading?, Option.bind_eq_bind, Option.bind_eq_some_iff] at found
    obtain ⟨text, sigil, found⟩ := found
    split at found
    · contradiction
    · rename_i filled
      obtain ⟨left, colon, same⟩ := Option.bind_eq_some_iff.mp found
      cases same
      obtain ⟨opens, first⟩ := splitQuote_spec text
      generalize (splitQuote text).1 = opening, (splitQuote text).2 = body at *
      have second := List.prefix_iff_eq_append.mp (List.takeWhile_prefix Text.isWordOrDash (l := body))
      have inner : ∀ c ∈ body.takeWhile Text.isWordOrDash, Text.isWordOrDash c = true :=
        List.all_eq_true.mp List.all_takeWhile
      generalize body.takeWhile Text.isWordOrDash = word at *
      obtain ⟨closes, third⟩ := splitQuote_spec (body.drop word.length)
      generalize (splitQuote (body.drop word.length)).1 = closing,
        (splitQuote (body.drop word.length)).2 = tail at *
      have fourth : tail.takeWhile isGap ++ tail.dropWhile isGap = tail :=
        List.takeWhile_append_dropWhile
      have apart : ∀ c ∈ tail.takeWhile isGap, isGap c = true :=
        List.all_eq_true.mp List.all_takeWhile
      generalize tail.takeWhile isGap = gaps at *
      refine ⟨_, .mk opens (by simpa using filled) inner closes apart, ?_⟩
      rw [Text.after?_eq_some.mp colon] at fourth
      rw [Text.after?_eq_some.mp sigil, ← first, ← second, ← third, ← fourth]
      simp
  · rintro ⟨head, heading, rfl⟩
    exact heading?_of_heading heading rest

/-- What may stand between the sigil and the colon of a heading. -/
def isHeadChar (c : Char) : Bool := Text.isWordOrDash c || isQuote c || isGap c

theorem IsMark.quote {mark : Text} (is : IsMark mark) : ∀ c ∈ mark, isQuote c = true := by
  rcases is with rfl | ⟨c, quote, rfl⟩
  · exact List.forall_mem_nil _
  · simpa using quote

theorem Heading.inner {name head : Text} (heading : Heading name head) :
    ∃ inner, head = '@' :: inner ++ [':'] ∧ ∀ c ∈ inner, isHeadChar c = true := by
  obtain ⟨opens, _, word, closes, apart⟩ := heading
  refine ⟨_, rfl, fun c member => ?_⟩
  simp only [List.mem_append] at member
  simp only [isHeadChar, Bool.or_eq_true]
  rcases member with opening | inside | closing | gap
  · exact .inl (.inr (opens.quote c opening))
  · exact .inl (.inl (word c inside))
  · exact .inl (.inr (closes.quote c closing))
  · exact .inr (apart c gap)

theorem heading_plain {name spaces : Text} (named : IsName name)
    (blank : ∀ c ∈ spaces, c = ' ') : Heading name (name ++ spaces ++ [':']) := by
  obtain ⟨word, rfl, filled, inner⟩ := named
  refine .mk (.inl rfl) filled inner (.inl rfl) fun c member => ?_
  rw [blank c member]
  decide

theorem Heading.notMem {name head : Text} (heading : Heading name head) {c : Char}
    (other : c ≠ '@' ∧ c ≠ ':' ∧ isHeadChar c = false) : c ∉ head := by
  obtain ⟨inner, rfl, chars⟩ := heading.inner
  intro member
  rcases List.mem_append.mp member with start | colon
  · rcases List.mem_cons.mp start with sigil | inside
    · exact other.1 sigil
    · exact absurd (chars c inside) (by simp [other.2.2])
  · exact other.2.1 (List.mem_singleton.mp colon)

theorem declared_eq_some {before : Option Char} {here left : Text} {v : Variable} :
    declared before here = some (v, left) ↔ ∃ head value, Heading v.name head ∧ ';' ∉ value ∧
      here = head ++ (value ++ ';' :: left) ∧ v.value = Text.trim value := by
  rw [declared_eq, Option.bind_eq_some_iff]
  constructor
  · rintro ⟨⟨name, text⟩, found, cut⟩
    obtain ⟨⟨value, rest⟩, known, same⟩ := Option.map_eq_some_iff.mp cut
    cases same
    obtain ⟨head, heading, rfl⟩ := heading?_eq_some.mp found
    obtain ⟨clean, rfl⟩ := Text.cut?_char.mp known
    exact ⟨head, value, heading, clean, rfl, rfl⟩
  · rintro ⟨head, value, heading, clean, rfl, trimmed⟩
    refine ⟨_, heading?_of_heading heading _, ?_⟩
    simp only [Text.cut?_char.mpr ⟨clean, rfl⟩, Option.map_some, ← trimmed]

theorem declared_local : declared.Local where
  blind _ _ _ := rfl
  covers found := by
    obtain ⟨head, value, heading, _, rfl, _⟩ := declared_eq_some.mp found
    obtain ⟨inner, rfl, _⟩ := heading.inner
    exact ⟨'@', inner ++ ':' :: (value ++ [';']), by simp⟩

/-- A declaration that is read as it is rendered. -/
structure Readable (v : Variable) : Prop where
  named : IsName v.name
  trimmed : Text.trim v.value = v.value
  clean : ';' ∉ v.value

theorem readable_of_mem_extract {text : Text} {v : Variable} (member : v ∈ extract text) :
    v.Readable := by
  obtain ⟨_, _, _, found⟩ := Text.matched_of_mem_findAll member
  obtain ⟨_, value, _, clean, _, trimmed⟩ := declared_eq_some.mp found
  refine ⟨extract_name member, ?_, ?_⟩
  · rw [trimmed, Text.trim_trim]
  · exact fun inside => clean (Text.trim_subset value (trimmed ▸ inside))

theorem extract_render {v : Variable} (readable : v.Readable) (rest : Text) :
    extract (v.render ++ "\n" ++ rest) = v :: extract rest := by
  have found : declared none (v.render ++ "\n" ++ rest) = some (v, '\n' :: rest) := by
    have heading := heading_plain readable.named (List.forall_mem_nil _)
    refine declared_eq_some.mpr ⟨_, ' ' :: v.value, heading, ?_, ?_, ?_⟩
    · exact List.not_mem_cons_of_ne_of_not_mem (by decide) readable.clean
    · simp [render]
    · rw [Text.trim_space_cons, readable.trimmed]
  have feed : declared none ('\n' :: rest) = none := rfl
  rw [extract, Text.findAll_match declared_local found, Text.findAll_char declared_local feed, extract]

/-- A line for each declaration. -/
def listing (declared : List Variable) : Text := declared.flatMap fun v => v.render ++ "\n"

theorem extract_listing {declared : List Variable} (readable : ∀ v ∈ declared, v.Readable)
    (rest : Text) : extract (listing declared ++ rest) = declared ++ extract rest := by
  induction declared with
  | nil => rfl
  | cons v declared ih =>
    obtain ⟨first, later⟩ := List.forall_mem_cons.mp readable
    have lines : listing (v :: declared) = v.render ++ "\n" ++ listing declared :=
      List.flatMap_cons
    rw [lines, List.append_assoc, extract_render first, ih later, List.cons_append]

theorem Walk.value {table : Bindings} {name value : Text} {names : List Text}
    (walk : Walk table name names value) : ∃ last, table.get? last = some value := by
  induction walk with
  | last bound _ => exact ⟨_, bound⟩
  | next _ _ _ ih => exact ih

theorem terminal_value {declared : List Variable} {v : Variable} {value : Text} (member : v ∈ declared)
    (ends : terminal (Bindings.ofVariables declared) v = .ok (some value)) :
    ∃ other ∈ declared, other.value = value := by
  have bound : ∀ {name value : Text}, (Bindings.ofVariables declared).get? name = some value →
      ∃ other ∈ declared, other.value = value := by
    intro name value found
    rcases Bindings.mem_extend (Bindings.mem_of_get? found) with empty | listed
    · contradiction
    · obtain ⟨other, known, same⟩ := List.mem_map.mp listed
      exact ⟨other, known, congrArg Prod.snd same⟩
  unfold terminal at ends
  split at ends
  · split at ends
    · rename_i reached
      cases ends
      obtain ⟨_, walk⟩ := resolve_eq_value.mp reached
      obtain ⟨_, found⟩ := walk.value
      exact bound found
    · cases ends
    · cases ends
  · cases ends
    exact ⟨v, member, rfl⟩

end Variable

namespace Symbol

/-- Every symbol can be declared and read again. -/
def Readable (symbols : Bindings) : Prop :=
  ∀ entry ∈ symbols.entries, Variable.Readable ⟨entry.1, entry.2⟩

theorem readable_parse (text : Text) : Readable (Bindings.parse text) := by
  intro entry member
  rcases Bindings.mem_extend member with empty | listed
  · contradiction
  · obtain ⟨v, found, rfl⟩ := List.mem_map.mp listed
    exact Variable.readable_of_mem_extract found

theorem readable_colors {text : Text} {classifier : Classifier} {colors : Bindings}
    (done : Variable.colors (Variable.extract text) classifier = .ok colors) : Readable colors := by
  intro entry member
  rcases Variable.mem_bindColors done member with empty | ⟨v, found, same, ends⟩
  · contradiction
  · obtain ⟨other, listed, value⟩ := Variable.terminal_value found ends
    have own := Variable.readable_of_mem_extract found
    have last := Variable.readable_of_mem_extract listed
    exact ⟨same ▸ own.named, value ▸ last.trimmed, value ▸ last.clean⟩

theorem readable_merge {colors raw : Bindings} (first : Readable colors) (second : Readable raw) :
    Readable (merge colors raw) := by
  intro entry member
  rcases Bindings.mem_extend member with known | known
  · exact first entry known
  · exact second entry known

end Symbol
end ColorTheme
