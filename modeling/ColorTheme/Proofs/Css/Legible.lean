import ColorTheme.Css.Parser
import ColorTheme.Proofs.Css.Lookahead
import ColorTheme.Proofs.Css.Plain

/-!
Reading what was written. A node is legible if each of its texts, in the place where it is written,
is read as one part that holds the text again; a legible sheet is read as it was written. -/
namespace ColorTheme.Css

namespace Token

theorem nestAll_append (front back : List Token) (nesting : List Bracket) :
    nestAll (front ++ back) nesting = nestAll back (nestAll front nesting) := List.foldl_append

theorem splitOutside_pass {stop : Token → Bool} {nesting : List Bracket} {ts : List Token}
    (passed : (splitOutside stop nesting ts).2 = []) (more : List Token) :
    splitOutside stop nesting (ts ++ more) =
      (ts ++ (splitOutside stop (nestAll ts nesting) more).1,
        (splitOutside stop (nestAll ts nesting) more).2) := by
  induction ts generalizing nesting with
  | nil => rfl
  | cons t ts ih =>
    unfold splitOutside at passed
    split at passed
    · simp at passed
    · rename_i goes
      have inner := ih passed
      rw [List.cons_append, splitOutside, if_neg goes, inner]
      rfl

/-- All brackets are closed again, and outside of them nothing ends the part. -/
structure Part (ends : Token → Bool) (ts : List Token) : Prop where
  passed : (splitOutside ends [] ts).2 = []
  closed : nestAll ts [] = []

namespace Part

variable {ends : Token → Bool} {ts more : List Token}

theorem nil : Part ends [] := ⟨rfl, rfl⟩

theorem split (part : Part ends ts) {t : Token} (last : ends t = true) (rest : List Token) :
    splitOutside ends [] (ts ++ t :: rest) = (ts, t :: rest) := by
  rw [splitOutside_pass part.passed, part.closed]
  simp [splitOutside, last]

theorem append (part : Part ends ts) (next : Part ends more) : Part ends (ts ++ more) where
  passed := by
    rw [splitOutside_pass part.passed, part.closed]
    exact next.passed
  closed := by rw [nestAll_append, part.closed, next.closed]

theorem cons {t : Token} (level : t.nest [] = []) (goes : ends t = false) (part : Part ends ts) :
    Part ends (t :: ts) where
  passed := by
    rw [splitOutside, if_neg (by simp [goes]), level]
    exact part.passed
  closed := by
    rw [nestAll, List.foldl_cons, level]
    exact part.closed

theorem mono {wider : Token → Bool} (part : Part wider ts)
    (narrow : ∀ t, ends t = true → wider t = true) : Part ends ts := by
  refine ⟨?_, part.closed⟩
  have passed := part.passed
  generalize ([] : List Bracket) = nesting at passed ⊢
  clear part
  induction ts generalizing nesting with
  | nil => rfl
  | cons t ts ih =>
    unfold splitOutside at passed
    split at passed
    · simp at passed
    · rename_i goes
      rw [splitOutside, if_neg ?_]
      · exact ih _ passed
      · simp only [Bool.and_eq_true, not_and] at goes ⊢
        exact fun outside last => goes outside (narrow t last)

end Part

def colonToken : Token := ⟨.colon, [':']⟩
def semicolonToken : Token := ⟨.semicolon, [';']⟩
def openingToken : Token := ⟨.opening .curly, ['{']⟩
def closingToken : Token := ⟨.closing .curly, ['}']⟩

theorem scan_colon (rest : Text) : scan (':' :: rest) = colonToken :: scan rest := scan_cons rfl

theorem scan_semicolon (rest : Text) : scan (';' :: rest) = semicolonToken :: scan rest :=
  scan_cons rfl

theorem scan_opening (rest : Text) : scan ('{' :: rest) = openingToken :: scan rest :=
  scan_cons rfl

theorem scan_closing (rest : Text) : scan ('}' :: rest) = closingToken :: scan rest :=
  scan_cons rfl

theorem scan_space {run rest : Text} (filled : run ≠ []) (spaces : ∀ c ∈ run, isSpace c = true)
    (closed : rest.head?.any isSpace = false) :
    scan (run ++ rest) = ⟨.space, run⟩ :: scan rest := by
  obtain ⟨taken, dropped⟩ := Text.run_append spaces closed
  obtain ⟨c, more, rfl⟩ := List.exists_cons_of_ne_nil filled
  have first : isSpace c = true := spaces c List.mem_cons_self
  apply scan_cons
  rw [List.cons_append] at taken dropped ⊢
  rw [List.dropWhile_cons_of_pos first] at dropped
  simp [next?, first, ofSpan, taken, dropped]

theorem isDigit_of_isNameStart {c : Char} (starts : isNameStart c = true) :
    Text.isDigit c = false := by
  have ascii : ∀ n < 128, isNameStart (Char.ofNat n) = true →
      Text.isDigit (Char.ofNat n) = false := by decide
  by_contra digit
  rw [Bool.not_eq_false] at digit
  have small : c.toNat < 128 := Text.isAsciiAlphanumeric_lt
    (by simp [Text.isAsciiAlphanumeric, digit])
  have known := ascii c.toNat small
  rw [Char.ofNat_toNat] at known
  exact Bool.false_ne_true ((known starts).symm.trans digit)

theorem ne_of_isNameStart {c d : Char} (starts : isNameStart c = true)
    (stops : isNameStart d = false) : c ≠ d := by
  rintro rfl
  exact Bool.false_ne_true (stops.symm.trans starts)

theorem isSpace_of_isNameStart {c : Char} (starts : isNameStart c = true) : isSpace c = false := by
  have blank := ne_of_isNameStart starts (d := ' ') (by decide)
  have tab := ne_of_isNameStart starts (d := '\t') (by decide)
  have feed := ne_of_isNameStart starts (d := '\n') (by decide)
  have carriage := ne_of_isNameStart starts (d := '\r') (by decide)
  have page := ne_of_isNameStart starts (d := '\x0c') (by decide)
  simp [isSpace, isNewline, blank, tab, feed, carriage, page]


/-- In front of the character the text is read as these tokens, whatever comes behind it. -/
def Reads (text : Text) (stop : Char) (ts : List Token) : Prop :=
  ∀ rest, scan (text ++ stop :: rest) = ts ++ scan (stop :: rest)

theorem scan_eq_cons {text : Text} {t : Token} {ts : List Token} (scanned : scan text = t :: ts) :
    next? text = some (t, source ts) ∧ scan (source ts) = ts := by
  cases text with
  | nil => contradiction
  | cons c rest =>
    obtain ⟨⟨first, left⟩, found⟩ : ∃ pair, next? (c :: rest) = some pair := ⟨_, rfl⟩
    rw [scan_cons found] at scanned
    obtain ⟨rfl, rfl⟩ := List.cons.inj scanned
    rw [source_scan]
    exact ⟨found, rfl⟩

theorem source_append (front back : List Token) :
    source (front ++ back) = source front ++ source back := List.flatMap_append

/-- It is enough that nothing at all comes behind the character. -/
theorem Reads.of_scan {text : Text} {stop : Char} {ts : List Token}
    (calm : ".+-!\\".toList.contains stop = false)
    (scanned : scan (text ++ [stop]) = ts ++ scan [stop]) : Reads text stop ts := by
  intro rest
  induction ts generalizing text with
  | nil =>
    have spelled := congrArg source scanned
    rw [List.nil_append, source_scan, source_scan] at spelled
    obtain rfl : text = [] := by simpa using spelled
    rfl
  | cons t ts ih =>
    rw [List.cons_append] at scanned
    obtain ⟨found, later⟩ := scan_eq_cons scanned
    rw [source_append, source_scan] at found later
    have whole := (next?_covers found).2
    rw [← List.append_assoc, List.append_cancel_right_eq] at whole
    subst whole
    rw [List.append_assoc] at found ⊢
    have again := next?_seen ((Seen.stop calm rest).append (source ts)) found
    rw [scan_cons again, ih later]
    rfl

end Token

/-- The text is read as the tokens of one part, and what is kept of them is the stored text. -/
structure Kept (ends : Token → Bool) (text : Text) (stop : Char) (stored : Text)
    (ts : List Token) : Prop where
  reads : Token.Reads text stop ts
  part : Token.Part ends ts
  content : Token.content ts = stored

/-- A name that is written without escapes. -/
def Spelled (name : Text) : Prop :=
  startsName name = true ∧ ∀ c ∈ name, isNamePart c = true ∧ c ≠ '\x00'

instance (name : Text) : Decidable (Spelled name) :=
  decidable_of_iff
    (startsName name = true ∧ name.all (fun c => isNamePart c && c ≠ '\x00') = true)
    (by simp [Spelled])

namespace Spelled

variable {name : Text}

/-- It begins with a letter, or with a hyphen before a letter or another hyphen. -/
theorem first (spelled : Spelled name) : ∃ c rest, name = c :: rest ∧ (isNameStart c = true ∨
    c = '-' ∧ rest.head?.any (fun d => isNameStart d || d = '-') = true) := by
  obtain ⟨starts, parts⟩ := spelled
  unfold startsName at starts
  split at starts
  · cases starts
  · cases starts
  · rename_i c rest
    have other : c ≠ '\\' := by
      rintro rfl
      exact absurd (parts '\\' (by simp)).1 (by decide)
    exact ⟨'-', c :: rest, rfl, .inr ⟨rfl, by simpa [other] using starts⟩⟩
  · exact absurd (parts '\\' List.mem_cons_self).1 (by decide)
  · rename_i c rest _ _ _
    exact ⟨c, rest, rfl, .inl starts⟩

theorem starts (spelled : Spelled name) (rest : Text) : startsName (name ++ rest) = true := by
  obtain ⟨c, more, rfl, start | ⟨rfl, follows⟩⟩ := spelled.first
  · have minus := Token.ne_of_isNameStart start (d := '-') (by decide)
    have escape := Token.ne_of_isNameStart start (d := '\\') (by decide)
    simp_all [startsName]
  · cases more with
    | nil => contradiction
    | cons d more =>
      simp only [List.head?_cons, Option.any_some] at follows
      simp only [List.cons_append, startsName, follows, Bool.true_or]

theorem span (spelled : Spelled name) {c : Char} (stops : isNamePart c = false) (other : c ≠ '\\')
    (rest : Text) : nameSpan .outside (name ++ c :: rest) = (name, c :: rest) :=
  nameSpan_run (fun d member => (spelled.2 d member).1) (by simp [stops, other])

theorem decode (spelled : Spelled name) : decodeName .outside 0 name = name := by
  refine decodeName_plain fun c member => ⟨?_, (spelled.2 c member).2⟩
  rintro rfl
  exact absurd (spelled.2 '\\' member).1 (by decide)

end Spelled

namespace Token

theorem next?_property {name : Text} (spelled : Spelled name) (rest : Text) :
    next? (name ++ ':' :: rest) = some (⟨.ident name, name⟩, ':' :: rest) := by
  have starts := spelled.starts (':' :: rest)
  have ident : named (name ++ ':' :: rest) = (⟨.ident name, name⟩, ':' :: rest) := by
    simp only [named, spelled.span (by decide : isNamePart ':' = false) (by decide) rest,
      spelled.decode]
    rfl
  have closer : Text.startsWith "-->" (name ++ ':' :: rest) = false := by
    rw [← Bool.not_eq_true]
    intro closer
    obtain ⟨tail, after⟩ := Option.isSome_iff_exists.mp closer
    have whole : name ++ ':' :: rest = '-' :: '-' :: '>' :: tail := Text.after?_eq_some.mp after
    rcases name with _ | ⟨c, _ | ⟨d, _ | ⟨e, more⟩⟩⟩
    · simp at whole
    · simp at whole
    · simp at whole
    · obtain rfl : e = '>' := by simp_all
      exact absurd (spelled.2 '>' (by simp)).1 (by decide)
  obtain ⟨c, more, rfl, start⟩ := spelled.first
  have number : startsNumber (c :: more ++ ':' :: rest) = false := by
    rcases start with start | ⟨rfl, follows⟩
    · have plus := ne_of_isNameStart start (d := '+') (by decide)
      have minus := ne_of_isNameStart start (d := '-') (by decide)
      have point := ne_of_isNameStart start (d := '.') (by decide)
      simp [startsNumber, signSpan, plus, minus, startsDigit, isDigit_of_isNameStart start, point]
    · cases more with
      | nil => contradiction
      | cons d more =>
        have digit : Text.isDigit d = false ∧ d ≠ '.' := by
          simp only [List.head?_cons, Option.any_some, Bool.or_eq_true, decide_eq_true_eq]
            at follows
          rcases follows with start | rfl
          · exact ⟨isDigit_of_isNameStart start, ne_of_isNameStart start (by decide)⟩
          · decide
        simp [startsNumber, signSpan, startsDigit, digit]
  have other : ∀ d, isNameStart d = false → d ≠ '-' → c ≠ d := by
    intro d stops minus
    rcases start with start | ⟨rfl, _⟩
    · exact ne_of_isNameStart start stops
    · exact minus.symm
  have space : isSpace c = false := by
    rcases start with start | ⟨rfl, _⟩
    · exact isSpace_of_isNameStart start
    · rfl
  have quote := other '"' (by decide) (by decide)
  have apostrophe := other '\'' (by decide) (by decide)
  have hash := other '#' (by decide) (by decide)
  have sign := other '@' (by decide) (by decide)
  simp only [List.cons_append] at starts number ident closer ⊢
  simp only [next?, space, quote, apostrophe, hash, sign, number, starts, closer, ident]
  rfl

theorem next?_keyword {name : Text} (spelled : Spelled name) {c : Char}
    (stops : isNamePart c = false) (other : c ≠ '\\') (rest : Text) :
    next? ('@' :: name ++ c :: rest) = some (⟨.atKeyword name, '@' :: name⟩, c :: rest) := by
  have starts := spelled.starts (c :: rest)
  have read : next? ('@' :: (name ++ c :: rest)) = some (ofSpan
      (.atKeyword (decodeName .outside 0 (nameSpan .outside (name ++ c :: rest)).1))
      (Span.cons '@' (nameSpan .outside (name ++ c :: rest)))) := by
    simp only [next?, starts]
    rfl
  rw [List.cons_append, read, spelled.span stops other, spelled.decode]
  rfl

/-- Neither filler nor the keyword of an at-rule. -/
def startsRule (t : Token) : Prop := t.isFiller = false ∧ ∀ name, t.kind ≠ .atKeyword name

/-- What ends the value of a declaration inside a rule. -/
def endsValue (t : Token) : Bool := t.isSemicolon || t.closesBlock

end Token

structure Declaration.Legible (d : Declaration) : Prop where
  named : Spelled d.property
  value : ∃ ts, Kept Token.endsValue (' ' :: d.value) ';' d.value ts

structure Rule.Legible (r : Rule) : Prop where
  filled : r.selector ≠ []
  selector : ∃ t ts, Kept Token.opensBlock (r.selector ++ [' ']) '{' r.selector (t :: ts) ∧
    t.startsRule
  declarations : ∀ d ∈ r.declarations, d.Legible

/-- What is written between the name of an at-rule and its block or semicolon. -/
def AtRule.head (r : AtRule) : Text :=
  (if r.prelude.isEmpty then [] else ' ' :: r.prelude) ++ if r.block.isSome then [' '] else []

def AtRule.stop (r : AtRule) : Char := if r.block.isSome then '{' else ';'

structure AtRule.Legible (r : AtRule) : Prop where
  named : Spelled r.name
  prelude : ∃ ts, Kept Token.endsPrelude r.head r.stop r.prelude ts
  block : ∀ block ∈ r.block, ∃ ts,
    Kept Token.closesBlock ('\n' :: block ++ ['\n']) '}' block ts

def Node.Legible : Node → Prop
  | .rule r => r.Legible
  | .atRule r => r.Legible

theorem Declaration.listOfTokens_blank {t : Token} (blank : t.isBlank = true) (rest : List Token) :
    Declaration.listOfTokens (t :: rest) = Declaration.listOfTokens rest := by
  rw [Declaration.listOfTokens]
  simp [blank]

theorem Declaration.listOfTokens_cons {property name : Text} {value : List Token}
    (part : Token.Part Token.isSemicolon value) (rest : List Token) :
    Declaration.listOfTokens
        (⟨.ident property, name⟩ :: Token.colonToken :: value ++ Token.semicolonToken :: rest) =
      ⟨property, Token.content value⟩ :: Declaration.listOfTokens rest := by
  have whole : Token.Part Token.isSemicolon (Token.colonToken :: value) := part.cons rfl rfl
  have parts := whole.split (t := Token.semicolonToken) rfl rest
  have nest : (⟨.ident property, name⟩ : Token).nest [] = [] := rfl
  simp only [List.cons_append] at parts ⊢
  rw [Declaration.listOfTokens]
  simp only [Token.isBlank, Token.isSemicolon, nest, parts]
  rfl

namespace Token

theorem scan_declaration {d : Declaration} (legible : d.Legible) (rest : Text) : ∃ value,
    scan (d.property ++ ':' :: ' ' :: d.value ++ ';' :: rest) =
      ⟨.ident d.property, d.property⟩ :: colonToken :: value ++ semicolonToken :: scan rest ∧
      Part endsValue value ∧ content value = d.value := by
  obtain ⟨value, kept⟩ := legible.value
  refine ⟨value, ?_, kept.part, kept.content⟩
  have name := scan_cons (next?_property legible.named (' ' :: d.value ++ ';' :: rest))
  simp only [List.append_assoc, List.cons_append] at name ⊢
  rw [name, scan_colon, ← List.cons_append, kept.reads rest, scan_semicolon]

theorem scan_gap {gap rest : Text} (spaces : ∀ c ∈ gap, isSpace c = true)
    (closed : rest.head?.any isSpace = false) :
    scan (gap ++ rest) = (if gap = [] then [] else [⟨.space, gap⟩]) ++ scan rest := by
  split
  · rename_i empty
    rw [empty]
    rfl
  · rename_i filled
    exact scan_space filled spaces closed

end Token

/-- In front of the brace that closes a block the text is read as these declarations. -/
def Body (text : Text) (ds : List Declaration) : Prop := ∀ rest, ∃ ts,
  Token.scan (text ++ '}' :: rest) = ts ++ Token.closingToken :: Token.scan rest ∧
    Token.Part Token.closesBlock ts ∧ Declaration.listOfTokens ts = ds

namespace Body

variable {text : Text} {ds : List Declaration}

theorem nil : Body [] [] := by
  intro rest
  refine ⟨[], Token.scan_closing rest, Token.Part.nil, ?_⟩
  rw [Declaration.listOfTokens]

theorem gap {gap : Text} (spaces : ∀ c ∈ gap, isSpace c = true)
    (closed : text.head?.any isSpace = false) (body : Body text ds) : Body (gap ++ text) ds := by
  intro rest
  obtain ⟨ts, scanned, part, read⟩ := body rest
  have behind : (text ++ '}' :: rest).head?.any isSpace = false := by
    cases text with
    | nil => rfl
    | cons c text => exact closed
  have whole := Token.scan_gap spaces behind
  rw [scanned, ← List.append_assoc, ← List.append_assoc] at whole
  refine ⟨_, whole, ?_, ?_⟩
  · split
    · exact part
    · exact part.cons rfl rfl
  · split
    · exact read
    · rw [List.singleton_append, Declaration.listOfTokens_blank rfl, read]

theorem cons {d : Declaration} (legible : d.Legible) (body : Body text ds) :
    Body (d.property ++ ": " ++ d.value ++ ";" ++ text) (d :: ds) := by
  intro rest
  obtain ⟨ts, later, part, read⟩ := body rest
  obtain ⟨value, scanned, inside, content⟩ := Token.scan_declaration legible (text ++ '}' :: rest)
  refine ⟨⟨.ident d.property, d.property⟩ :: Token.colonToken :: value ++
    Token.semicolonToken :: ts, ?_, ?_, ?_⟩
  · rw [later] at scanned
    simpa using scanned
  · have value : Token.Part Token.closesBlock value :=
      inside.mono fun t closes => by simp [Token.endsValue, closes]
    have tail : Token.Part Token.closesBlock (Token.semicolonToken :: ts) := part.cons rfl rfl
    exact ((value.append tail).cons rfl rfl).cons rfl rfl
  · have value : Token.Part Token.isSemicolon value :=
      inside.mono fun t ends => by simp [Token.endsValue, ends]
    rw [Declaration.listOfTokens_cons value, content, read]

theorem head_cons {d : Declaration} (legible : d.Legible) (text : Text) :
    (d.property ++ ": " ++ d.value ++ ";" ++ text).head?.any isSpace = false := by
  obtain ⟨c, more, spelled, start | ⟨rfl, _⟩⟩ := legible.named.first
  · rw [spelled]
    exact Token.isSpace_of_isNameStart start
  · rw [spelled]
    rfl

theorem render (legible : ∀ d ∈ ds, d.Legible) {run : Text} (spaces : ∀ c ∈ run, isSpace c = true) :
    Body (run ++ ds.flatMap Declaration.render) ds := by
  induction ds generalizing run with
  | nil => exact nil.gap spaces rfl
  | cons d ds ih =>
    obtain ⟨first, legible⟩ := List.forall_mem_cons.mp legible
    have feed : ∀ c ∈ ("\n" : Text), isSpace c = true := List.all_eq_true.mp (by decide)
    have later := ih legible feed
    have text : run ++ (d :: ds).flatMap Declaration.render = run ++ "  " ++
        (d.property ++ ": " ++ d.value ++ ";" ++ ("\n" ++ ds.flatMap Declaration.render)) := by
      simp [Declaration.render]
    rw [text]
    have margin : ∀ c ∈ run ++ "  ", isSpace c = true :=
      List.forall_mem_append.mpr ⟨spaces, List.all_eq_true.mp (by decide)⟩
    apply gap margin _ (later.cons first)
    exact head_cons first _

end Body

/-- A rule whose body is read as its declarations is read as it stands, whatever follows it. -/
theorem Rule.step_body {r : Rule} (legible : r.Legible) {body : Text}
    (holds : Body body r.declarations) (rest : Text) : ∃ t ts,
    Token.scan (r.selector ++ " \x7b" ++ body ++ "\x7d\n" ++ rest) = t :: ts ∧ t.startsRule ∧
      Rule.step (t :: ts) = .node (.rule r) (Token.scan ('\n' :: rest)) := by
  obtain ⟨t, ts, kept, starts⟩ := legible.selector
  obtain ⟨block, later, part, read⟩ := holds ('\n' :: rest)
  have text : r.selector ++ " \x7b" ++ body ++ "\x7d\n" ++ rest =
      r.selector ++ [' '] ++ '{' :: (body ++ '}' :: '\n' :: rest) := by simp
  have scanned : Token.scan (r.selector ++ " \x7b" ++ body ++ "\x7d\n" ++ rest) =
      t :: ts ++ Token.openingToken ::
        (block ++ Token.closingToken :: Token.scan ('\n' :: rest)) := by
    rw [text, kept.reads, Token.scan_opening, later]
  refine ⟨t, _, scanned, starts, ?_⟩
  have prelude := kept.part.split (t := Token.openingToken) rfl
    (block ++ Token.closingToken :: Token.scan ('\n' :: rest))
  have inner := part.split (t := Token.closingToken) rfl (Token.scan ('\n' :: rest))
  have filled := legible.filled
  simp only [List.cons_append] at prelude ⊢
  rw [Rule.step]
  simp [prelude, kept.content, filled, Token.splitBlock, inner, read]

theorem AtRule.head_stop (r : AtRule) (tail : Text) : ∃ c more,
    r.head ++ r.stop :: tail = c :: more ∧ isNamePart c = false ∧ c ≠ '\\' := by
  cases empty : r.prelude.isEmpty with
  | false => exact ⟨' ', _, by simp [AtRule.head, empty]; rfl, by decide⟩
  | true =>
    cases blockless : r.block.isSome with
    | false => exact ⟨';', _, by simp [AtRule.head, AtRule.stop, empty, blockless]; rfl, by decide⟩
    | true => exact ⟨' ', _, by simp [AtRule.head, empty, blockless]; rfl, by decide⟩

theorem AtRule.step_render {r : AtRule} (legible : r.Legible) (rest : Text) : ∃ ts,
    Token.scan (r.render ++ rest) = ⟨.atKeyword r.name, '@' :: r.name⟩ :: ts ∧
      AtRule.step r.name ts = .node (.atRule r) (Token.scan ('\n' :: rest)) := by
  obtain ⟨prelude, kept⟩ := legible.prelude
  have scanned : ∀ tail, Token.scan ('@' :: r.name ++ (r.head ++ r.stop :: tail)) =
      ⟨.atKeyword r.name, '@' :: r.name⟩ :: (prelude ++ Token.scan (r.stop :: tail)) := by
    intro tail
    obtain ⟨c, more, spelled, stops, other⟩ := r.head_stop tail
    have keyword := Token.next?_keyword legible.named stops other more
    rw [← spelled] at keyword
    rw [Token.scan_cons keyword, kept.reads]
  cases absent : r.block with
  | none =>
    have stop : r.stop = ';' := by simp [AtRule.stop, absent]
    have text : r.render ++ rest = '@' :: r.name ++ (r.head ++ r.stop :: '\n' :: rest) := by
      simp [AtRule.render, AtRule.head, absent, stop]
    have ends := kept.part.split (t := Token.semicolonToken) rfl (Token.scan ('\n' :: rest))
    refine ⟨_, by rw [text, scanned, stop, Token.scan_semicolon], ?_⟩
    rw [AtRule.step]
    simp only [ends, kept.content]
    simp only [show Token.semicolonToken.opensBlock = false from rfl, Bool.false_eq_true, if_false,
      ← absent]
  | some block =>
    obtain ⟨inside, held⟩ := legible.block block absent
    have stop : r.stop = '{' := by simp [AtRule.stop, absent]
    have text : r.render ++ rest = '@' :: r.name ++
        (r.head ++ r.stop :: ('\n' :: block ++ ['\n'] ++ '}' :: '\n' :: rest)) := by
      simp [AtRule.render, AtRule.head, absent, stop]
    have ends := kept.part.split (t := Token.openingToken) rfl
      (inside ++ Token.closingToken :: Token.scan ('\n' :: rest))
    have body := held.part.split (t := Token.closingToken) rfl (Token.scan ('\n' :: rest))
    refine ⟨_, by rw [text, scanned, stop, Token.scan_opening, held.reads, Token.scan_closing], ?_⟩
    rw [AtRule.step]
    simp only [ends, kept.content]
    simp only [show Token.openingToken.opensBlock = true from rfl, if_true, Token.splitBlock, body,
      held.content, List.tail_cons, ← absent]

/-- A character set rule, which is skipped where it comes first. -/
def Node.setsCharset : Node → Bool
  | .rule _ => false
  | .atRule r => decide (r.name.map Text.lowerAscii = "charset".toList)

/-- The text is read as the node, whatever follows it. -/
def Node.Written (node : Node) (text : Text) : Prop := ∀ rest, ∃ t ts,
  Token.scan (text ++ rest) = t :: ts ∧ t.isFiller = false ∧
    ∀ isFirst, (isFirst && node.setsCharset) = false →
      Node.step isFirst t ts = .node node (Token.scan ('\n' :: rest))

theorem Rule.written {r : Rule} (legible : r.Legible) {body : Text}
    (holds : Body body r.declarations) :
    (Node.rule r).Written (r.selector ++ " \x7b" ++ body ++ "\x7d\n") := by
  intro rest
  obtain ⟨t, ts, scanned, starts, step⟩ := Rule.step_body legible holds rest
  refine ⟨t, ts, scanned, starts.1, fun isFirst _ => ?_⟩
  unfold Node.step
  split
  · rename_i name kind
    exact absurd kind (starts.2 name)
  · exact step

theorem Node.Legible.written {node : Node} (legible : node.Legible) : node.Written node.render := by
  cases node with
  | rule r =>
    have feed : ∀ c ∈ ("\n" : Text), isSpace c = true := List.all_eq_true.mp (by decide)
    have holds := Body.render legible.declarations feed
    have text : (Node.rule r).render = r.selector ++ " \x7b" ++
        ("\n" ++ r.declarations.flatMap Declaration.render) ++ "\x7d\n" := by
      simp [Node.render, Rule.render]
    rw [text]
    exact Rule.written legible holds
  | atRule r =>
    intro rest
    obtain ⟨ts, scanned, step⟩ := AtRule.step_render legible rest
    refine ⟨_, ts, scanned, rfl, fun isFirst kept => ?_⟩
    simp only [Node.setsCharset] at kept
    simp only [Node.step, kept, Bool.false_eq_true, if_false, step]

theorem Sheet.ofTokens_filler {t : Token} (filler : t.isFiller = true) (isFirst : Bool)
    (rest : List Token) : Sheet.ofTokens isFirst (t :: rest) = Sheet.ofTokens isFirst rest := by
  rw [Sheet.ofTokens, if_pos filler]

theorem Sheet.ofTokens_item {t : Token} (item : t.isFiller = false) (isFirst : Bool)
    (rest : List Token) : Sheet.ofTokens isFirst (t :: rest) =
      match Node.step isFirst t rest with
      | .stopped stop => .error stop
      | .skipped more => Sheet.ofTokens false more
      | .node node more => (Sheet.ofTokens false more).map (node :: ·) := by
  rw [Sheet.ofTokens, if_neg (by simp [item])]
  split
  · rename_i known
    rw [known]
  · rename_i known
    rw [known]
  · rename_i known
    rw [known]

/-- Space in front of a sheet makes no difference. -/
theorem Sheet.ofTokens_newline (isFirst : Bool) (css : Text) :
    Sheet.ofTokens isFirst (Token.scan ('\n' :: css)) =
      Sheet.ofTokens isFirst (Token.scan css) := by
  have whole : css.takeWhile isSpace ++ css.dropWhile isSpace = css :=
    List.takeWhile_append_dropWhile
  have closed := Text.dropWhile_closed isSpace css
  have spaces : ∀ c ∈ css.takeWhile isSpace, isSpace c = true := fun _ => List.mem_takeWhile_imp
  have longer := Token.scan_space (List.cons_ne_nil '\n' (css.takeWhile isSpace))
    (List.forall_mem_cons.mpr ⟨by decide, spaces⟩) closed
  rw [List.cons_append, whole] at longer
  rw [longer, Sheet.ofTokens_filler rfl]
  by_cases unspaced : css.takeWhile isSpace = []
  · rw [unspaced, List.nil_append] at whole
    rw [whole]
  · have shorter := Token.scan_space unspaced spaces closed
    rw [whole] at shorter
    rw [shorter, Sheet.ofTokens_filler rfl]

/-- A character set rule comes first. -/
def Sheet.setsCharset (sheet : Sheet) : Bool := sheet.head?.any Node.setsCharset

theorem Sheet.ofTokens_written {α : Type} {items : List α} {node : α → Node} {text : α → Text}
    (written : ∀ item ∈ items, (node item).Written (text item)) (isFirst : Bool)
    (kept : (isFirst && Sheet.setsCharset (items.map node)) = false) (css : Text) :
    Sheet.ofTokens isFirst (Token.scan (items.flatMap text ++ css)) =
      (Sheet.ofTokens (isFirst && items.isEmpty) (Token.scan css)).map (items.map node ++ ·) := by
  induction items generalizing isFirst with
  | nil =>
    simp only [List.isEmpty_nil, Bool.and_true]
    cases known : Sheet.ofTokens isFirst (Token.scan css) with
    | error stop => simp [known, Except.map]
    | ok sheet => simp [known, Except.map]
  | cons item items ih =>
    obtain ⟨first, written⟩ := List.forall_mem_cons.mp written
    obtain ⟨t, ts, scanned, solid, step⟩ := first (items.flatMap text ++ css)
    rw [List.flatMap_cons, List.append_assoc, scanned, Sheet.ofTokens_item solid, step isFirst kept]
    simp only [Sheet.ofTokens_newline, ih written false rfl]
    cases known : Sheet.ofTokens false (Token.scan css) with
    | error stop => simp [known, Except.map]
    | ok sheet => simp [known, Except.map]

theorem Sheet.ofTokens_render {sheet : Sheet} (legible : ∀ node ∈ sheet, node.Legible)
    (isFirst : Bool) (kept : (isFirst && sheet.setsCharset) = false) (css : Text) :
    Sheet.ofTokens isFirst (Token.scan (sheet.render ++ css)) =
      (Sheet.ofTokens (isFirst && sheet.isEmpty) (Token.scan css)).map (sheet ++ ·) := by
  have written : ∀ node ∈ sheet, Node.Written (id node) node.render :=
    fun node member => (legible node member).written
  have read := Sheet.ofTokens_written written isFirst (by rwa [List.map_id]) css
  rwa [List.map_id] at read

theorem Sheet.parse_eq_ok {css : Text} {sheet : Sheet} :
    Sheet.parse css = .ok sheet ↔ Sheet.ofTokens true (Token.scan css) = .ok sheet := by
  have whole : Sheet.parse css = (Sheet.ofTokens true (Token.scan css)).mapError
      (Stop.error (Token.scan css)) := rfl
  rw [whole]
  cases Sheet.ofTokens true (Token.scan css) with
  | error stop =>
    constructor
    · intro same
      cases same
    · intro same
      cases same
  | ok other =>
    constructor
    · intro same
      cases same
      rfl
    · intro same
      cases same
      rfl

/-- Nodes that are written one after the other are the whole sheet that is read. -/
theorem Sheet.parse_written {α : Type} {items : List α} {node : α → Node} {text : α → Text}
    (written : ∀ item ∈ items, (node item).Written (text item))
    (charset : Sheet.setsCharset (items.map node) = false) :
    Sheet.parse (items.flatMap text) = .ok (items.map node) := by
  have read := Sheet.ofTokens_written written true (by rw [charset, Bool.and_false]) []
  have nothing : Sheet.ofTokens (true && items.isEmpty) (Token.scan []) = .ok [] := by
    rw [Token.scan_nil, Sheet.ofTokens]
  rw [nothing, List.append_nil] at read
  exact Sheet.parse_eq_ok.mpr (by simpa [Except.map] using read)

end ColorTheme.Css
