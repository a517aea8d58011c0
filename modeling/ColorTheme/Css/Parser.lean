import ColorTheme.Css.Sheet
import ColorTheme.Css.Token

/-!
Reading a sheet from its tokens. A rule is a prelude up to a curly block; an at-rule ends at
its block or at a semicolon. Inside a rule whatever is no declaration is skipped to the next
semicolon, while text outside rules that is no rule stops the reading with its place. -/
namespace ColorTheme.Css

/-- Line from 0 and column from 1; the column counts UTF-16 units. -/
structure Location where
  line : Nat
  column : Nat
deriving DecidableEq, Repr

def unitWidth (c : Char) : Nat := if 0x10000 ≤ c.toNat then 2 else 1

/-- The place after a text that starts at `place`; CR LF is one line end. -/
def Location.after (place : Location) : Text → Location
  | [] => place
  | c :: rest =>
    if c = '\r' && rest.head? = some '\n' then place.after rest
    else if isNewline c then Location.after ⟨place.line + 1, 1⟩ rest
    else Location.after { place with column := place.column + unitWidth c } rest

def Location.start : Location := ⟨0, 1⟩

structure ParseError where
  line : Nat
  column : Nat
  snippet : Text
deriving DecidableEq, Repr

def ParseError.message (e : ParseError) : Text :=
  "invalid CSS at line " ++ Text.ofNat e.line ++ ", column " ++ Text.ofNat e.column ++
    ": `" ++ e.snippet ++ "`"

/-- Text without what stands between `/*` and `*/`, or between `/*` and the end. -/
def stripComments : Text → Text :=
  let rec go (inside : Bool) : Text → Text
    | [] => []
    | '/' :: '*' :: rest => if inside then go true ('*' :: rest) else go true rest
    | '*' :: '/' :: rest => if inside then go false rest else '*' :: go false ('/' :: rest)
    | c :: rest => if inside then go true rest else c :: go false rest
  go false

namespace Token

def content (tokens : List Token) : Text := Text.trim (stripComments (source tokens))

def isSemicolon (t : Token) : Bool := t.kind = .semicolon
def opensBlock (t : Token) : Bool := t.kind = .opening .curly
def closesBlock (t : Token) : Bool := t.kind = .closing .curly
def endsPrelude (t : Token) : Bool := t.isSemicolon || t.opensBlock

def splitBlock (ts : List Token) : List Token × List Token :=
  let (inside, rest) := splitOutside closesBlock [] ts
  (inside, rest.tail)

def skipStatement (ts : List Token) : List Token :=
  match (splitOutside endsPrelude [] ts).2 with
  | [] => []
  | t :: rest => if t.opensBlock then (splitBlock rest).2 else rest

theorem splitBlock_length (ts : List Token) : (splitBlock ts).2.length ≤ ts.length := by
  have h := splitOutside_length closesBlock [] ts
  simp only [splitBlock, List.length_tail]
  omega

theorem skipStatement_length (ts : List Token) : (skipStatement ts).length ≤ ts.length := by
  have h := splitOutside_length endsPrelude [] ts
  unfold skipStatement
  split
  · simp
  · rename_i t rest found
    rw [found] at h
    have inner := splitBlock_length rest
    simp only [List.length_cons] at h
    split <;> omega

end Token

def Declaration.ofTokens? : List Token → Option Declaration
  | [] => none
  | name :: rest =>
    match name.kind, rest.dropWhile Token.isBlank with
    | .ident property, colon :: value =>
      if colon.kind = .colon then some ⟨property, Token.content value⟩ else none
    | _, _ => none

def Declaration.listOfTokens (ts : List Token) : List Declaration :=
  match ts with
  | [] => []
  | t :: rest =>
    if t.isBlank || t.isSemicolon then Declaration.listOfTokens rest
    else match t.kind with
      | .atKeyword _ =>
        have := Token.skipStatement_length rest
        Declaration.listOfTokens (Token.skipStatement rest)
      | _ =>
        let parts := Token.splitOutside Token.isSemicolon (t.nest []) rest
        have := Token.splitOutside_length Token.isSemicolon (t.nest []) rest
        (Declaration.ofTokens? (t :: parts.1)).toList ++ Declaration.listOfTokens parts.2.tail
termination_by ts.length
decreasing_by
  all_goals simp only [List.length_cons, List.length_tail]; omega

def Token.isFiller (t : Token) : Bool :=
  t.isBlank || t.kind = .commentOpener || t.kind = .commentCloser

/-- Why a sheet cannot be read further: the tokens from the offending item, those from the
place of the error, and those after the item. -/
structure Stop where
  item : List Token
  place : List Token
  afterItem : List Token

inductive Step
  | node (n : Node) (rest : List Token)
  | skipped (rest : List Token)
  | stopped (s : Stop)

def AtRule.step (name : Text) (ts : List Token) : Step :=
  let (prelude, rest) := Token.splitOutside Token.endsPrelude [] ts
  match rest with
  | [] => .node (.atRule ⟨name, Token.content prelude, none⟩) []
  | t :: rest =>
    if t.opensBlock then
      let (inside, rest) := Token.splitBlock rest
      .node (.atRule ⟨name, Token.content prelude, some (Token.content inside)⟩) rest
    else .node (.atRule ⟨name, Token.content prelude, none⟩) rest

def Rule.step (ts : List Token) : Step :=
  let (prelude, rest) := Token.splitOutside Token.opensBlock [] ts
  match rest with
  | [] => .stopped ⟨ts, [], []⟩
  | brace :: rest =>
    if (Token.content prelude).isEmpty then .stopped ⟨ts, brace :: rest, rest⟩
    else
      let (inside, rest) := Token.splitBlock rest
      .node (.rule ⟨Token.content prelude, Declaration.listOfTokens inside⟩) rest

/-- The item that starts at `t`. A character set rule is skipped where it comes first. -/
def Node.step (isFirst : Bool) (t : Token) (rest : List Token) : Step :=
  match t.kind with
  | .atKeyword name =>
    if isFirst && name.map Text.lowerAscii = "charset" then .skipped (Token.skipStatement rest)
    else AtRule.step name rest
  | _ => Rule.step (t :: rest)

def Step.rest : Step → List Token
  | .node _ rest => rest
  | .skipped rest => rest
  | .stopped _ => []

theorem AtRule.step_length (name : Text) (ts : List Token) :
    (AtRule.step name ts).rest.length ≤ ts.length := by
  have h := Token.splitOutside_length Token.endsPrelude [] ts
  unfold AtRule.step
  dsimp only
  split
  · simp [Step.rest]
  · rename_i t rest found
    have inner := Token.splitBlock_length rest
    rw [found] at h
    simp only [List.length_cons] at h
    split <;> simp only [Step.rest] <;> omega

theorem Rule.step_length (t : Token) (ts : List Token) :
    (Rule.step (t :: ts)).rest.length ≤ ts.length := by
  have h := Token.splitOutside_length Token.opensBlock [] (t :: ts)
  unfold Rule.step
  dsimp only
  split
  · simp [Step.rest]
  · rename_i brace rest found
    have inner := Token.splitBlock_length rest
    rw [found] at h
    simp only [List.length_cons] at h
    split
    · simp [Step.rest]
    · simp only [Step.rest]
      omega

theorem Node.step_length (isFirst : Bool) (t : Token) (rest : List Token) :
    (Node.step isFirst t rest).rest.length ≤ rest.length := by
  unfold Node.step
  split
  · rename_i name _
    split
    · exact Token.skipStatement_length rest
    · exact AtRule.step_length name rest
  · exact Rule.step_length t rest

def Sheet.ofTokens (isFirst : Bool) (ts : List Token) : Except Stop Sheet :=
  match ts with
  | [] => .ok []
  | t :: rest =>
    if t.isFiller then Sheet.ofTokens isFirst rest
    else
      have := Node.step_length isFirst t rest
      match _found : Node.step isFirst t rest with
      | .stopped stop => .error stop
      | .skipped rest => Sheet.ofTokens false rest
      | .node node rest => (Sheet.ofTokens false rest).map (node :: ·)
termination_by ts.length
decreasing_by
  all_goals simp_all only [Step.rest, List.length_cons]; omega

def snippetLength : Nat := 80

def Token.sourceBefore (whole rest : List Token) : Text :=
  source (whole.take (whole.length - rest.length))

def Stop.error (whole : List Token) (stop : Stop) : ParseError :=
  let place := Location.start.after (Token.sourceBefore whole stop.place)
  let item := Token.sourceBefore stop.item stop.afterItem
  ⟨place.line + 1, place.column, (Text.trim item).take snippetLength⟩

/-- Reads a style sheet; the first item that is neither a rule nor an at-rule is an error. -/
def Sheet.parse (css : Text) : Except ParseError Sheet :=
  let tokens := Token.scan css
  (Sheet.ofTokens true tokens).mapError (Stop.error tokens)

end ColorTheme.Css
