import ColorTheme.Text.Search
import ColorTheme.Text.Letter

/-!
Tokens of style sheets. A span function splits a text into a lexeme and what is left, so
the lexemes of a scan are the source text cut into pieces. Names are kept decoded beside
their lexemes; every other token is only its kind and its lexeme. -/
namespace ColorTheme.Css

inductive Bracket | round | square | curly
deriving DecidableEq, Repr

/-- What a token is. A bad string or address is one that the source breaks off. -/
inductive Kind
  | space | comment | commentOpener | commentCloser
  | ident (name : Text) | atKeyword (name : Text) | function (name : Text)
  | opening (bracket : Bracket) | closing (bracket : Bracket)
  | colon | semicolon | string | badString | url | badUrl | number | hash | delimiter
deriving DecidableEq, Repr

structure Token where
  kind : Kind
  text : Text
deriving DecidableEq, Repr

abbrev Span := Text × Text

def Span.cons (c : Char) (s : Span) : Span := (c :: s.1, s.2)

def isNewline (c : Char) : Bool := c = '\n' || c = '\r' || c = '\x0c'
def isSpace (c : Char) : Bool := c = ' ' || c = '\t' || isNewline c
def isNameStart (c : Char) : Bool :=
  ('a' ≤ c && c ≤ 'z') || ('A' ≤ c && c ≤ 'Z') || c = '_' || c = '\x00' || 0x80 ≤ c.toNat

def isNamePart (c : Char) : Bool := isNameStart c || Text.isDigit c || c = '-'

def startsNewline (text : Text) : Bool := text.head?.any isNewline
def startsDigit (text : Text) : Bool := text.head?.any Text.isDigit

/-- A name starts here. After a hyphen any backslash will do, also one before a newline. -/
def startsName : Text → Bool
  | [] => false
  | '-' :: [] => false
  | '-' :: c :: _ => isNameStart c || c = '-' || c = '\\'
  | '\\' :: rest => !startsNewline rest
  | c :: _ => isNameStart c

inductive Escape
  | outside
  | begun
  | digits (left : Nat)
  | carriageReturn
deriving DecidableEq, Repr

/-- The state after a character that belongs to the escape; none if it does not. An escape is
a character, or up to six hexadecimal digits and one space, where CR LF is one. -/
def Escape.step? : Escape → Char → Option Escape
  | .outside, _ => none
  | .begun, c =>
    if Text.isHexDigit c then some (.digits 5)
    else if c = '\r' then some .carriageReturn else some .outside
  | .digits left, c =>
    if Text.isHexDigit c && 0 < left then some (.digits (left - 1))
    else if c = '\r' then some .carriageReturn
    else if isSpace c then some .outside else none
  | .carriageReturn, c => if c = '\n' then some .outside else none

def nameSpan : Escape → Text → Span
  | _, [] => ([], [])
  | state, c :: rest =>
    match state.step? c with
    | some state => Span.cons c (nameSpan state rest)
    | none =>
      if isNamePart c then Span.cons c (nameSpan .outside rest)
      else if c = '\\' && !startsNewline rest then Span.cons c (nameSpan .begun rest)
      else ([], c :: rest)

def replacement : Char := '\uFFFD'

def decodeNumber (n : Nat) : Char :=
  if n = 0 || !n.isValidChar then replacement else Char.ofNat n

def decodeChar (c : Char) : Char := if c = '\x00' then replacement else c

/-- The name that a lexeme spells. `number` is the value of the digits read so far. -/
def decodeName : Escape → (number : Nat) → Text → Text
  | .outside, _, [] => []
  | .outside, _, c :: rest =>
    if c = '\\' then decodeName .begun 0 rest else decodeChar c :: decodeName .outside 0 rest
  | .begun, _, [] => [replacement]
  | .begun, _, c :: rest =>
    if Text.isHexDigit c then decodeName (.digits 5) (Text.digitValue c) rest
    else decodeChar c :: decodeName .outside 0 rest
  | .digits _, number, [] => [decodeNumber number]
  | .digits left, number, c :: rest =>
    if Text.isHexDigit c && 0 < left then
      decodeName (.digits (left - 1)) (16 * number + Text.digitValue c) rest
    else if c = '\r' then decodeNumber number :: decodeName .carriageReturn 0 rest
    else if isSpace c then decodeNumber number :: decodeName .outside 0 rest
    else if c = '\\' then decodeNumber number :: decodeName .begun 0 rest
    else decodeNumber number :: decodeChar c :: decodeName .outside 0 rest
  | .carriageReturn, _, [] => []
  | .carriageReturn, _, c :: rest =>
    if c = '\n' then decodeName .outside 0 rest
    else if c = '\\' then decodeName .begun 0 rest
    else decodeChar c :: decodeName .outside 0 rest

def commentSpan : Text → Span
  | [] => ([], [])
  | '*' :: '/' :: rest => (['*', '/'], rest)
  | c :: rest => Span.cons c (commentSpan rest)

def stringSpan (quote : Char) : Escape → Text → Kind × Span
  | _, [] => (.string, [], [])
  | state, c :: rest =>
    let further (state : Escape) :=
      let (kind, span) := stringSpan quote state rest
      (kind, Span.cons c span)
    match state.step? c with
    | some state => further state
    | none =>
      if c = quote then (.string, [c], rest)
      else if isNewline c then (.badString, [], c :: rest)
      else further (if c = '\\' then .begun else .outside)

/-- The rest of a bad address: to its `)`, where a backslash shields `)` and itself. -/
def badUrlSpan : Text → Span
  | [] => ([], [])
  | '\\' :: ')' :: rest => Span.cons '\\' (Span.cons ')' (badUrlSpan rest))
  | '\\' :: '\\' :: rest => Span.cons '\\' (Span.cons '\\' (badUrlSpan rest))
  | c :: rest => if c = ')' then ([c], rest) else Span.cons c (badUrlSpan rest)

def urlEndSpan : Text → Kind × Span
  | [] => (.url, [], [])
  | c :: rest =>
    if c = ')' then (.url, [c], rest)
    else if isSpace c then
      let (kind, span) := urlEndSpan rest
      (kind, Span.cons c span)
    else (.badUrl, Span.cons c (badUrlSpan rest))

def spoilsUrl (c : Char) : Bool :=
  let n := c.toNat
  c = '"' || c = '\'' || c = '(' || (1 ≤ n && n ≤ 8) || n = 0x0B || (0x0E ≤ n && n ≤ 0x1F) ||
    n = 0x7F

def urlBodySpan : Escape → Text → Kind × Span
  | _, [] => (.url, [], [])
  | state, c :: rest =>
    let further (state : Escape) :=
      let (kind, span) := urlBodySpan state rest
      (kind, Span.cons c span)
    match state.step? c with
    | some state => further state
    | none =>
      if isSpace c then urlEndSpan (c :: rest)
      else if c = ')' then (.url, [c], rest)
      else if spoilsUrl c || (c = '\\' && startsNewline rest) then
        (.badUrl, Span.cons c (badUrlSpan rest))
      else further (if c = '\\' then .begun else .outside)

/-- What follows `url(`: none where a quote makes it a function with a string. -/
def urlSpan? (text : Text) : Option (Kind × Span) :=
  let blank := text.takeWhile isSpace
  let extend (found : Kind × Span) : Kind × Span := (found.1, blank ++ found.2.1, found.2.2)
  match text.dropWhile isSpace with
  | [] => some (.url, text, [])
  | c :: rest =>
    if c = '"' || c = '\'' then none
    else if c = ')' then some (extend (.url, [c], rest))
    else some (extend (urlBodySpan .outside (c :: rest)))

def digitSpan (text : Text) : Span := (text.takeWhile Text.isDigit, text.dropWhile Text.isDigit)

def signSpan : Text → Span
  | '+' :: rest => (['+'], rest)
  | '-' :: rest => (['-'], rest)
  | text => ([], text)

def fractionSpan : Text → Span
  | '.' :: rest => if startsDigit rest then Span.cons '.' (digitSpan rest) else ([], '.' :: rest)
  | text => ([], text)

def exponentSpan : Text → Span
  | [] => ([], [])
  | c :: rest =>
    let (sign, digits) := signSpan rest
    if (c = 'e' || c = 'E') && startsDigit digits then
      let (run, left) := digitSpan digits
      (c :: sign ++ run, left)
    else ([], c :: rest)

def unitSpan : Text → Span
  | '%' :: rest => (['%'], rest)
  | text => if startsName text then nameSpan .outside text else ([], text)

def numberSpan (text : Text) : Span :=
  let (sign, text) := signSpan text
  let (whole, text) := digitSpan text
  let (fraction, text) := fractionSpan text
  let (exponent, text) := exponentSpan text
  let (unit, text) := unitSpan text
  (sign ++ whole ++ fraction ++ exponent ++ unit, text)

def startsNumber (text : Text) : Bool :=
  let (_, rest) := signSpan text
  startsDigit rest || (rest.head? = some '.' && startsDigit rest.tail)

namespace Token

def ofSpan (kind : Kind) (span : Span) : Token × Text := (⟨kind, span.1⟩, span.2)

def single (kind : Kind) (c : Char) (rest : Text) : Token × Text := (⟨kind, [c]⟩, rest)

def named (text : Text) : Token × Text :=
  let (raw, rest) := nameSpan .outside text
  let name := decodeName .outside 0 raw
  match rest with
  | '(' :: inner =>
    match if name.map Text.lowerAscii = "url" then urlSpan? inner else none with
    | some (kind, span) => (⟨kind, raw ++ '(' :: span.1⟩, span.2)
    | none => (⟨.function name, raw ++ ['(']⟩, inner)
  | _ => (⟨.ident name, raw⟩, rest)

def punctuation? : Char → Option Kind
  | '(' => some (.opening .round)
  | '[' => some (.opening .square)
  | '{' => some (.opening .curly)
  | ')' => some (.closing .round)
  | ']' => some (.closing .square)
  | '}' => some (.closing .curly)
  | ':' => some .colon
  | ';' => some .semicolon
  | _ => none

def next? : Text → Option (Token × Text)
  | [] => none
  | c :: rest => some <|
    if isSpace c then ofSpan .space ((c :: rest).takeWhile isSpace, rest.dropWhile isSpace)
    else if c = '"' || c = '\'' then
      let (kind, span) := stringSpan c .outside rest
      ofSpan kind (Span.cons c span)
    else if c = '#' && (startsName rest || rest.head?.any isNamePart) then
      ofSpan .hash (Span.cons c (nameSpan .outside rest))
    else if c = '@' && startsName rest then
      let span := nameSpan .outside rest
      ofSpan (.atKeyword (decodeName .outside 0 span.1)) (Span.cons c span)
    else if startsNumber (c :: rest) then ofSpan .number (numberSpan (c :: rest))
    else if startsName (c :: rest) && !Text.startsWith "-->" (c :: rest) then named (c :: rest)
    else match punctuation? c with
      | some kind => single kind c rest
      | none => match Text.after? "/*" (c :: rest), Text.after? "<!--" (c :: rest),
            Text.after? "-->" (c :: rest) with
        | some inner, _, _ =>
          let (body, left) := commentSpan inner
          (⟨.comment, '/' :: '*' :: body⟩, left)
        | _, some left, _ => (⟨.commentOpener, "<!--"⟩, left)
        | _, _, some left => (⟨.commentCloser, "-->"⟩, left)
        | none, none, none => single .delimiter c rest

def scan (text : Text) : List Token := Text.findAll (fun _ here => next? here) text

def source (tokens : List Token) : Text := tokens.flatMap Token.text

def opens? (t : Token) : Option Bracket :=
  match t.kind with
  | .opening bracket => some bracket
  | .function _ => some .round
  | _ => none

def closes? (t : Token) : Option Bracket :=
  match t.kind with
  | .closing bracket => some bracket
  | _ => none

def isBlank (t : Token) : Bool := t.kind = .space || t.kind = .comment

/-- The brackets open after a token. A closing bracket that does not fit the innermost open
one closes nothing. -/
def nest (t : Token) (nesting : List Bracket) : List Bracket :=
  match t.opens?, t.closes?, nesting with
  | some bracket, _, _ => bracket :: nesting
  | none, some bracket, innermost :: outer => if bracket = innermost then outer else nesting
  | _, _, _ => nesting

def splitOutside (stop : Token → Bool) : List Bracket → List Token → List Token × List Token
  | _, [] => ([], [])
  | nesting, t :: rest =>
    if nesting.isEmpty && stop t then ([], t :: rest)
    else
      let (front, back) := splitOutside stop (t.nest nesting) rest
      (t :: front, back)

theorem splitOutside_append (stop : Token → Bool) (nesting : List Bracket) (ts : List Token) :
    (splitOutside stop nesting ts).1 ++ (splitOutside stop nesting ts).2 = ts := by
  induction ts generalizing nesting with
  | nil => rfl
  | cons t rest ih =>
    unfold splitOutside
    split
    · rfl
    · simp [ih]

theorem splitOutside_length (stop : Token → Bool) (nesting : List Bracket) (ts : List Token) :
    (splitOutside stop nesting ts).2.length ≤ ts.length := by
  have whole := congrArg List.length (splitOutside_append stop nesting ts)
  simp only [List.length_append] at whole
  omega

end Token
end ColorTheme.Css
