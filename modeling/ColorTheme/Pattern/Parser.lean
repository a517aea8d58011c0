import ColorTheme.Pattern

/-!
Reading regular expressions. Every construct has one reader that answers what it read and the
text after it, or nothing where the pattern is not valid: unclosed groups and sets, operators
with nothing to repeat, ranges that run backwards, unknown escapes, look-around and
references to groups are refused. So is what goes beyond the character classes of this library:
properties other than the few named here, and letter case without Unicode. -/
namespace ColorTheme.Pattern

structure Flags where
  anyCase : Bool := false
  multiLine : Bool := false
  dotAll : Bool := false
  crlf : Bool := false
  unicode : Bool := true
  spaced : Bool := false

def Flags.lineEnds (f : Flags) : List Char := if f.crlf then ['\r', '\n'] else ['\n']

def Flags.cased? (f : Flags) (set : CharSet) : Option CharSet :=
  if !f.anyCase then some set else if f.unicode then some (.anyCase set) else none

def asciiDigit : CharSet := .range '0' '9'
def asciiAlpha : CharSet := .union (.range 'a' 'z') (.range 'A' 'Z')
def asciiSpace : CharSet := .union (.range '\t' '\r') (.single ' ')
def asciiWord : CharSet := .union asciiDigit (.union asciiAlpha (.single '_'))

def Flags.word (f : Flags) : CharSet := if f.unicode then .word else asciiWord

/-- A complement may leave what is no character where Unicode is off, so it is refused there. -/
def Flags.complement? (f : Flags) (set : CharSet) : Option CharSet :=
  if f.unicode then some (.complement set) else none

def Flags.dot? (f : Flags) : Option CharSet :=
  f.complement? (if f.dotAll then .none else .ofList f.lineEnds)

inductive Escaped
  | char (c : Char)
  | set (s : CharSet)
  | anchor (a : Anchor)

def charOfHex? (digits : Text) : Option Char :=
  let n := Text.valueIn 16 digits
  if !digits.isEmpty && digits.all Text.isHexDigit && n.isValidChar then some (Char.ofNat n)
  else none

def readHex (width : Nat) : Text → Option (Escaped × Text)
  | '{' :: rest => do
    let (digits, rest) ← Text.cut? ['}'] rest
    return (.char (← charOfHex? digits), rest)
  | rest => do
    let digits := rest.take width
    if digits.length < width then none
    else return (.char (← charOfHex? digits), rest.drop width)

def propertyNamed? (name : Text) : Option CharSet :=
  let plain := (name.filter fun c => !(c = '_' || c = '-' || c = ' ')).map Text.lowerAscii
  if [("alphabetic" : Text), "alpha"].contains plain then some .alphabetic
  else if [("nd" : Text), "decimalnumber", "digit"].contains plain then some .digit
  else if [("whitespace" : Text), "wspace", "space"].contains plain then some .space
  else if plain = "any" then some (.complement .none)
  else if plain = "ascii" then some (.range '\x00' '\x7f')
  else none

def readProperty (negated : Bool) : Text → Option (Escaped × Text)
  | '{' :: '^' :: rest => do
    let (name, rest) ← Text.cut? ['}'] rest
    let set ← propertyNamed? name
    return (.set (if negated then set else .complement set), rest)
  | '{' :: rest => do
    let (name, rest) ← Text.cut? ['}'] rest
    let set ← propertyNamed? name
    return (.set (if negated then .complement set else set), rest)
  | _ => none

def perlClass? (f : Flags) : Char → Option CharSet
  | 'd' => some (if f.unicode then .digit else asciiDigit)
  | 's' => some (if f.unicode then .space else asciiSpace)
  | 'w' => some f.word
  | 'D' => f.complement? .digit
  | 'S' => f.complement? .space
  | 'W' => f.complement? .word
  | _ => none

def controlNamed? : Char → Option Char
  | 'a' => some '\x07'
  | 'f' => some '\x0c'
  | 't' => some '\t'
  | 'n' => some '\n'
  | 'r' => some '\r'
  | 'v' => some '\x0b'
  | _ => none

/-- A word edge may be qualified in braces; a brace before a digit is a repetition. -/
def readWordEdge (letters : CharSet) (rest : Text) : Option (Escaped × Text) :=
  match Text.after? "\x7bstart\x7d" rest, Text.after? "\x7bend\x7d" rest,
      Text.after? "\x7bstart-half\x7d" rest, Text.after? "\x7bend-half\x7d" rest with
  | some rest, _, _, _ => some (.anchor (.wordStart letters), rest)
  | _, some rest, _, _ => some (.anchor (.wordEnd letters), rest)
  | _, _, some rest, _ => some (.anchor (.wordStartHalf letters), rest)
  | _, _, _, some rest => some (.anchor (.wordEndHalf letters), rest)
  | none, none, none, none =>
    match rest with
    | '{' :: c :: _ =>
      if Text.isAsciiAlphanumeric c && !Text.isDecimal c then none
      else some (.anchor (.wordEdge letters), rest)
    | _ => some (.anchor (.wordEdge letters), rest)

/-- ASCII that is neither letter nor digit stands for itself after a backslash. -/
def readEscape (f : Flags) : Text → Option (Escaped × Text)
  | [] => none
  | 'x' :: rest => readHex 2 rest
  | 'u' :: rest => readHex 4 rest
  | 'U' :: rest => readHex 8 rest
  | 'p' :: rest => readProperty false rest
  | 'P' :: rest => readProperty true rest
  | 'A' :: rest => some (.anchor .textStart, rest)
  | 'z' :: rest => some (.anchor .textEnd, rest)
  | 'b' :: rest => readWordEdge f.word rest
  | 'B' :: rest => some (.anchor (.noWordEdge f.word), rest)
  | '<' :: rest => some (.anchor (.wordStart f.word), rest)
  | '>' :: rest => some (.anchor (.wordEnd f.word), rest)
  | c :: rest =>
    match perlClass? f c, controlNamed? c with
    | some set, _ => some (.set set, rest)
    | _, some c => some (.char c, rest)
    | none, none =>
      if c.toNat < 0x80 && !Text.isAsciiAlphanumeric c then some (.char c, rest) else none

def posixClass? (name : Text) : Option CharSet :=
  if name = "alnum" then some (.union asciiDigit asciiAlpha)
  else if name = "alpha" then some asciiAlpha
  else if name = "ascii" then some (.range '\x00' '\x7f')
  else if name = "blank" then some (.ofList ['\t', ' '])
  else if name = "cntrl" then some (.union (.range '\x00' '\x1f') (.single '\x7f'))
  else if name = "digit" then some asciiDigit
  else if name = "graph" then some (.range '!' '~')
  else if name = "lower" then some (.range 'a' 'z')
  else if name = "print" then some (.range ' ' '~')
  else if name = "punct" then some (.without (.range '!' '~') (.union asciiDigit asciiAlpha))
  else if name = "space" then some asciiSpace
  else if name = "upper" then some (.range 'A' 'Z')
  else if name = "word" then some asciiWord
  else if name = "xdigit" then
    some (.union asciiDigit (.union (.range 'a' 'f') (.range 'A' 'F')))
  else none

def readPosix (f : Flags) (rest : Text) : Option (CharSet × Text) := do
  let rest ← Text.after? "[:" ('[' :: rest)
  let (name, rest) ← Text.cut? ":]" rest
  match name with
  | '^' :: name => return (← f.complement? (← posixClass? name), rest)
  | name => return (← posixClass? name, rest)

def readMember (f : Flags) : Text → Option (Escaped × Text)
  | [] => none
  | '\\' :: rest => do
    match ← readEscape f rest with
    | (.anchor _, _) => none
    | found => return found
  | c :: rest => some (.char c, rest)

def readRange (f : Flags) (text : Text) : Option (CharSet × Text) := do
  let (first, rest) ← readMember f text
  match first, rest with
  | _, '-' :: ']' :: _ | _, '-' :: '-' :: _ => return (asSet first, rest)
  | .char first, '-' :: rest =>
    match ← readMember f rest with
    | (.char last, rest) => if first ≤ last then return (.range first last, rest) else none
    | _ => none
  | _, '-' :: _ => none
  | _, _ => return (asSet first, rest)
where
  asSet : Escaped → CharSet
    | .char c => .single c
    | .set s => s
    | .anchor _ => .none

/-- Hyphens and then a closing bracket stand for themselves at the start of a set. -/
def readSetStart (text : Text) : Option (CharSet × Text) :=
  let hyphens := text.takeWhile (· = '-')
  match hyphens, text.dropWhile (· = '-') with
  | [], ']' :: rest => some (.single ']', rest)
  | [], rest => some (.none, rest)
  | _, rest => some (.single '-', rest)

mutual

def readSet (f : Flags) : (fuel : Nat) → Text → Option (CharSet × Text)
  | 0, _ => none
  | fuel + 1, '^' :: rest => do
    let (start, rest) ← readSetStart rest
    let (set, rest) ← readSetItems f fuel id start rest
    return (← f.complement? set, rest)
  | fuel + 1, text => do
    let (start, rest) ← readSetStart text
    readSetItems f fuel id start rest

/-- The items of a set. `combine` joins the operand read so far with what an operator before
it asks for; `union` is that operand. -/
def readSetItems (f : Flags) : (fuel : Nat) → (combine : CharSet → CharSet) →
    (union : CharSet) → Text → Option (CharSet × Text)
  | 0, _, _, _ => none
  | _ + 1, _, _, [] => none
  | fuel + 1, combine, union, c :: rest =>
    let operand (combined : CharSet → CharSet → CharSet) (rest : Text) :
        Option (CharSet × Text) := do
      readSetItems f fuel (combined (combine (← f.cased? union))) .none rest
    if f.spaced && Text.isBlank c then readSetItems f fuel combine union rest
    else match c, rest with
      | ']', rest => (f.cased? union).map fun set => (combine set, rest)
      | '&', '&' :: rest => operand .inter rest
      | '-', '-' :: rest => operand .without rest
      | '~', '~' :: rest => operand (fun a b => .without (.union a b) (.inter a b)) rest
      | '[', rest => do
        let (inner, rest) ← (readPosix f rest).orElse fun _ => readSet f fuel rest
        readSetItems f fuel combine (.union union inner) rest
      | _, _ => do
        let (item, rest) ← readRange f (c :: rest)
        readSetItems f fuel combine (.union union item) rest

end

/-- Flag letters up to `)` or `:`; those after `-` are switched off, and none is named twice. -/
def readFlags (f : Flags) (on : Bool) (seen : List Char) : Text → Option ((Flags × Char) × Text)
  | [] => none
  | c :: rest =>
    if (c = ')' || c = ':') && seen.head? != some '-' && !(c = ')' && seen.isEmpty) then
      some ((f, c), rest)
    else if seen.contains c then none
    else match c with
      | '-' => readFlags f false (c :: seen) rest
      | 'i' => readFlags { f with anyCase := on } on (c :: seen) rest
      | 'm' => readFlags { f with multiLine := on } on (c :: seen) rest
      | 's' => readFlags { f with dotAll := on } on (c :: seen) rest
      | 'R' => readFlags { f with crlf := on } on (c :: seen) rest
      | 'u' => readFlags { f with unicode := on } on (c :: seen) rest
      | 'x' => readFlags { f with spaced := on } on (c :: seen) rest
      | 'U' => readFlags f on (c :: seen) rest
      | _ => none

def readGroupName (text : Text) : Option (Text × Text) := do
  let (name, rest) ← Text.cut? ['>'] text
  let isStart (c : Char) := Text.isAlphabetic c || c = '_'
  let isPart (c : Char) := isStart c || Text.isAlphanumeric c || ['.', '[', ']'].contains c
  if name.head?.any isStart && name.all isPart then return (name, rest) else none

def readNumber (text : Text) : Option (Nat × Text) :=
  let text := Text.trimStart text
  let digits := text.takeWhile Text.isDigit
  let n := Text.valueIn 10 digits
  if digits.isEmpty || 4294967295 < n then none
  else some (n, Text.trimStart (text.drop digits.length))

def readBounds (text : Text) : Option ((Nat × Option Nat) × Text) := do
  let (least, rest) ← readNumber text
  match rest with
  | '}' :: rest => return ((least, some least), rest)
  | ',' :: rest =>
    match Text.trimStart rest with
    | '}' :: rest => return ((least, none), rest)
    | rest =>
      match ← readNumber rest with
      | (most, '}' :: rest) => if least ≤ most then return ((least, some most), rest) else none
      | _ => none
  | _ => none

/-- A question mark after a repetition asks for the shortest match, which matches alike. -/
def skipLazy : Text → Text
  | '?' :: rest => rest
  | rest => rest

/-- The operand of a repetition is the last item, unless that only switches flags. -/
def repeatLast (least : Nat) (most : Option Nat) : List (Option Pattern) →
    Option (List (Option Pattern))
  | some last :: others => some (some (.repeated last least most) :: others)
  | _ => none

def sequence (items : List (Option Pattern)) : Pattern :=
  items.foldl (fun acc item =>
    match item with
    | none => acc
    | some p => .seq p acc) .empty

def branch (done : Option Pattern) (items : List (Option Pattern)) : Pattern :=
  match done with
  | none => sequence items
  | some earlier => .alt earlier (sequence items)

structure Reader where
  flags : Flags := {}
  inGroup : Bool := false
  names : List Text := []
  done : Option Pattern := none
  items : List (Option Pattern) := []

def Reader.push (r : Reader) (p : Pattern) : Reader := { r with items := some p :: r.items }

def Reader.pushSet (r : Reader) (set : CharSet) : Reader := r.push (.char set)

def readItems : (fuel : Nat) → Reader → Text → Option ((Pattern × List Text) × Text)
  | 0, _, _ => none
  | _ + 1, r, [] => if r.inGroup then none else some ((branch r.done r.items, r.names), [])
  | fuel + 1, r, c :: rest =>
    let f := r.flags
    let group (r : Reader) (inner : Flags) (names : List Text) (rest : Text) :
        Option ((Pattern × List Text) × Text) := do
      let ((p, names), rest) ← readItems fuel { flags := inner, inGroup := true, names } rest
      readItems fuel { r.push p with names } rest
    let again (least : Nat) (most : Option Nat) (rest : Text) : Option ((Pattern × List Text) × Text) := do
      let items ← repeatLast least most r.items
      readItems fuel { r with items } (skipLazy rest)
    if f.spaced && Text.isBlank c then readItems fuel r rest
    else if f.spaced && c = '#' then readItems fuel r (rest.dropWhile (· ≠ '\n'))
    else match c, rest with
      | ')', rest => if r.inGroup then some ((branch r.done r.items, r.names), rest) else none
      | '|', rest => readItems fuel { r with done := some (branch r.done r.items), items := [] } rest
      | '*', rest => again 0 none rest
      | '+', rest => again 1 none rest
      | '?', rest => again 0 (some 1) rest
      | '{', rest => do
        let ((least, most), rest) ← readBounds rest
        again least most rest
      | '(', '?' :: rest =>
        match (Text.after? "P<" rest).orElse fun _ => Text.after? "<" rest with
        | some rest => do
          let (name, rest) ← readGroupName rest
          if r.names.contains name then none else group r f (name :: r.names) rest
        | none => do
          let ((inner, stop), rest) ← readFlags f true [] rest
          if stop = ':' then group r inner r.names rest
          else readItems fuel { r with flags := inner, items := none :: r.items } rest
      | '(', rest => group r f r.names rest
      | '[', rest => do
        let (set, rest) ← readSet f fuel rest
        readItems fuel (r.pushSet set) rest
      | '.', rest => do readItems fuel (r.pushSet (← f.dot?)) rest
      | '^', rest =>
        readItems fuel (r.push (.anchor (if f.multiLine then .lineStart f.lineEnds else .textStart)))
          rest
      | '$', rest =>
        readItems fuel (r.push (.anchor (if f.multiLine then .lineEnd f.lineEnds else .textEnd)))
          rest
      | '\\', rest => do
        match ← readEscape f rest with
        | (.char c, rest) => readItems fuel (r.pushSet (← f.cased? (.single c))) rest
        | (.set set, rest) => readItems fuel (r.pushSet set) rest
        | (.anchor a, rest) => readItems fuel (r.push (.anchor a)) rest
      | c, rest => do readItems fuel (r.pushSet (← f.cased? (.single c))) rest

/-- The pattern that a text spells, if it is a valid one. Each reader consumes a character for
every unit of fuel, so twice the length and a few more are enough. -/
def parse? (text : Text) : Option Pattern :=
  match readItems (2 * text.length + 4) {} text with
  | some ((pattern, _), []) => some pattern
  | _ => none

def compile? (text : Text) : Option (Text → Bool) := (parse? text).map isMatch

end ColorTheme.Pattern
