import ColorTheme.Yaml

/-!
Reading a YAML document. Structure follows from columns: a collection belongs to the column of
its first entry, and deeper columns belong to the entry before them. Inside brackets columns do
not count. A reader answers nothing where the text is not well formed. -/
namespace ColorTheme.Yaml

/-- A place in the document. `crossed` tells that a line has ended since the last token. -/
structure Cursor where
  rest : Text
  column : Nat := 0
  crossed : Bool := true
  anchors : List (Text × Yaml) := []

def isGap (c : Char) : Bool := c = ' ' || c = '\t'

def isBreakOrGap (c : Char) : Bool := isGap c || c = '\n'

def endsToken (text : Text) : Bool := text.head?.all isBreakOrGap

def isFlowMark (c : Char) : Bool := [',', '[', ']', '{', '}'].contains c

namespace Cursor

def goTo (cur : Cursor) (rest : Text) : Cursor :=
  let passed := cur.rest.take (cur.rest.length - rest.length)
  let lastLine := (passed.reverse.takeWhile (· ≠ '\n')).length
  { cur with
    rest
    column := if passed.contains '\n' then lastLine else cur.column + passed.length
    crossed := false }

def sameLine (cur : Cursor) (rest : Text) : Bool :=
  !(cur.rest.take (cur.rest.length - rest.length)).contains '\n'

def atMarker (cur : Cursor) : Bool :=
  cur.column = 0 && ((Text.after? "---" cur.rest).any endsToken ||
    (Text.after? "..." cur.rest).any endsToken)

def atEnd (cur : Cursor) : Bool := cur.rest.isEmpty || cur.atMarker

/-- Blanks, line ends and comments. A tab is no indentation, so outside of brackets it is not
passed at the start of a line. -/
def skipText (flow : Bool) : (comment tabs : Bool) → Text → Text × Bool
  | _, tabs, [] => ([], tabs)
  | comment, tabs, c :: rest =>
    if c = '\n' then skipText flow false flow rest
    else if comment || c = ' ' || (c = '\t' && tabs) then skipText flow comment tabs rest
    else if c = '#' then skipText flow true tabs rest
    else (c :: rest, tabs)

def skip (cur : Cursor) (flow tabs : Bool) : Cursor :=
  let (rest, _) := skipText flow false tabs cur.rest
  { cur.goTo rest with crossed := cur.crossed || !cur.sameLine rest }

end Cursor

/-- Line ends between two lines of a scalar: one becomes a space, of more the first is lost. -/
def foldBreaks (count : Nat) : Text :=
  if count = 1 then [' '] else List.replicate (count - 1) '\n'

def escapeNamed? : Char → Option Char
  | '0' => some '\x00'
  | 'a' => some '\x07'
  | 'b' => some '\x08'
  | 't' => some '\t'
  | '\t' => some '\t'
  | 'n' => some '\n'
  | 'v' => some '\x0b'
  | 'f' => some '\x0c'
  | 'r' => some '\r'
  | 'e' => some '\x1b'
  | ' ' => some ' '
  | '"' => some '"'
  | '/' => some '/'
  | '\\' => some '\\'
  | 'N' => some '\u0085'
  | '_' => some '\u00a0'
  | 'L' => some '\u2028'
  | 'P' => some '\u2029'
  | _ => none

def escapeWidth? : Char → Option Nat
  | 'x' => some 2
  | 'u' => some 4
  | 'U' => some 8
  | _ => none

def readNumeric? (width : Nat) (text : Text) : Option (Char × Text) :=
  let digits := text.take width
  let n := Text.valueIn 16 digits
  if digits.length = width && digits.all Text.isHexDigit && n.isValidChar then
    some (Char.ofNat n, text.drop width)
  else none

def skipBreaks : (count : Nat) → Text → Nat × Text
  | count, [] => (count, [])
  | count, c :: rest =>
    if c = '\n' then skipBreaks (count + 1) rest
    else if isGap c then skipBreaks count rest
    else (count, c :: rest)

def startsMarker (text : Text) : Bool := Cursor.atMarker { rest := text }

def readQuoted (double : Bool) : (fuel : Nat) → Text → Option (Text × Text)
  | 0, _ => none
  | _ + 1, [] => none
  | fuel + 1, c :: rest =>
    let push (c : Char) (rest : Text) : Option (Text × Text) :=
      (readQuoted double fuel rest).map fun (text, rest) => (c :: text, rest)
    if isBreakOrGap c then
      let gap := (c :: rest).takeWhile isGap
      let after := (c :: rest).drop gap.length
      if after.head? = some '\n' then
        let (count, next) := skipBreaks 0 after
        if startsMarker next && (after.take (after.length - next.length)).getLast? = some '\n' then
          none
        else (readQuoted double fuel next).map fun (text, rest) => (foldBreaks count ++ text, rest)
      else (readQuoted double fuel after).map fun (text, rest) => (gap ++ text, rest)
    else if double then
      match c, rest with
      | '"', rest => some ([], rest)
      | '\\', '\n' :: rest =>
        let (count, next) := skipBreaks 0 rest
        (readQuoted double fuel next).map fun (text, rest) => (List.replicate count '\n' ++ text, rest)
      | '\\', e :: rest =>
        match escapeNamed? e, escapeWidth? e with
        | some c, _ => push c rest
        | _, some width => do
          let (c, rest) ← readNumeric? width rest
          push c rest
        | none, none => none
      | c, rest => push c rest
    else
      match c, rest with
      | '\'', '\'' :: rest => push '\'' rest
      | '\'', rest => some ([], rest)
      | c, rest => push c rest

def endsPlain (flow : Bool) : Text → Bool
  | [] => true
  | '\n' :: _ => true
  | ':' :: rest => endsToken rest || (flow && rest.head?.any isFlowMark)
  | c :: _ => flow && isFlowMark c

def plainLine (flow : Bool) : Text → Text × Text
  | [] => ([], [])
  | c :: rest =>
    if endsPlain flow (c :: rest) then ([], c :: rest)
    else if isGap c then
      if rest.head? = some '#' then ([], c :: rest)
      else match plainLine flow rest with
        | ([], _) => ([], c :: rest)
        | (line, left) => (c :: line, left)
    else
      let (line, left) := plainLine flow rest
      (c :: line, left)

def plainLines (flow : Bool) (least : Nat) : (fuel : Nat) → Text → Text × Text
  | 0, text => ([], text)
  | fuel + 1, text =>
    let (line, left) := plainLine flow text
    let (count, next) := skipBreaks 0 left
    let indent := ((left.take (left.length - next.length)).reverse.takeWhile (· ≠ '\n')).length
    let goesOn := 0 < count && (flow || least ≤ indent) && next.head?.any (· ≠ '#') &&
      !(indent = 0 && startsMarker next) && !endsPlain flow next
    if goesOn then
      let (more, left) := plainLines flow least fuel next
      (line ++ foldBreaks count ++ more, left)
    else (line, left)

def startsPlain (flow : Bool) : Text → Bool
  | [] => false
  | c :: rest =>
    if isBreakOrGap c then false
    else if c = '-' then !endsToken rest
    else if c = '?' || c = ':' then !flow && !endsToken rest
    else !(isFlowMark c || ['#', '&', '*', '!', '|', '>', '\'', '"', '%', '@', '`'].contains c)

def isAnchorChar (c : Char) : Bool := Text.isAsciiAlphanumeric c || c = '_' || c = '-'

def commonTags : Text := "tag:yaml.org,2002:"

def tagOfName (name : Text) : Tag :=
  if name.head? = some '!' then .own
  else match Text.after? commonTags name with
    | none => .text
    | some kind =>
      if kind = "null" then .nothing
      else if kind = "bool" then .truth
      else if kind = "int" then .whole
      else if kind = "float" then .decimal
      else .text

/-- What a tag says. Two exclamation marks stand for the place of the common tags, and a whole
name is written in angle brackets. -/
def tag? (text : Text) : Option Tag :=
  match text with
  | '!' :: '<' :: name =>
    if name.getLast? = some '>' && 1 < name.length then some (tagOfName name.dropLast) else none
  | '!' :: '!' :: kind => if kind.isEmpty then none else some (tagOfName (commonTags ++ kind))
  | '!' :: name => if name.contains '!' then none else some .own
  | _ => none

structure Properties where
  anchor : Option Text := none
  tag : Option Tag := none

/-- An anchor or a tag in front of a node, and the text after it. A lone exclamation mark is a
tag that says nothing. -/
def readProperty? (text : Text) : Option (Option Properties × Text) :=
  match text with
  | '&' :: rest =>
    let name := rest.takeWhile isAnchorChar
    let rest := rest.drop name.length
    if name.isEmpty || !(endsToken rest || rest.head?.any isFlowMark) then none
    else some (some { anchor := some name }, rest)
  | '!' :: rest =>
    let written := match rest with
      | '<' :: name => text.take ((name.takeWhile (· ≠ '>')).length + 3)
      | _ => text.takeWhile fun c => !isBreakOrGap c && !isFlowMark c
    let rest := text.drop written.length
    if written.length = 1 then some (some {}, rest)
    else some ((tag? written).map fun tag => { tag := some tag }, rest)
  | _ => none

def Properties.apply (p : Properties) (node : Yaml) (cur : Cursor) : Yaml × Cursor :=
  let node := match p.tag with
    | some tag => .tagged tag node
    | none => node
  match p.anchor with
  | none => (node, cur)
  | some name => (node, { cur with anchors := (name, node) :: cur.anchors })

def readAlias (cur : Cursor) (rest : Text) : Option (Yaml × Cursor) := do
  let name := rest.takeWhile isAnchorChar
  let node ← cur.anchors.lookup name
  return (node, cur.goTo (rest.drop name.length))

def readLeaf (flow : Bool) (least : Nat) (cur : Cursor) : Option (Yaml × Cursor) :=
  let fuel := cur.rest.length + 1
  match cur.rest with
  | '*' :: rest => readAlias cur rest
  | '"' :: rest => (readQuoted true fuel rest).map fun (text, rest) =>
      (.scalar text false, cur.goTo rest)
  | '\'' :: rest => (readQuoted false fuel rest).map fun (text, rest) =>
      (.scalar text false, cur.goTo rest)
  | text =>
    if startsPlain flow text then
      let (words, rest) := plainLines flow least fuel text
      some (.scalar words true, cur.goTo rest)
    else none

mutual

def readFlow : (fuel : Nat) → Cursor → Option (Yaml × Cursor)
  | 0, _ => none
  | fuel + 1, cur =>
    let cur := cur.skip true true
    match readProperty? cur.rest, cur.rest with
    | some (properties, rest), _ => do
      let properties ← properties
      let cur := (cur.goTo rest).skip true true
      let (node, cur) ←
        if cur.rest.head?.any fun c => c = ',' || c = ']' || c = '}' || c = ':' then
          some (empty, cur)
        else readFlow fuel cur
      return properties.apply node cur
    | none, '[' :: rest => readItems fuel [] (cur.goTo rest)
    | none, '{' :: rest => readPairs fuel [] (cur.goTo rest)
    | none, _ => readLeaf true 0 cur

def readFlowValue : (fuel : Nat) → Cursor → Option (Option Yaml × Cursor)
  | 0, _ => none
  | fuel + 1, cur =>
    let cur := cur.skip true true
    match cur.rest with
    | ':' :: rest =>
      let cur := (cur.goTo rest).skip true true
      if cur.rest.head?.any fun c => c = ',' || c = ']' || c = '}' then some (some empty, cur)
      else (readFlow fuel cur).map fun (value, cur) => (some value, cur)
    | _ => some (none, cur)

/-- The items of a sequence in brackets; a pair stands for a mapping of its own. -/
def readItems : (fuel : Nat) → List Yaml → Cursor → Option (Yaml × Cursor)
  | 0, _, _ => none
  | fuel + 1, items, cur =>
    let cur := cur.skip true true
    match cur.rest with
    | ']' :: rest => some (.sequence items.reverse, cur.goTo rest)
    | _ => do
      let (key, cur) ← readFlow fuel cur
      let (value, cur) ← readFlowValue fuel cur
      let item := match value with
        | some value => .mapping [(key, value)]
        | none => key
      match cur.rest with
      | ',' :: rest => readItems fuel (item :: items) (cur.goTo rest)
      | ']' :: rest => return (.sequence (item :: items).reverse, cur.goTo rest)
      | _ => none

/-- The entries of a mapping in braces; a key may go without a value. -/
def readPairs : (fuel : Nat) → List (Yaml × Yaml) → Cursor → Option (Yaml × Cursor)
  | 0, _, _ => none
  | fuel + 1, entries, cur =>
    let cur := cur.skip true true
    match cur.rest with
    | '}' :: rest => some (.mapping entries.reverse, cur.goTo rest)
    | _ => do
      let (key, cur) ← readFlow fuel cur
      let (value, cur) ← readFlowValue fuel cur
      let entry := (key, value.getD empty)
      match cur.rest with
      | ',' :: rest => readPairs fuel (entry :: entries) (cur.goTo rest)
      | '}' :: rest => return (.mapping (entry :: entries).reverse, cur.goTo rest)
      | _ => none

end

inductive Chomping | strip | clip | keep
deriving DecidableEq

def readHeader (text : Text) : Option (Option Nat × Chomping × Text) :=
  let marks := text.takeWhile fun c => Text.isDigit c || c = '+' || c = '-'
  let rest := (text.drop marks.length).dropWhile isGap
  let rest := if rest.head? = some '#' then rest.dropWhile (· ≠ '\n') else rest
  let chomping (c : Char) : Chomping := if c = '+' then .keep else .strip
  if rest.head?.all (· = '\n') then
    match marks with
    | [] => some (none, .clip, rest)
    | [c] => if Text.isDigit c then some (some (Text.digitValue c), .clip, rest) else some (none, chomping c, rest)
    | [c, d] =>
      if Text.isDigit c && !Text.isDigit d then some (some (Text.digitValue c), chomping d, rest)
      else if !Text.isDigit c && Text.isDigit d then some (some (Text.digitValue d), chomping c, rest)
      else none
    | _ => none
  else none

def indentOf (line : Text) : Nat := (line.takeWhile (· = ' ')).length

def isBlankLine (line : Text) : Bool := line.all (· = ' ')

def blockLines (indent : Nat) (lines : List Text) : List Text :=
  lines.takeWhile fun line => isBlankLine line || indent ≤ indentOf line

/-- Lines joined, or folded where neither neighbour begins with a blank. `breaks` counts the
line ends since the last line that is not empty. -/
def joinBlock (folded : Bool) (spaced : Bool) (breaks : Nat) : List Text → Text
  | [] => []
  | line :: rest =>
    if line.isEmpty then joinBlock folded spaced (breaks + 1) rest
    else
      let starts := line.head?.any isGap
      let gap := if folded && !spaced && !starts && 0 < breaks then foldBreaks breaks
        else List.replicate breaks '\n'
      gap ++ line ++ joinBlock folded starts 1 rest

def readBlockScalar (folded : Bool) (least : Nat) (cur : Cursor) (text : Text) :
    Option (Yaml × Cursor) := do
  let (given, chomping, rest) ← readHeader text
  let lines := Text.lines (rest.drop 1)
  let found := ((lines.find? (!isBlankLine ·)).map indentOf).getD 0
  let indent := match given with
    | some n => (least - 1) + n
    | none => max found (max least 1)
  let block := (blockLines indent lines).map fun line => line.drop indent
  let left := Text.joinLines (lines.drop block.length)
  let body := (block.reverse.dropWhile List.isEmpty).reverse
  let trailing := lines.length - body.length
  let suffix : Text := match chomping with
    | .strip => []
    | .clip => if body.isEmpty || trailing = 0 then [] else ['\n']
    | .keep => List.replicate (min trailing (block.length - body.length + 1)) '\n'
  let after := { cur.goTo left with crossed := true, column := 0 }
  return (.scalar (joinBlock folded true 0 body ++ suffix) false, after)

def opensEntry (text : Text) : Option Text := (Text.after? "-" text).filter endsToken

def partsKey (cur : Cursor) : Option Text :=
  (Text.after? ":" (cur.rest.dropWhile isGap)).filter endsToken

mutual

/-- A node outside of brackets. A collection by columns may start here if `mayOpen` is set; what
stands on a line of its own needs the column `least`. -/
def readNode : (fuel : Nat) → (least : Nat) → (mayOpen : Bool) → Cursor → Option (Yaml × Cursor)
  | 0, _, _, _ => none
  | fuel + 1, least, mayOpen, cur =>
    if cur.atEnd || (cur.crossed && cur.column < least) then some (empty, cur)
    else match readProperty? cur.rest with
      | some (properties, rest) =>
        if mayOpen && (propertyOfKey fuel cur).isSome then do
          let (key, after) ← propertyOfKey fuel cur
          readMapping fuel cur.column [] key after
        else do
          let properties ← properties
          let cur := (cur.goTo rest).skip false true
          let (node, cur) ← readNode fuel least cur.crossed cur
          return properties.apply node cur
      | none =>
        match opensEntry cur.rest, cur.rest with
        | some _, _ => if mayOpen then readSequence fuel cur.column [] cur else none
        | none, '|' :: rest => readBlockScalar false least cur rest
        | none, '>' :: rest => readBlockScalar true least cur rest
        | none, '?' :: rest =>
          if mayOpen && endsToken rest then readExplicit fuel cur.column [] cur
          else readContent fuel least mayOpen cur
        | none, _ => readContent fuel least mayOpen cur

def propertyOfKey : (fuel : Nat) → Cursor → Option (Yaml × Cursor)
  | 0, _ => none
  | fuel + 1, cur => do
    let (properties, rest) ← readProperty? cur.rest
    let properties ← properties
    let after := (cur.goTo rest).skip false true
    if after.crossed then none
    else
      let (key, after) ← (propertyOfKey fuel after).orElse fun _ => readLeaf false 0 after
      if cur.sameLine after.rest && (partsKey after).isSome then
        return properties.apply key after
      else none

def readContent : (fuel : Nat) → (least : Nat) → (mayOpen : Bool) → Cursor →
    Option (Yaml × Cursor)
  | 0, _, _, _ => none
  | fuel + 1, least, mayOpen, cur => do
    let (node, after) ←
      if cur.rest.head?.any fun c => c = '[' || c = '{' then readFlow fuel { cur with crossed := false }
      else readLeaf false least cur
    if mayOpen && cur.sameLine after.rest && (partsKey after).isSome then
      readMapping fuel cur.column [] node after
    else return (node, after)

def readSequence : (fuel : Nat) → (column : Nat) → List Yaml → Cursor → Option (Yaml × Cursor)
  | 0, _, _, _ => none
  | fuel + 1, column, items, cur =>
    match opensEntry cur.rest with
    | none => some (.sequence items.reverse, cur)
    | some rest => do
      let inner := (cur.goTo rest).skip false false
      let (item, after) ←
        if inner.crossed && inner.column ≤ column then some (empty, inner)
        else readNode fuel (column + 1) true inner
      let next := after.skip false true
      if next.atEnd then return (.sequence (item :: items).reverse, next)
      else if !next.crossed || column < next.column then none
      else if next.column < column then return (.sequence (item :: items).reverse, next)
      else readSequence fuel column (item :: items) next

def readMapping : (fuel : Nat) → (column : Nat) → List (Yaml × Yaml) → (key : Yaml) → Cursor →
    Option (Yaml × Cursor)
  | 0, _, _, _, _ => none
  | fuel + 1, column, entries, key, cur => do
    let rest ← partsKey cur
    let (value, after) ← readValue fuel column ((cur.goTo rest).skip false true)
    nextKey fuel column ((key, value) :: entries) (after.skip false true)

/-- The value after a colon. A sequence may stand in the column of the key. -/
def readValue : (fuel : Nat) → (column : Nat) → Cursor → Option (Yaml × Cursor)
  | 0, _, _ => none
  | fuel + 1, column, cur =>
    if !cur.crossed then readNode fuel (column + 1) false cur
    else if cur.atEnd then some (empty, cur)
    else if column < cur.column then readNode fuel (column + 1) true cur
    else if cur.column = column && (opensEntry cur.rest).isSome then
      readSequence fuel column [] cur
    else some (empty, cur)

def nextKey : (fuel : Nat) → (column : Nat) → List (Yaml × Yaml) → Cursor →
    Option (Yaml × Cursor)
  | 0, _, _, _ => none
  | fuel + 1, column, entries, cur =>
    if cur.atEnd then some (.mapping entries.reverse, cur)
    else if !cur.crossed || column < cur.column then none
    else if cur.column < column then some (.mapping entries.reverse, cur)
    else if (Text.after? "?" cur.rest).any endsToken then readExplicit fuel column entries cur
    else do
      let (key, after) ← (propertyOfKey fuel cur).orElse fun _ =>
        if cur.rest.head?.any fun c => c = '[' || c = '{' then
          readFlow fuel { cur with crossed := false }
        else readLeaf false column cur
      if cur.sameLine after.rest then readMapping fuel column entries key after else none

/-- An entry whose key follows a question mark; its value may follow on a line of its own. -/
def readExplicit : (fuel : Nat) → (column : Nat) → List (Yaml × Yaml) → Cursor →
    Option (Yaml × Cursor)
  | 0, _, _, _ => none
  | fuel + 1, column, entries, cur => do
    let rest ← Text.after? "?" cur.rest
    let inner := (cur.goTo rest).skip false false
    let (key, after) ←
      if inner.crossed && inner.column ≤ column then some (empty, inner)
      else readNode fuel (column + 1) true inner
    let next := after.skip false true
    match (Text.after? ":" next.rest).filter endsToken with
    | some rest =>
      if next.crossed && next.column = column then
        let inner := (next.goTo rest).skip false false
        let (value, after) ←
          if inner.crossed && inner.column ≤ column then some (empty, inner)
          else readNode fuel (column + 1) true inner
        nextKey fuel column ((key, value) :: entries) (after.skip false true)
      else none
    | none => nextKey fuel column ((key, empty) :: entries) next

end

def isPrintable (c : Char) : Bool :=
  let n := c.toNat
  n = 9 || n = 10 || n = 13 || (0x20 ≤ n && n ≤ 0x7E) || n = 0x85 ||
    (0xA0 ≤ n && n ≤ 0xD7FF) || (0xE000 ≤ n && n ≤ 0xFFFD) || 0x10000 ≤ n

def unifyBreaks : Text → Text
  | [] => []
  | '\r' :: '\n' :: rest => '\n' :: unifyBreaks rest
  | c :: rest => (if c = '\r' || c = '\u0085' then '\n' else c) :: unifyBreaks rest

def withoutMark (text : Text) : Text := (Text.after? ['\uFEFF'] text).getD text

def isDirective (line : Text) : Bool :=
  let words := ((line.takeWhile (· ≠ '#')).splitOnP isGap).filter (!·.isEmpty)
  match words with
  | [name, value] => name = "YAML" && (value = "1.1" || value = "1.2")
  | [name, mark, _] => name = "TAG" && mark.head? = some '!' && mark.getLast? = some '!'
  | _ => false

def skipDirectives : (fuel : Nat) → Cursor → Option Cursor
  | 0, _ => none
  | fuel + 1, cur =>
    let cur := cur.skip false false
    match cur.rest with
    | '%' :: rest =>
      if cur.column = 0 then
        let line := rest.takeWhile (· ≠ '\n')
        let next := (cur.goTo (rest.drop line.length)).skip false false
        if !isDirective line then none
        else if next.rest.head? = some '%' || (Text.after? "---" next.rest).any endsToken then
          skipDirectives fuel next
        else none
      else none
    | _ =>
      match (Text.after? "---" cur.rest).filter endsToken with
      | some rest =>
        if cur.column = 0 then some ((cur.goTo rest).skip false true) else some cur
      | none => some cur

def isFinished : (fuel : Nat) → Cursor → Bool
  | 0, _ => false
  | fuel + 1, cur =>
    let cur := cur.skip false true
    match (Text.after? "..." cur.rest).filter endsToken with
    | some rest =>
      cur.crossed && cur.column = 0 && isFinished fuel { cur.goTo rest with crossed := false }
    | none => cur.rest.isEmpty

def parse? (text : Text) : Option Yaml := do
  let text := unifyBreaks (withoutMark text)
  if !text.all isPrintable then none
  let fuel := 4 * text.length + 16
  let start ← skipDirectives fuel { rest := text }
  let (node, cur) ← readNode fuel 0 (start.crossed) start
  if isFinished fuel cur then return node else none

end ColorTheme.Yaml
