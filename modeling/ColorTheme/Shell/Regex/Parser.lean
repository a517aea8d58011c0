import ColorTheme.Shell.Regex

/-!
Reading the regular expressions of text tools. Both spellings are first cut into symbols, so
that one grammar reads them. -/
namespace ColorTheme.Shell.Regex

inductive Spelling | basic | extended
deriving DecidableEq, Repr

inductive Symbol
  | set (s : CharSet)
  | anchor (a : Anchor)
  | same (number : Nat)
  | star | plus | optional | bar | opening | closing
  | interval (least : Nat) (most : Option Nat)
deriving Repr

def className? (name : Text) : Option CharSet :=
  let lower : CharSet := .range 'a' 'z'
  let upper : CharSet := .range 'A' 'Z'
  let digits : CharSet := .range '0' '9'
  let punctuation : CharSet :=
    .union (.union (.range '!' '/') (.range ':' '@')) (.union (.range '[' '\x60') (.range '\x7b' '~'))
  [("alpha".toList, CharSet.union lower upper), ("digit".toList, digits),
    ("alnum".toList, .union digits (.union lower upper)), ("lower".toList, lower),
    ("upper".toList, upper), ("punct".toList, punctuation),
    ("space".toList, .union (.range '\t' '\r') (.single ' ')),
    ("blank".toList, .union (.single '\t') (.single ' ')),
    ("xdigit".toList, .union digits (.union (.range 'a' 'f') (.range 'A' 'F'))),
    ("cntrl".toList, .union (.range '\x00' '\x1f') (.single '\x7f')),
    ("print".toList, .range ' ' '~'), ("graph".toList, .range '!' '~')].lookup name

def members : (fuel : Nat) → (first : Bool) → CharSet → Text → Option (CharSet × Text)
  | 0, _, _, _ => none
  | n + 1, first, set, text =>
    match text with
    | [] => none
    | '[' :: ':' :: rest => do
      let (name, rest) ← Text.cut? ":]" rest
      members n false (.union set (← className? name)) rest
    | low :: '-' :: high :: rest =>
      if low = ']' && !first then some (set, '-' :: high :: rest)
      else if high = ']' then some (.union set (.union (.single low) (.single '-')), rest)
      else members n false (.union set (.range low high)) rest
    | c :: rest =>
      if c = ']' && !first then some (set, rest)
      else if c = '\\' && rest.head? = some 'n' then
        members n false (.union set (.single '\n')) rest.tail
      else members n false (.union set (.single c)) rest

def bracket? (text : Text) : Option (CharSet × Text) :=
  match text with
  | '^' :: rest => (members text.length true .none rest).map fun (set, rest) =>
      (.complement set, rest)
  | _ => members (text.length + 1) true .none text

def interval? (inside : Text) : Option Symbol :=
  match Text.cut? "," inside with
  | none => do
    let n ← Text.number? inside
    return .interval n (some n)
  | some (least, most) => do
    let least ← if least.isEmpty then some 0 else Text.number? least
    if most.isEmpty then return .interval least none
    return .interval least (some (← Text.number? most))

def operator? (c : Char) : Option Symbol :=
  [('(', Symbol.opening), (')', .closing), ('|', .bar), ('+', .plus), ('?', .optional)].lookup c

def letter (c : Char) : Symbol :=
  let words : CharSet := .union (.range '0' '9')
    (.union (.range 'a' 'z') (.union (.range 'A' 'Z') (.single '_')))
  let spaces : CharSet := .union (.range '\t' '\r') (.single ' ')
  if '1' ≤ c && c ≤ '9' then .same (Text.digitValue c)
  else match c with
    | 'n' => .set (.single '\n')
    | 't' => .set (.single '\t')
    | 'w' => .set words
    | 'W' => .set (.complement words)
    | 's' => .set spaces
    | 'S' => .set (.complement spaces)
    | 'b' => .anchor (.wordEdge .word)
    | 'B' => .anchor (.noWordEdge .word)
    | '<' => .anchor (.wordStart .word)
    | '>' => .anchor (.wordEnd .word)
    | c => .set (.single c)

/-- Cuts an expression into symbols. `start` says that an expression starts here: there a basic
star is a plain character, and only there and at the end are basic anchors special. -/
def symbols (spelling : Spelling) : (fuel : Nat) → (start : Bool) → Text → Option (List Symbol)
  | _, _, [] => some []
  | 0, _, _ => none
  | n + 1, start, c :: rest =>
    let go (symbol : Symbol) (start : Bool) (rest : Text) : Option (List Symbol) :=
      (symbols spelling n start rest).map (symbol :: ·)
    let basic : Bool := spelling = .basic
    match c, rest with
    | '\\', [] => none
    | '\\', d :: rest =>
      if basic && d = '{' then do
        let (inside, rest) ← Text.cut? "\\\x7d" rest
        go (← interval? inside) false rest
      else match if basic then operator? d else none with
        | some .opening => go .opening true rest
        | some .bar => go .bar true rest
        | some symbol => go symbol false rest
        | none => go (letter d) false rest
    | '[', rest => do
      let (set, rest) ← bracket? rest
      go (.set set) false rest
    | '.', rest => go (.set (.complement .none)) false rest
    | '*', rest => if start && basic then go (.set (.single '*')) false rest else go .star false rest
    | '^', rest =>
      if start || !basic then go (.anchor .textStart) (start && basic) rest
      else go (.set (.single '^')) false rest
    | '$', rest =>
      if !basic || rest.isEmpty || Text.startsWith "\\)" rest || Text.startsWith "\\|" rest then
        go (.anchor .textEnd) false rest
      else go (.set (.single '$')) false rest
    | '{', rest =>
      if basic then go (.set (.single '{')) false rest
      else match (Text.cut? "\x7d" rest).bind fun (inside, rest) =>
          (interval? inside).map (·, rest) with
        | some (symbol, rest) => go symbol false rest
        | none => go (.set (.single '{')) false rest
    | c, rest =>
      match if basic then none else operator? c with
      | some symbol => go symbol (symbol matches .opening | .bar) rest
      | none => go (.set (.single c)) false rest

def copies (a : Regex) : Nat → Regex → Regex
  | 0, rest => rest
  | n + 1, rest => .seq a (copies a n rest)

def upTo (a : Regex) : Nat → Regex
  | 0 => .empty
  | n + 1 => .alt (.seq a (upTo a n)) .empty

def repeated (a : Regex) (least : Nat) : Option Nat → Regex
  | none => copies a least (.many a)
  | some most => copies a least (upTo a (most - least))

structure Draft where
  alternatives : List Regex := []
  sequence : Regex := .empty
  last : Option Regex := none

namespace Draft

def flush (p : Draft) : Draft :=
  match p.last with
  | none => p
  | some a => { p with sequence := .seq p.sequence a, last := none }

def add (p : Draft) (a : Regex) : Draft := { p.flush with last := some a }

def change? (p : Draft) (f : Regex → Regex) : Option Draft :=
  p.last.map fun a => { p with last := some (f a) }

def choose (p : Draft) : Draft :=
  { alternatives := p.flush.sequence :: p.alternatives }

def regex (p : Draft) : Regex :=
  p.alternatives.foldl (fun a b => .alt b a) p.flush.sequence

end Draft

def build (count : Nat) (outer : List (Nat × Draft)) (p : Draft) : List Symbol → Option Regex
  | [] => if outer.isEmpty then some p.regex else none
  | symbol :: rest =>
    match symbol with
    | .set s => build count outer (p.add (.one s)) rest
    | .anchor a => build count outer (p.add (.anchor a)) rest
    | .same number => if count < number then none else build count outer (p.add (.same number)) rest
    | .star => do build count outer (← p.change? .many) rest
    | .plus => do build count outer (← p.change? fun a => .seq a (.many a)) rest
    | .optional => do build count outer (← p.change? fun a => .alt a .empty) rest
    | .interval least most => do build count outer (← p.change? (repeated · least most)) rest
    | .bar => build count outer p.choose rest
    | .opening => build (count + 1) ((count + 1, p) :: outer) {} rest
    | .closing =>
      match outer with
      | [] => none
      | (number, surrounding) :: outer =>
        build count outer (surrounding.add (.group number p.regex)) rest

def parse? (spelling : Spelling) (text : Text) : Option Regex := do
  build 0 [] {} (← symbols spelling text.length true text)

def foldCase : Regex → Regex
  | .one set => .one (.anyCase set)
  | .seq a b => .seq a.foldCase b.foldCase
  | .alt a b => .alt a.foldCase b.foldCase
  | .many a => .many a.foldCase
  | .group number a => .group number a.foldCase
  | other => other

end ColorTheme.Shell.Regex
