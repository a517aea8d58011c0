import ColorTheme.Shell.Format
import ColorTheme.Shell.Tool

/-!
Tools that read texts and write others. -/
namespace ColorTheme.Shell.Tool

def cat : Tool := withOptions "cat" "nu" "" 1 fun call =>
  filter 1 call.operands (named "cat") fun text =>
    if call.has 'n' then
      (Text.linesWithEnds text).zipIdx.flatMap fun (line, i) =>
        let digits := Text.ofNat (i + 1)
        List.replicate (6 - digits.length) ' ' ++ digits ++ "\t" ++ line
    else text

def countWords (text : Text) : Nat :=
  let isBlank (c : Char) : Bool := c = ' ' || ('\t' ≤ c && c ≤ '\r')
  (text.foldl (fun (count, inside) c =>
    if isBlank c then (count, false) else (if inside then count else count + 1, true))
    (0, false)).1

def counts (call : Call) (text : Text) : List Nat :=
  let all : Bool := call.options.isEmpty
  (if all || call.has 'l' then [text.count '\n'] else []) ++
    (if all || call.has 'w' then [countWords text] else []) ++
    (if call.has 'm' then [text.length] else []) ++
    (if all || call.has 'c' then [text.length] else [])

def countLine (width : Nat) (numbers : List Nat) (name : Text) : Text :=
  let cells := numbers.map fun n =>
    let digits := Text.ofNat n
    List.replicate (width - digits.length) ' ' ++ digits
  List.intercalate [' '] cells ++ (if name.isEmpty then [] else ' ' :: name) ++ ['\n']

def wc : Tool := withOptions "wc" "lwcm" "" 1 fun call input => do
  let s ← sources (named "wc") call.operands input
  let rows := s.contents.map fun (name, text) => (counts call text, name)
  let totals := counts call s.text
  let single : Bool := totals.length = 1 && rows.length = 1
  let width := if single then 0
    else if s.readsInput then 7 else (Text.ofNat s.text.length).length
  let lines := rows.flatMap fun (numbers, name) =>
    countLine width numbers (if call.operands.isEmpty then [] else name)
  let total := if 1 < rows.length then countLine width totals "total" else []
  return { output := lines ++ total, errors := s.errors, readsInput := s.readsInput
           status := if s.errors.isEmpty then 0 else 1 }

/-! Characters. -/

def characters : (fuel : Nat) → Text → Text
  | _, [] => []
  | 0, _ => []
  | n + 1, '[' :: ':' :: rest =>
    match (Text.cut? ":]" rest).bind fun (name, rest) =>
        (Regex.className? name).map (·, rest) with
    | some (set, rest) =>
      ((List.range 256).map Char.ofNat).filter set.holds ++ characters n rest
    | none => '[' :: characters n (':' :: rest)
  | n + 1, low :: '-' :: high :: rest =>
    if low = '\\' then '-' :: characters n (high :: rest)
    else
      (List.range (high.toNat + 1 - low.toNat)).map (fun i => Char.ofNat (low.toNat + i)) ++
        characters n rest
  | n + 1, '\\' :: rest =>
    let (c, rest) := Format.escape rest
    (match c with
      | ['\\', d] => [d]
      | c => c) ++ characters n rest
  | n + 1, c :: rest => c :: characters n rest

def squeeze (set : Char → Bool) : Text → Text
  | [] => []
  | c :: rest =>
    match squeeze set rest with
    | [] => [c]
    | d :: rest => if c = d && set c then d :: rest else c :: d :: rest

def translate (source target : Text) (c : Char) : Char :=
  let last := target.getLast?.getD c
  let table := source.zip (target ++ List.replicate (source.length - target.length) last)
  (table.reverse.lookup c).getD c

def tr : Tool := withOptions "tr" "dscC" "" 1 fun call input =>
  let sets := call.operands.map fun text => characters text.length text
  let complement : Bool := call.has 'c' || call.has 'C'
  let inFirst (c : Char) : Bool := (sets.headD []).contains c != complement
  let source := if complement then ((List.range 256).map Char.ofNat).filter inFirst
    else sets.headD []
  let done (output : Text) : Reply := { output, readsInput := true }
  match sets with
  | [] => return fail "tr" "missing operand" 1
  | [_] =>
    if call.has 'd' then return done (input.filter (!inFirst ·))
    else if call.has 's' then return done (squeeze inFirst input)
    else return fail "tr" "missing operand after set" 1
  | _ :: second :: _ =>
    if call.has 'd' then return done (squeeze second.contains (input.filter (!inFirst ·)))
    else
      let output := input.map (translate source second)
      return done (if call.has 's' then squeeze second.contains output else output)

/-! Lines. -/

/-- A leading `-5` asks for as many lines as `-n 5`. -/
def oldCount : List Text → List Text
  | ('-' :: c :: digits) :: rest =>
    if (c :: digits).all Char.isDigit then "-n".toList :: (c :: digits) :: rest
    else ('-' :: c :: digits) :: rest
  | arguments => arguments

def unreadable (tool name reason : Text) : Text :=
  tool ++ ": cannot open '" ++ name ++ "' for reading: " ++ reason

def amount (value : Option Text) : Nat := ((value.bind Text.number?)).getD 10

def head : Tool := fun arguments => (withOptions "head" "q" "nc" 1 fun call =>
  filter 1 call.operands (unreadable "head") fun text =>
    match call.value? 'c' with
    | some n => text.take (amount (some n))
    | none =>
      match call.value? 'n' with
      | some ('-' :: n) =>
        let lines := Text.linesWithEnds text
        (lines.take (lines.length - amount (some n))).flatten
      | n => ((Text.linesWithEnds text).take (amount n)).flatten) (oldCount arguments)

def tail : Tool := fun arguments => (withOptions "tail" "q" "nc" 1 fun call =>
  filter 1 call.operands (unreadable "tail") fun text =>
    let part (items : List Text) : Option Text → Text
      | some ('+' :: n) => (items.drop (amount (some n) - 1)).flatten
      | some ('-' :: n) => (items.drop (items.length - amount (some n))).flatten
      | n => (items.drop (items.length - amount n)).flatten
    match call.value? 'c' with
    | some n => part (text.map ([·])) (some n)
    | none => part (Text.linesWithEnds text) (call.value? 'n')) (oldCount arguments)

def leadingNumber (line : Text) : Int :=
  let line := line.dropWhile fun c => c = ' ' || c = '\t'
  let (negative, digits) : Bool × Text := match line with
    | '-' :: digits => (true, digits)
    | digits => (false, digits)
  let n : Int := Format.decimal (digits.takeWhile Char.isDigit)
  if negative then -n else n

def dropRepeats : List Text → List Text
  | [] => []
  | line :: rest =>
    match dropRepeats rest with
    | [] => [line]
    | next :: rest => if line = next then next :: rest else line :: next :: rest

def sort : Tool := withOptions "sort" "nru" "" 2 fun call =>
  let smaller (a b : Text) : Bool :=
    if call.has 'n' && leadingNumber a != leadingNumber b then leadingNumber a < leadingNumber b
    else Text.before a b
  let complaint (name reason : Text) : Text := "sort: cannot read: " ++ name ++ ": " ++ reason
  filter 2 call.operands complaint fun text =>
    let sorted := (linesOf text).mergeSort fun a b =>
      if call.has 'r' then !smaller a b else !smaller b a
    unlines (if call.has 'u' then dropRepeats sorted else sorted)

def runs : List Text → List (Text × Nat)
  | [] => []
  | line :: rest =>
    match runs rest with
    | [] => [(line, 1)]
    | (next, n) :: rest =>
      if line = next then (next, n + 1) :: rest else (line, 1) :: (next, n) :: rest

def uniq : Tool := withOptions "uniq" "cdu" "" 1 fun call =>
  filter 1 (call.operands.take 1) (named "uniq") fun text =>
    let kept := (runs (linesOf text)).filter fun (_, n) =>
      (!call.has 'd' || 1 < n) && (!call.has 'u' || n = 1)
    kept.flatMap fun (line, n) =>
      (if call.has 'c' then countLine 7 [n] line else line ++ ['\n'])

def listed (list : Text) (position : Nat) : Bool :=
  (list.splitOn ',').any fun item =>
    match Text.cut? "-" item with
    | none => Format.decimal item = position
    | some (low, high) =>
      (low.isEmpty || Format.decimal low ≤ position) &&
        (high.isEmpty || position ≤ Format.decimal high)

def cut : Tool := withOptions "cut" "s" "dfcb" 1 fun call =>
  let pick (list : Text) (items : List Text) : List Text :=
    (items.zipIdx.filter fun (_, i) => listed list (i + 1)).map (·.1)
  filter 1 call.operands (named "cut") fun text =>
    unlines <| (linesOf text).filterMap fun line =>
      match call.value? 'f' with
      | some list =>
        let delimiter := ((call.value? 'd').bind List.head?).getD '\t'
        if line.contains delimiter then
          some (List.intercalate [delimiter] (pick list (line.splitOn delimiter)))
        else if call.has 's' then none else some line
      | none =>
        let list := ((call.value? 'c').or (call.value? 'b')).getD []
        some (pick list (line.map ([·]))).flatten

/-- The text with what ends each line kept at its end. -/
def reverseLine (line : Text) : Text :=
  if line.getLast? = some '\n' then line.dropLast.reverse ++ ['\n'] else line.reverse

def rev : Tool := withOptions "rev" "" "" 1 fun call =>
  filter 1 call.operands (named "rev") fun text =>
    (Text.linesWithEnds text).flatMap reverseLine

def tac : Tool := withOptions "tac" "" "" 1 fun call =>
  filter 1 call.operands (named "tac") fun text => (Text.linesWithEnds text).reverse.flatten

def tee : Tool := withOptions "tee" "a" "" 1 fun call input => do
  let mut errors : Text := []
  for name in call.operands do
    let fs ← get
    let bytes := Octets.toBytes input
    match if call.has 'a' then fs.append (pathOf name) bytes else fs.write (pathOf name) bytes with
    | .ok fs => set fs
    | .error e => errors := errors ++ named "tee" name (FileError.reason e) ++ "\n"
  return { output := input, errors, status := if errors.isEmpty then 0 else 1, readsInput := true }

end ColorTheme.Shell.Tool
