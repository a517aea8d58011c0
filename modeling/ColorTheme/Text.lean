/-!
Texts are lists of characters, so every scan below is a recursion on data. A string
constant is read as a text; no other string type is used in the library. -/
namespace ColorTheme

abbrev Text := List Char

instance : Coe String Text := ⟨String.toList⟩

namespace Text

def after? : (start text : Text) → Option Text
  | [], text => some text
  | _ :: _, [] => none
  | a :: start, b :: text => if a = b then after? start text else none

theorem after?_eq_some {start text rest : Text} :
    after? start text = some rest ↔ text = start ++ rest := by
  induction start generalizing text with
  | nil => simp [after?, eq_comm]
  | cons a start ih =>
    cases text with
    | nil => simp [after?]
    | cons b text =>
      by_cases same : a = b
      · simp [after?, same, ih]
      · simp [after?, same, Ne.symm same]

def startsWith (start text : Text) : Bool := (after? start text).isSome

def endsWith (suffix text : Text) : Bool := startsWith suffix.reverse text.reverse

def includes (needle : Text) : Text → Bool
  | [] => needle.isEmpty
  | c :: rest => startsWith needle (c :: rest) || includes needle rest

def cut? (needle : Text) : Text → Option (Text × Text)
  | [] => if needle.isEmpty then some ([], []) else none
  | c :: rest =>
    match after? needle (c :: rest) with
    | some tail => some ([], tail)
    | none => (cut? needle rest).map fun (head, tail) => (c :: head, tail)

def cutLast? (c : Char) : Text → Option (Text × Text)
  | [] => none
  | d :: rest =>
    match cutLast? c rest with
    | some (head, tail) => some (d :: head, tail)
    | none => if d = c then some ([], rest) else none

def isBlank (c : Char) : Bool :=
  let n := c.toNat
  (9 ≤ n && n ≤ 13) || n = 32 || n = 0x85 || n = 0xA0 || n = 0x1680 ||
    (0x2000 ≤ n && n ≤ 0x200A) || n = 0x2028 || n = 0x2029 || n = 0x202F || n = 0x205F ||
    n = 0x3000

def trimStart (text : Text) : Text := text.dropWhile isBlank
def trimEnd (text : Text) : Text := (text.reverse.dropWhile isBlank).reverse
def trim (text : Text) : Text := trimEnd (trimStart text)

/-- Texts between line feeds; a final line feed is followed by an empty line. -/
def lines (text : Text) : List Text := text.splitOn '\n'

def joinLines (parts : List Text) : Text := List.intercalate ['\n'] parts

/-- Each line with the line feed that ends it; the last line may have none. -/
def linesWithEnds : Text → List Text
  | [] => []
  | c :: rest =>
    if c = '\n' then [c] :: linesWithEnds rest
    else match linesWithEnds rest with
      | [] => [[c]]
      | line :: others => (c :: line) :: others

theorem linesWithEnds_flatten (text : Text) : (linesWithEnds text).flatten = text := by
  induction text with
  | nil => rfl
  | cons c rest ih =>
    unfold linesWithEnds
    by_cases feed : c = '\n'
    · simp [feed, ih]
    · cases known : linesWithEnds rest with
      | nil => simp_all
      | cons line others => simp_all [List.flatten_cons]

/-- Code point order, in which a proper beginning comes first. -/
def before (a b : Text) : Bool := decide (a < b)

/-- Puts `a` before the first element that is not smaller; an equal key keeps its place
after the earlier ones. -/
def insertBy (smaller : α → α → Bool) (a : α) : List α → List α
  | [] => [a]
  | b :: rest => if smaller b a then b :: insertBy smaller a rest else a :: b :: rest

/-- Sorts by insertion from the right, so equal elements stay in their order. -/
def sortBy (smaller : α → α → Bool) (items : List α) : List α :=
  items.foldr (insertBy smaller) []

def ofNat (n : Nat) : Text := Nat.toDigits 10 n

end Text
end ColorTheme
