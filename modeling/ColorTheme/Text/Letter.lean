import ColorTheme.Text.Block
import ColorTheme.Text.Numeral

/-!
Character classes over all of Unicode. A name may hold alphanumeric characters; a word
also marks, connecting punctuation and the two joiners, but not the numbers that are
neither digits nor letters. The two classes therefore differ in both directions. -/
namespace ColorTheme.Text

/-- Whether a code point lies in one of the blocks. The blocks ascend, so the search stops at
the first that ends at or after it. -/
def inBlocks (n : Nat) : List (Nat × Nat) → Bool
  | [] => false
  | (first, last) :: rest => if n ≤ last then decide (first ≤ n) else inBlocks n rest

def isAlphabetic (c : Char) : Bool := inBlocks c.toNat alphabeticBlocks

def isDecimal (c : Char) : Bool := inBlocks c.toNat decimalBlocks

def isAlphanumeric (c : Char) : Bool :=
  isAlphabetic c || isDecimal c || inBlocks c.toNat otherNumberBlocks

def isJoiner (c : Char) : Bool := c.toNat = 0x200C || c.toNat = 0x200D

def isWordChar (c : Char) : Bool :=
  isAlphabetic c || isDecimal c || inBlocks c.toNat markBlocks ||
    inBlocks c.toNat connectorBlocks || isJoiner c

def isAsciiAlphanumeric (c : Char) : Bool :=
  isDigit c || ('a' ≤ c && c ≤ 'z') || ('A' ≤ c && c ≤ 'Z')

def lowerAscii (c : Char) : Char :=
  if 'A' ≤ c && c ≤ 'Z' then Char.ofNat (c.toNat + 32) else c

def isNameChar (c : Char) : Bool := isAlphanumeric c || c = '_' || c = '-'

/-- Word characters and `-`: the class from which declared names are cut. -/
def isWordOrDash (c : Char) : Bool := isWordChar c || c = '-'

def byteWidth (c : Char) : Nat := c.utf8Size

def byteLength (text : Text) : Nat := text.foldl (fun width c => width + byteWidth c) 0

end ColorTheme.Text
