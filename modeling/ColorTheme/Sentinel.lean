import ColorTheme.Bindings
import ColorTheme.Shade

/-!
Sentinel colors. Every exposed variable is compiled as a color of its own, by which it is known
again in the output. Colors are drawn from a stream of 32-bit numbers, and a color that is
reserved or was issued before is drawn again. -/
namespace ColorTheme

abbrev Draws := Nat → UInt32

namespace Draws

def congruentialStep (state : UInt64) : UInt64 :=
  state * 6364136223846793005 + 1442695040888963407

/-- The given numbers, and after them the upper halves of a congruential sequence from 1. -/
def ofList (given : Array UInt32) : Draws := fun n =>
  match given[n]? with
  | some v => v
  | none => (Nat.repeat congruentialStep (n - given.size + 1) 1 >>> 32).toUInt32

end Draws

def primarySentinel : Text := "#123456"

/-- Colors that are never issued, since style sheets use them often. -/
def reservedColors : List Text := ["#000000", "#ffffff", primarySentinel]

/-- `#` and six hexadecimal digits, or more for a number that needs them. -/
def colorText (n : Nat) : Text :=
  let digits := Nat.toDigits 16 n
  '#' :: List.replicate (6 - digits.length) '0' ++ digits

/-- The draws taken so far and the colors issued, the latest first. -/
structure Allocator where
  draws : Draws
  drawn : Nat := 0
  issued : List Text := []

namespace Allocator

def fresh (a : Allocator) (color : Text) : Bool :=
  !reservedColors.contains color && !a.issued.contains color

/-- A draw stands for the color of its upper 24 bits, unless bit 7 is set. -/
def colorOfDraw? (v : UInt32) : Option Text :=
  if v &&& 0x80 ≠ 0 then none else some (colorText (v >>> 8).toNat)

def freshAt? (a : Allocator) (n : Nat) : Option Text :=
  (colorOfDraw? (a.draws n)).filter a.fresh

/-- Draws until a color is fresh. There is no result if the stream yields none. -/
def next (a : Allocator) : Option (Text × Allocator) :=
  let after := { a with drawn := a.drawn + 1 }
  match a.freshAt? a.drawn with
  | some color => some (color, { after with issued := color :: a.issued })
  | none => after |>.next
partial_fixpoint

end Allocator

/-- Variables and their sentinels in the order of assignment, and the table that leads back. -/
structure SentinelMap where
  entries : List (Text × Text) := []
  bySentinel : Bindings := {}
deriving DecidableEq, Repr

namespace SentinelMap

def get? (m : SentinelMap) (name : Text) : Option Text := m.entries.lookup name

def variableFor? (m : SentinelMap) (sentinel : Text) : Option Text := m.bySentinel.get? sentinel

def give (m : SentinelMap) (name sentinel : Text) : SentinelMap where
  entries := m.entries ++ [(name, sentinel)]
  bySentinel := m.bySentinel.insert sentinel name

def assignFrom (m : SentinelMap) (a : Allocator) : List Text → Option (SentinelMap × Allocator)
  | [] => some (m, a)
  | name :: rest =>
    if (m.get? name).isSome then assignFrom m a rest
    else if name = primaryVariable then assignFrom (m.give name primarySentinel) a rest
    else do
      let (color, a) ← a.next
      assignFrom (m.give name color) a rest

def assign (names : List Text) (a : Allocator) : Option (SentinelMap × Allocator) :=
  assignFrom {} a names

def declarations (m : SentinelMap) : Text :=
  m.entries.flatMap fun (name, sentinel) => name ++ ": " ++ sentinel ++ ";\n"

end SentinelMap
end ColorTheme
