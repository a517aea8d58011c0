import ColorTheme.Text

/-!
Texts as bytes. Reading replaces what is no character: one replacement character stands for
the longest beginning of a character that a wrong byte breaks off. Bytes are the encoding of a
text just if they are the encoding of what is read from them. -/
namespace ColorTheme

abbrev Bytes := List UInt8

namespace Utf8

def encodeChar (c : Char) : Bytes :=
  let n := c.toNat
  let tail (weight : Nat) : UInt8 := (0x80 + n / weight % 64).toUInt8
  if n < 0x80 then [n.toUInt8]
  else if n < 0x800 then [(0xC0 + n / 64).toUInt8, tail 1]
  else if n < 0x10000 then [(0xE0 + n / 4096).toUInt8, tail 64, tail 1]
  else [(0xF0 + n / 262144).toUInt8, tail 4096, tail 64, tail 1]

def encode (text : Text) : Bytes := text.flatMap encodeChar

/-- A character begun: its bits so far, the bytes still owed, and the bounds of the next. -/
structure Begun where
  bits : Nat
  owed : Nat
  low : Nat := 0x80
  high : Nat := 0xBF

structure Reader where
  done : Text := []
  begun : Option Begun := none

def replacement : Char := '\uFFFD'

/-- A byte at the start of a character. The first byte bounds the second so that no character
has two encodings, is a surrogate or lies out of range. -/
def start (done : Text) (b : Nat) : Reader :=
  if b < 0x80 then ⟨Char.ofNat b :: done, none⟩
  else if 0xC2 ≤ b && b ≤ 0xDF then ⟨done, some { bits := b - 0xC0, owed := 1 }⟩
  else if 0xE0 ≤ b && b ≤ 0xEF then
    ⟨done, some { bits := b - 0xE0, owed := 2, low := if b = 0xE0 then 0xA0 else 0x80,
                  high := if b = 0xED then 0x9F else 0xBF }⟩
  else if 0xF0 ≤ b && b ≤ 0xF4 then
    ⟨done, some { bits := b - 0xF0, owed := 3, low := if b = 0xF0 then 0x90 else 0x80,
                  high := if b = 0xF4 then 0x8F else 0xBF }⟩
  else ⟨replacement :: done, none⟩

def step (r : Reader) (byte : UInt8) : Reader :=
  let b := byte.toNat
  match r.begun with
  | none => start r.done b
  | some p =>
    if p.low ≤ b && b ≤ p.high then
      let bits := 64 * p.bits + (b - 0x80)
      if p.owed ≤ 1 then ⟨Char.ofNat bits :: r.done, none⟩
      else ⟨r.done, some { bits, owed := p.owed - 1 }⟩
    else start (replacement :: r.done) b

/-- The text of some bytes, with replacement characters for what is no character. -/
def decodeLossy (bytes : Bytes) : Text :=
  let r := bytes.foldl step {}
  (if r.begun.isSome then replacement :: r.done else r.done).reverse

def decode? (bytes : Bytes) : Option Text :=
  let text := decodeLossy bytes
  if encode text = bytes then some text else none

end Utf8
end ColorTheme
