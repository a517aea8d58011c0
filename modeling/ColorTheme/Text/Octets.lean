import ColorTheme.Text.Utf8

/-!
Commands exchange bytes, and most of them look at single bytes only. Here a text stands for
bytes: every character is the byte with its number. -/
namespace ColorTheme.Octets

def ofBytes (bytes : Bytes) : Text := bytes.map fun b => Char.ofNat b.toNat

def toBytes (octets : Text) : Bytes := octets.map fun c => c.toNat.toUInt8

def ofText (text : Text) : Text := ofBytes (Utf8.encode text)

def toText (octets : Text) : Text := Utf8.decodeLossy (toBytes octets)

theorem toBytes_ofBytes (bytes : Bytes) : toBytes (ofBytes bytes) = bytes := by
  have valid (b : UInt8) : b.toNat.isValidChar :=
    Or.inl (Nat.lt_trans b.toNat_lt (by decide))
  have back (b : UInt8) : (Char.ofNat b.toNat).toNat.toUInt8 = b := by
    unfold Char.ofNat
    rw [dif_pos (valid b)]
    exact UInt8.ofNat_toNat
  simp [toBytes, ofBytes, Function.comp_def, back]

end ColorTheme.Octets
