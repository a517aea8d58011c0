import ColorTheme.Text

/-!
The last artifact, with the digest of the style sheets that it was made from. -/
namespace ColorTheme

structure Cache where
  digest : Option Text := none
  artifact : Text := []
deriving DecidableEq, Repr

namespace Cache

/-- The artifact, if it was made from sheets with this digest. -/
def lookup (c : Cache) (digest : Text) : Option Text :=
  if c.digest = some digest then some c.artifact else none

def store (_ : Cache) (digest artifact : Text) : Cache := ⟨some digest, artifact⟩

end Cache
end ColorTheme
