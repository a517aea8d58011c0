import ColorTheme.Pattern

/-!
Wildcards: `*` for any text, `?` for any character, `[…]` for one of a set. A character that
was quoted stands for itself. -/
namespace ColorTheme.Shell

inductive GlobPart
  | many
  | one (set : CharSet)
deriving DecidableEq, Repr

abbrev Glob := List GlobPart

namespace Glob

abbrev Marked := Char × Bool

def readSet (first : Bool) (set : CharSet) : List Marked → Option (CharSet × List Marked)
  | [] => none
  | (']', false) :: rest =>
    if first then readSet false (.union set (.single ']')) rest else some (set, rest)
  | (low, _) :: ('-', false) :: (high, quoted) :: rest =>
    if high = ']' && !quoted then some (.union set (.union (.single low) (.single '-')), rest)
    else readSet false (.union set (.range low high)) rest
  | (c, _) :: rest => readSet false (.union set (.single c)) rest

def bracket? : List Marked → Option (CharSet × List Marked)
  | (mark, false) :: rest =>
    if mark = '!' || mark = '^' then
      (readSet true .none rest).map fun (set, rest) => (.complement set, rest)
    else readSet true .none ((mark, false) :: rest)
  | text => readSet true .none text

/-- An opening bracket that nothing closes stands for itself. -/
def read : (fuel : Nat) → List Marked → Glob
  | _, [] => []
  | 0, _ => []
  | n + 1, (c, true) :: rest => .one (.single c) :: read n rest
  | n + 1, (c, false) :: rest =>
    if c = '*' then .many :: read n rest
    else if c = '?' then .one (.complement .none) :: read n rest
    else if c = '[' then
      match bracket? rest with
      | some (set, rest) => .one set :: read n rest
      | none => .one (.single '[') :: read n rest
    else .one (.single c) :: read n rest

def ofMarked (text : List Marked) : Glob := read text.length text

def anyTail (condition : Text → Bool) : Text → Bool
  | [] => condition []
  | c :: rest => condition (c :: rest) || anyTail condition rest

def covers : Glob → Text → Bool
  | [], text => text.isEmpty
  | .many :: rest, text => anyTail (covers rest) text
  | .one set :: rest, c :: text => set.holds c && covers rest text
  | .one _ :: _, [] => false

def hasWildcards (text : List Marked) : Bool :=
  text.any fun (c, quoted) => !quoted && (c = '*' || c = '?' || c = '[')

end Glob
end ColorTheme.Shell
