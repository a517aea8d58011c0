import ColorTheme.Text.Case
import ColorTheme.Text.Letter

/-!
Regular expressions and where they match. A place of a text is the character before it and
the text after it; a pattern leads from a place to all places where a match can end. Only
whether a pattern matches is asked, so no order among the ends is kept. -/
namespace ColorTheme

inductive CharSet
  | none
  | range (first last : Char)
  | digit | space | word
  | alphabetic
  | union (a b : CharSet)
  | inter (a b : CharSet)
  | without (a b : CharSet)
  | complement (a : CharSet)
  | anyCase (a : CharSet)
deriving DecidableEq, Repr

namespace CharSet

def holds : CharSet → Char → Bool
  | .none, _ => false
  | .range first last, c => first ≤ c && c ≤ last
  | .digit, c => Text.isDecimal c
  | .space, c => Text.isBlank c
  | .word, c => Text.isWordChar c
  | .alphabetic, c => Text.isAlphabetic c
  | .union a b, c => a.holds c || b.holds c
  | .inter a b, c => a.holds c && b.holds c
  | .without a b, c => a.holds c && !b.holds c
  | .complement a, c => !a.holds c
  | .anyCase a, c => (Text.caseVariants c).any a.holds

def single (c : Char) : CharSet := .range c c

def ofList (cs : List Char) : CharSet := cs.foldr (fun c set => .union (.single c) set) .none

end CharSet

inductive Anchor
  | textStart | textEnd
  | lineStart (terminators : List Char) | lineEnd (terminators : List Char)
  | wordEdge (letters : CharSet) | noWordEdge (letters : CharSet)
  | wordStart (letters : CharSet) | wordEnd (letters : CharSet)
  | wordStartHalf (letters : CharSet) | wordEndHalf (letters : CharSet)
deriving DecidableEq, Repr

inductive Pattern
  | empty
  | char (set : CharSet)
  | anchor (condition : Anchor)
  | seq (a b : Pattern)
  | alt (a b : Pattern)
  | repeated (a : Pattern) (least : Nat) (most : Option Nat)
deriving DecidableEq, Repr

/-- The character before a place and the text after it. -/
abbrev Place := Option Char × Text

/-- CR and LF that stand together end one line. -/
def Place.insideCrLf (p : Place) : Bool := p.1 = some '\r' && p.2.head? = some '\n'

def Anchor.holds (p : Place) : Anchor → Bool
  | .textStart => p.1.isNone
  | .textEnd => p.2.isEmpty
  | .lineStart ends => p.1.all ends.contains && !(ends.contains '\r' && p.insideCrLf)
  | .lineEnd ends => p.2.head?.all ends.contains && !(ends.contains '\r' && p.insideCrLf)
  | .wordEdge letters => p.1.any letters.holds != p.2.head?.any letters.holds
  | .noWordEdge letters => p.1.any letters.holds == p.2.head?.any letters.holds
  | .wordStart letters => !p.1.any letters.holds && p.2.head?.any letters.holds
  | .wordEnd letters => p.1.any letters.holds && !p.2.head?.any letters.holds
  | .wordStartHalf letters => !p.1.any letters.holds
  | .wordEndHalf letters => !p.2.head?.any letters.holds

namespace Pattern

def onward (step : Place → List Place) (places : List Place) : List Place :=
  (places.flatMap step).eraseDups

def times (step : Place → List Place) : Nat → List Place → List Place
  | 0, places => places
  | n + 1, places => times step n (onward step places)

def upTo (step : Place → List Place) : Nat → List Place → List Place
  | 0, places => places
  | n + 1, places => (places ++ upTo step n (onward step places)).eraseDups

/-- Where a match that starts at a place can end. A repetition without an upper bound needs no
more steps than there are characters left, since a step that covers none changes nothing. -/
def ends : Pattern → Place → List Place
  | .empty, p => [p]
  | .char set, (_, c :: rest) => if set.holds c then [(some c, rest)] else []
  | .char _, (_, []) => []
  | .anchor condition, p => if condition.holds p then [p] else []
  | .seq a b, p => onward b.ends (a.ends p)
  | .alt a b, p => (a.ends p ++ b.ends p).eraseDups
  | .repeated a least most, p =>
    let more := match most with
      | some most => most - least
      | none => p.2.length
    upTo a.ends more (times a.ends least [p])

def matchesFrom (pattern : Pattern) : (before : Option Char) → Text → Bool
  | before, [] => !(pattern.ends (before, [])).isEmpty
  | before, c :: rest =>
    !(pattern.ends (before, c :: rest)).isEmpty || pattern.matchesFrom (some c) rest

def isMatch (pattern : Pattern) (text : Text) : Bool := pattern.matchesFrom none text

end Pattern
end ColorTheme
