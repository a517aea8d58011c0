import ColorTheme.Text

/-!
Scripts: commands that are put together by pipes, conditions and loops. Words keep what was
quoted, since quoted characters have no meaning of their own. -/
namespace ColorTheme.Shell

/-- How `${name…}` uses the value. With `orEmpty` an empty value counts as none. -/
inductive Usage
  | value
  | size
  | default (orEmpty : Bool)
  | assign (orEmpty : Bool)
  | alternative (orEmpty : Bool)
  | required (orEmpty : Bool)
  | withoutStart (longest : Bool)
  | withoutEnd (longest : Bool)
deriving DecidableEq, Repr

inductive Piece
  | char (c : Char) (quoted : Bool)
  /-- Quotes make a field, even if there is nothing between them. -/
  | quotes
  | parameter (name : Text) (usage : Usage) (word : List Piece) (quoted : Bool)
  | output (script : Text) (quoted : Bool)
  | arithmetic (expression : List Piece) (quoted : Bool)

abbrev Word := List Piece

def Word.plain? (word : Word) : Option Text :=
  word.mapM fun
    | .char c false => some c
    | _ => none

inductive RedirectionKind
  | read | write | append | duplicate
  | here
deriving DecidableEq, Repr

structure Redirection where
  handle : Nat
  kind : RedirectionKind
  word : Word

structure SimpleCommand where
  line : Nat
  assignments : List (Text × Word) := []
  words : List Word := []
  redirections : List Redirection := []

inductive Script
  | simple (command : SimpleCommand)
  | pipeline (negated : Bool) (parts : List Script)
  | both (a b : Script)
  | either (a b : Script)
  | sequence (parts : List Script)
  | redirected (body : Script) (redirections : List Redirection)
  | subshell (body : Script)
  | branch (condition yes no : Script)
  | loop (wanted : Bool) (condition body : Script)
  | each (name : Text) (words : Option (List Word)) (body : Script)
  | choose (subject : Word) (cases : List (List Word × Script))
  | define (name : Text) (body : Script)
  | background (body : Script)

end ColorTheme.Shell
