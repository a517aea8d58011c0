import ColorTheme.Variable

/-!
Chains of references. A chain starts at a name and goes on from value to value while these are
references; it ends at another value, at a name that is bound to nothing, or at a name that it
has met before. Each step meets a new name of the table, so the chain cannot outlast it. -/
namespace ColorTheme.Variable

/-- Where a chain ends. `cycle` holds the names from the first one on; only the last occurs
twice. -/
inductive Chain
  | value (v : Text)
  | dangling
  | cycle (path : List Text)
deriving DecidableEq, Repr

def follow (table : Bindings) : (steps : Nat) → (met : List Text) → (name : Text) → Chain
  | 0, met, name => .cycle (met ++ [name])
  | steps + 1, met, name =>
    if met.contains name then .cycle (met ++ [name])
    else match table.get? name with
      | none => .dangling
      | some value =>
        if isReference value then follow table steps (met ++ [name]) value else .value value

/-- One step more than the table has names. -/
def resolve (table : Bindings) (name : Text) : Chain := follow table (table.size + 1) [] name

end ColorTheme.Variable
