import RegularWords.Expr

/-!
Building chains.

An operand that is itself a chain of the same operator gives its operands to the new chain, and a
chain of one operand is that operand.  Built bottom-up, no chain has a chain of its own operator as
operand, so texts that differ only in how they group an operator build one tree.
-/

namespace RegularWords.Expr

def factors : Expr → List Expr
  | .concat factors => factors
  | other => [other]

def alternatives : Expr → List Expr
  | .union alternatives => alternatives
  | other => [other]

/-- The concatenation of a list of factors; without factors it denotes the empty word. -/
def concatAll (operands : List Expr) : Expr :=
  match operands.flatMap factors with
  | [single] => single
  | chain => .concat chain

/-- The union of a list of alternatives; without alternatives it denotes no word. -/
def unionAll (operands : List Expr) : Expr :=
  match operands.flatMap alternatives with
  | [single] => single
  | chain => .union chain

def followedBy (left right : Expr) : Expr :=
  concatAll [left, right]

def orElse (left right : Expr) : Expr :=
  unionAll [left, right]

end RegularWords.Expr
