import RegularWords.Expr
import RegularWords.Text.Quoted

/-!
Expressions as outlines, which name every node of the tree: on one line, or with a line for each
node and bracket, indented by four spaces for each level.
-/

namespace RegularWords.Expr

mutual

def outline : Expr → String
  | .literal symbol => "Literal(" ++ Text.quotedChar symbol ++ ")"
  | .empty => "Empty"
  | .concat factors => "Concat([" ++ outlineChain factors ++ "])"
  | .union alternatives => "Union([" ++ outlineChain alternatives ++ "])"
  | .star inner => "Star(" ++ outline inner ++ ")"

def outlineChain : List Expr → String
  | [] => ""
  | [operand] => outline operand
  | operand :: next :: operands => outline operand ++ ", " ++ outlineChain (next :: operands)

end

def indentation (depth : Nat) : String :=
  String.ofList (List.replicate (4 * depth) ' ')

/-- A name with its content on lines of their own between brackets; every item ends with a comma. -/
def block (depth : Nat) (opening content closing : String) : String :=
  opening ++ "\n" ++ content ++ indentation depth ++ closing

mutual

/-- The outline over several lines; the first one is not indented. -/
def indentedOutline (depth : Nat) : Expr → String
  | .literal symbol =>
      block depth "Literal(" (indentation (depth + 1) ++ Text.quotedChar symbol ++ ",\n") ")"
  | .empty => "Empty"
  | .concat [] => block depth "Concat(" (indentation (depth + 1) ++ "[],\n") ")"
  | .concat (factor :: factors) =>
      block depth "Concat("
        (indentation (depth + 1) ++
          block (depth + 1) "[" (indentedLines (depth + 2) (factor :: factors)) "],\n") ")"
  | .union [] => block depth "Union(" (indentation (depth + 1) ++ "[],\n") ")"
  | .union (alternative :: alternatives) =>
      block depth "Union("
        (indentation (depth + 1) ++
          block (depth + 1) "[" (indentedLines (depth + 2) (alternative :: alternatives)) "],\n")
        ")"
  | .star inner =>
      block depth "Star(" (indentation (depth + 1) ++ indentedOutline (depth + 1) inner ++ ",\n")
        ")"

def indentedLines (depth : Nat) : List Expr → String
  | [] => ""
  | operand :: operands =>
      indentation depth ++ indentedOutline depth operand ++ ",\n" ++ indentedLines depth operands

end

end RegularWords.Expr
