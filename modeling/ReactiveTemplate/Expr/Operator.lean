/-!
# Operators

The operators of expressions: the unary ones, and the binary ones on six levels of precedence. The
two operators on the loosest levels are logical; the others compute or compare.
-/

namespace ReactiveTemplate

/-- The operators in front of an operand. -/
inductive UnaryOp where
  | plus
  | minus
  | not
deriving DecidableEq, Inhabited

namespace UnaryOp

/-- An operator as it is written. -/
def text : UnaryOp → String
  | plus => "+"
  | minus => "-"
  | not => "!"

/-- All unary operators. -/
def all : List UnaryOp :=
  [plus, minus, not]

/-- The operator that is written `text`. -/
def ofText? (text : String) : Option UnaryOp :=
  all.find? (·.text == text)

end UnaryOp

/-- The operators between two operands. -/
inductive BinaryOp where
  | or
  | and
  | equal
  | notEqual
  | strictEqual
  | strictNotEqual
  | less
  | greater
  | lessEqual
  | greaterEqual
  | add
  | subtract
  | multiply
  | divide
  | remainder
deriving DecidableEq, Inhabited

namespace BinaryOp

/-- An operator as it is written. -/
def text : BinaryOp → String
  | or => "||"
  | and => "&&"
  | equal => "=="
  | notEqual => "!="
  | strictEqual => "==="
  | strictNotEqual => "!=="
  | less => "<"
  | greater => ">"
  | lessEqual => "<="
  | greaterEqual => ">="
  | add => "+"
  | subtract => "-"
  | multiply => "*"
  | divide => "/"
  | remainder => "%"

/-- Whether an operator may leave its right operand unevaluated. -/
def isLogical : BinaryOp → Bool
  | or | and => true
  | _ => false

/-- The operators by precedence, those that bind loosest first. -/
def levels : List (List BinaryOp) :=
  [[or], [and], [equal, notEqual, strictEqual, strictNotEqual],
    [less, greater, lessEqual, greaterEqual], [add, subtract], [multiply, divide, remainder]]

/-- The operator that is written `text`. -/
def ofText? (text : String) : Option BinaryOp :=
  levels.flatten.find? (·.text == text)

end BinaryOp

end ReactiveTemplate
