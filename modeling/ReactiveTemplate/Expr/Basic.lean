import ReactiveTemplate.Expr.Operator
import ReactiveTemplate.Fault
import ReactiveTemplate.Value

/-!
# Expressions

The trees of expressions. Each node notes the span of its source text and whether it is known to be
constant, which stays open until the tree is marked.

A name after a point and a plain key of an object are not evaluated: they are no children of their
node. `Expr.children` lists the others in the order of the source.
-/

namespace ReactiveTemplate

/-- What is known about a node besides its form. -/
structure Note where
  span : Span
  /-- Whether the value never changes, once that has been found out. -/
  constant : Option Bool := none
deriving DecidableEq, Inhabited

mutual

/-- An expression. -/
inductive Expr where
  /-- A variable, or a name that stands for itself. -/
  | identifier (note : Note) (name : String)
  /-- A value and its source text. -/
  | literal (note : Note) (value : Value) (raw : String)
  /-- A member: `base.property`, or `base[property]` when the property is computed. -/
  | member (note : Note) (base property : Expr) (computed : Bool)
  /-- A call `callee(arguments)`, or a filter: `first argument | callee(other arguments)`. -/
  | call (note : Note) (callee : Expr) (arguments : List Expr) (filter : Bool)
  /-- A choice: `test ? consequent : alternate`. -/
  | conditional (note : Note) (test consequent alternate : Expr)
  | object (note : Note) (properties : List Property)
  | array (note : Note) (elements : List Expr)
  /-- An operator before its argument, as all of them are written. -/
  | unary (note : Note) (operator : UnaryOp) (before : Bool) (argument : Expr)
  | binary (note : Note) (operator : BinaryOp) (left right : Expr)

/-- An entry of an object: `key: value`, `[key]: value` when the key is computed, or `key` alone as
a shorthand for the variable of that name. -/
structure Property where
  key : Expr
  value : Expr
  computed : Bool
  shorthand : Bool

end

instance : Inhabited Expr :=
  ⟨.identifier default ""⟩

namespace Expr

/-- The note of a node. -/
def note : Expr → Note
  | identifier note .. => note
  | literal note .. => note
  | member note .. => note
  | call note .. => note
  | conditional note .. => note
  | object note .. => note
  | array note .. => note
  | unary note .. => note
  | binary note .. => note

/-- The span of a node's source text. -/
def span (e : Expr) : Span :=
  e.note.span

/-- Whether a node is known to be constant. -/
def isConstant (e : Expr) : Bool :=
  e.note.constant == some true

/-- Whether a node is a literal. -/
def isLiteral : Expr → Bool
  | literal .. => true
  | _ => false

/-- Whether a node is a number literal. -/
def isNumber : Expr → Bool
  | literal _ value _ => value.isNumber
  | _ => false

/-- Whether a node is an operator expression or a filter, whose parts are not held together by
brackets of its own. -/
def isCompound : Expr → Bool
  | call _ _ _ filter => filter
  | conditional .. | unary .. | binary .. => true
  | _ => false

/-- The parts of a node that are evaluated, in the order of the source. The input of a filter comes
before the filter's name. -/
def children : Expr → List Expr
  | identifier .. | literal .. => []
  | member _ base property computed => if computed then [base, property] else [base]
  | call _ callee arguments filter =>
      match filter, arguments with
      | true, input :: rest => input :: callee :: rest
      | _, arguments => callee :: arguments
  | conditional _ test consequent alternate => [test, consequent, alternate]
  | object _ properties =>
      properties.flatMap fun p => if p.computed then [p.key, p.value] else [p.value]
  | array _ elements => elements
  | unary _ _ _ argument => [argument]
  | binary _ _ left right => [left, right]

mutual

/-- The number of levels of a tree, through the parts that are evaluated. -/
def height : Expr → Nat
  | identifier .. | literal .. => 1
  | member _ base property computed =>
      1 + if computed then max base.height property.height else base.height
  | call _ callee arguments _ => 1 + tallest callee.height arguments
  | conditional _ test consequent alternate =>
      1 + max test.height (max consequent.height alternate.height)
  | object _ properties => 1 + tallestProperty 0 properties
  | array _ elements => 1 + tallest 0 elements
  | unary _ _ _ argument => 1 + argument.height
  | binary _ _ left right => 1 + max left.height right.height

/-- The greatest of `most` and the heights of some expressions. -/
def tallest (most : Nat) : List Expr → Nat
  | [] => most
  | e :: es => tallest (max most e.height) es

/-- The greatest of `most` and the heights of the evaluated parts of some properties. -/
def tallestProperty (most : Nat) : List Property → Nat
  | [] => most
  | ⟨key, value, computed, _⟩ :: ps =>
      tallestProperty (max most (if computed then max key.height value.height else value.height)) ps

end

/-- The names along a path of plain member accesses: those of `foo.bar.baz` are `foo`, `bar` and
`baz`. Any other expression has no such path. -/
def path? : Expr → Option (List String)
  | identifier _ name => some [name]
  | member _ base (identifier _ name) false => base.path?.map (· ++ [name])
  | _ => none

end Expr

end ReactiveTemplate
