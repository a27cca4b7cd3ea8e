import ReactiveTemplate.Expr.Basic

/-!
# Constant parts and watched paths

`Expr.mark` notes for every evaluated part of an expression whether its value can never change: a
part is constant unless it holds a variable or a computed key. `Expr.targets` collects the paths
that have to be observed for the value to stay up to date. Of a path such as `foo.bar` only the
whole is observed, never `foo` alone.
-/

namespace ReactiveTemplate

/-- The note with what has been found out about the value. -/
def Note.mark (note : Note) (constant : Bool) : Note :=
  { note with constant := some constant }

namespace Expr

/-- The same node with another note. -/
def withNote (note : Note) : Expr → Expr
  | identifier _ name => identifier note name
  | literal _ value raw => literal note value raw
  | member _ base property computed => member note base property computed
  | call _ callee arguments filter => call note callee arguments filter
  | conditional _ test consequent alternate => conditional note test consequent alternate
  | object _ properties => object note properties
  | array _ elements => array note elements
  | unary _ operator before argument => unary note operator before argument
  | binary _ operator left right => binary note operator left right

/-! ## Constant parts -/

/-- A plain key: a literal is constant, and a name is left as it is. -/
def markKey (key : Expr) : Expr :=
  if key.isLiteral then key.withNote (key.note.mark true) else key

mutual

/-- Marks every evaluated part of an expression as constant or not. -/
def mark : Expr → Expr
  | identifier note name => identifier (note.mark false) name
  | literal note value raw => literal (note.mark true) value raw
  | member note base property computed =>
      let base := base.mark
      if computed then
        let property := property.mark
        member (note.mark (base.isConstant && property.isConstant)) base property computed
      else member (note.mark base.isConstant) base property computed
  | call note callee arguments filter =>
      let callee := callee.mark
      let arguments := markAll [] arguments
      call (note.mark (callee.isConstant && arguments.all isConstant)) callee arguments filter
  | conditional note test consequent alternate =>
      let test := test.mark
      let consequent := consequent.mark
      let alternate := alternate.mark
      conditional
        (note.mark (test.isConstant && alternate.isConstant && consequent.isConstant)) test
        consequent alternate
  | object note properties =>
      let properties := markProperties [] properties
      object (note.mark (properties.all fun p => !p.computed && p.value.isConstant)) properties
  | array note elements =>
      let elements := markAll [] elements
      array (note.mark (elements.all isConstant)) elements
  | unary note operator before argument =>
      let argument := argument.mark
      unary (note.mark argument.isConstant) operator before argument
  | binary note operator left right =>
      let left := left.mark
      let right := right.mark
      binary (note.mark (left.isConstant && right.isConstant)) operator left right

/-- Marks expressions, after the marked ones `done`, in reverse. -/
def markAll (done : List Expr) : List Expr → List Expr
  | [] => done.reverse
  | e :: es => markAll (e.mark :: done) es

/-- Marks properties, after the marked ones `done`, in reverse. -/
def markProperties (done : List Property) : List Property → List Property
  | [] => done.reverse
  | ⟨key, value, computed, shorthand⟩ :: ps =>
      let key := if computed then key.mark else key.markKey
      markProperties (⟨key, value.mark, computed, shorthand⟩ :: done) ps

end

/-! ## Watched paths -/

/-- Whether an expression is a variable or a chain of plain member accesses on one. -/
def isWatchable : Expr → Bool
  | identifier .. => true
  | member _ base _ false => base.isWatchable
  | _ => false

end Expr

/-- A path to observe, as its names and as the expression that reads it. -/
structure Target where
  path : List String
  expression : Expr

namespace Target

/-- A path as source text. -/
def text (target : Target) : String :=
  ".".intercalate target.path

/-- The variable that a path starts from. -/
def root (target : Target) : String :=
  target.path.headD ""

end Target

namespace Expr

/-- The targets `found`, newest first, and the expression itself when it is a path of its own. An
expression that is `nested` belongs to the path of the member access around it. -/
def watchWhole (nested : Bool) (e : Expr) (found : List Target) : List Target :=
  if e.isWatchable && !nested then
    match e.path? with
    | some path => ⟨path, e⟩ :: found
    | none => found
  else found

mutual

/-- The targets `found` and those of an expression, newest first. Parts come in the order of
evaluation: what is called before its arguments, the alternate before the consequent. -/
def watch (nested : Bool) (found : List Target) : Expr → List Target
  | identifier note name => watchWhole nested (identifier note name) found
  | literal .. => found
  | member note base property computed =>
      if computed then property.watch false (base.watch false found)
      else
        watchWhole nested (member note base property computed) (base.watch true found)
  | call _ callee arguments _ => watchAll (callee.watch false found) arguments
  | conditional _ test consequent alternate =>
      consequent.watch false (alternate.watch false (test.watch false found))
  | object _ properties => watchProperties found properties
  | array _ elements => watchAll found elements
  | unary _ _ _ argument => argument.watch false found
  | binary _ _ left right => right.watch false (left.watch false found)

/-- The targets `found` and those of some expressions, newest first. -/
def watchAll (found : List Target) : List Expr → List Target
  | [] => found
  | e :: es => watchAll (e.watch false found) es

/-- The targets `found` and those of some properties, newest first. -/
def watchProperties (found : List Target) : List Property → List Target
  | [] => found
  | ⟨key, value, computed, _⟩ :: ps =>
      watchProperties (value.watch false (if computed then key.watch false found else found)) ps

end

/-- The paths that have to be observed for the values of some expressions. -/
def targets (expressions : List Expr) : List Target :=
  (watchAll [] expressions).reverse

end Expr

end ReactiveTemplate
