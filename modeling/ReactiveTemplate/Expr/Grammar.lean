import ReactiveTemplate.Expr.Parser
import ReactiveTemplate.Token.Lexer

/-!
# The grammar of expressions

From loosest to tightest: filters, the conditional, six levels of binary operators, unary operators,
calls and member accesses, and primary expressions. All but the innermost parts of a level are read
by the next tighter one; parts inside brackets, branches of a conditional and operands of a unary
operator start anew, one level of nesting deeper.

The grammar is stated for readers of any kind that have the combinators. Nesting is bounded twice:
by how many parts are open at once, and by the height of every tree that is built. Hence a parser is
made of it by recursion on the number of levels that are left, `Levels.ofDepth`.
-/

namespace ReactiveTemplate

/-- The levels of the grammar that a nested part starts from, as readers `P`. -/
structure Levels (P : Type → Type) where
  filters : P Expr
  conditional : P Expr
  unary : P Expr

namespace Expr

/-- The tree itself unless it is taller than trees may be. -/
def bounded (e : Expr) : Except Refusal Expr :=
  if nestingLimit < e.height then .error ⟨.nestingTooDeep, some e.span⟩ else .ok e

/-- The name of a token, as an expression. -/
def ofName (token : Token) : Expr :=
  .identifier ⟨token.span, none⟩ token.text

/-- The literal of a token with the given value. -/
def ofValue (token : Token) (value : Value) : Expr :=
  .literal ⟨token.span, none⟩ value token.text

/-- The values that are written as names. -/
def keyword? (name : String) : Option Value :=
  if name = "true" then some (.boolean true)
  else if name = "false" then some (.boolean false)
  else if name = "null" then some .null
  else none

/-- The unary operator that a token is. -/
def unaryOp? (token : Token) : Option UnaryOp :=
  if token.kind = .operator then UnaryOp.ofText? token.text else none

/-- The binary operator that a token is, if it is one of `operators`. -/
def binaryOp? (operators : List BinaryOp) (token : Token) : Option BinaryOp :=
  if token.kind = .operator then operators.find? (·.text == token.text) else none

end Expr

namespace Levels

open ReactiveTemplate.Combinators ReactiveTemplate.Expr

variable {P : Type → Type} [Combinators P]

/-- A name, as its token. -/
def name : P Token :=
  first fun token =>
    if token.kind = .identifier then .finish token else .refuse (.invalidIdentifier token.text)

variable (inner : Levels P)

/-- The arguments of a call behind its opening parenthesis, and the span of the closing one. -/
def arguments : P (List Expr × Span) :=
  items .list inner.filters ")"

/-! ## Primary expressions -/

/-- The value of a property behind its key. -/
def keyValue (key : Expr) (computed : Bool) : P Property :=
  bind (expect ":") fun _ => map inner.filters fun value => ⟨key, value, computed, false⟩

/-- A key of an object. A name other than a keyword also gives a value, as a shorthand. -/
def key : P Property :=
  first fun token =>
    match token.kind with
    | .identifier =>
        let key := ofName token
        if (keyword? token.text).isSome then .proceed (keyValue inner key false)
        else .finish ⟨key, key, false, true⟩
    | .number value => .proceed (keyValue inner (ofValue token (.number value)) false)
    | .string value => .proceed (keyValue inner (ofValue token (.string value)) false)
    | _ =>
        if token.isPunctuation "[" then
          .proceed <| bind inner.filters fun key => bind (expect "]") fun _ =>
            keyValue inner key true
        else .refuse (.invalidKey token.text)

/-- A property of an object. -/
def property : P Property :=
  follow (key inner) fun p token =>
    if p.shorthand && token.isPunctuation ":" then
      some (map inner.filters fun value => ⟨p.key, value, false, false⟩)
    else none

/-- A parenthesized expression, an array, an object, a literal or a variable. -/
def primary : P Expr :=
  first fun token =>
    match token.kind with
    | .number value => .finish (ofValue token (.number value))
    | .string value => .finish (ofValue token (.string value))
    | .identifier =>
        match keyword? token.text with
        | some value => .finish (ofValue token value)
        | none => .finish (ofName token)
    | _ =>
        if token.isPunctuation "(" then
          .proceed <| bind inner.filters fun e => map (expect ")") fun _ => e
        else if token.isPunctuation "[" then
          .proceed <| build (items .list inner.filters "]") fun (elements, close) =>
            (Expr.array ⟨token.span.join close, none⟩ elements).bounded
        else if token.isPunctuation r"{" then
          .proceed <| build (items .object (property inner) r"}") fun (properties, close) =>
            (Expr.object ⟨token.span.join close, none⟩ properties).bounded
        else .refuse (.notPrimaryExpression token.text)

/-! ## Operators -/

/-- The call or member access that a token behind `e` starts. -/
def suffix (e : Expr) (token : Token) : Option (P Expr) :=
  if token.isPunctuation "(" then
    some <| build (arguments inner) fun (arguments, close) =>
      (Expr.call ⟨e.span.join close, none⟩ e arguments false).bounded
  else if token.isPunctuation "[" then
    some <| bind inner.filters fun property => build (expect "]") fun close =>
      (Expr.member ⟨e.span.join close, none⟩ e property true).bounded
  else if token.isPunctuation "." then
    some <| build name fun name =>
      (Expr.member ⟨e.span.join name.span, none⟩ e (ofName name) false).bounded
  else none

/-- A primary expression, with any number of calls and member accesses behind it. -/
def postfixes : P Expr :=
  chain .postfixes (primary inner) (suffix inner)

/-- A unary operator and its operand, or an expression without such an operator. -/
def unaries : P Expr :=
  orAfter (postfixes inner) fun token =>
    (unaryOp? token).map fun operator => build inner.unary fun argument =>
      (Expr.unary ⟨token.span.join argument.span, none⟩ operator true argument).bounded

/-- The operation that a token behind its left operand starts. -/
def operation (operators : List BinaryOp) (operand : P Expr) (left : Expr) (token : Token) :
    Option (P Expr) :=
  (binaryOp? operators token).map fun operator => build operand fun right =>
    (Expr.binary ⟨left.span.join right.span, none⟩ operator left right).bounded

/-- Operands of the next tighter level, with binary operators of one level between them that bind to
the left. -/
def binaries (operators : List BinaryOp) (operand : P Expr) : P Expr :=
  chain .binary operand (operation operators operand)

/-- An expression without a conditional or filters. -/
def operations : P Expr :=
  BinaryOp.levels.foldr binaries (unaries inner)

/-! ## Conditionals and filters -/

/-- An operation, or a conditional that starts with one. -/
def conditionals : P Expr :=
  follow (operations inner) fun test token =>
    if token.isPunctuation "?" then
      some <| bind inner.conditional fun consequent => bind (expect ":") fun _ =>
        build inner.conditional fun alternate =>
          (Expr.conditional ⟨test.span.join alternate.span, none⟩ test consequent alternate).bounded
    else none

/-- The name of a filter, its further arguments, and the span where they end. -/
structure FilterCall where
  name : Token
  arguments : List Expr
  stop : Span

/-- A filter behind its bar. -/
def filterCall : P FilterCall :=
  follow (map name fun name => ⟨name, [], name.span⟩) fun call token =>
    if token.isPunctuation "(" then
      some <| map (arguments inner) fun (arguments, close) => ⟨call.name, arguments, close⟩
    else none

/-- The filter that a token behind its input starts. -/
def filter (input : Expr) (token : Token) : Option (P Expr) :=
  if token.isOperator "|" then
    some <| build (filterCall inner) fun call =>
      (Expr.call ⟨input.span.join call.stop, none⟩ (ofName call.name) (input :: call.arguments)
        true).bounded
  else none

/-- An expression and the filters that its value passes through. -/
def filterChain : P Expr :=
  chain .filters (conditionals inner) (filter inner)

/-- The levels when `depth` more parts may be open at once. -/
def ofDepth : Nat → Levels Parser
  | 0 =>
      let refused := Parser.refuse .nestingTooDeep
      ⟨refused, refused, refused⟩
  | depth + 1 =>
      let inner := ofDepth depth
      ⟨filterChain inner, conditionals inner, unaries inner⟩

end Levels

namespace Expr

/-- The expressions of a list of tokens, separated by commas. -/
def ofTokens (tokens : List Token) : Except Refusal (List Expr) :=
  Parser.separated (Levels.ofDepth nestingLimit).filters tokens

end Expr

/-- The error of a refusal in a source of the given number of bytes. -/
def Refusal.error (refusal : Refusal) (width : Nat) : SyntaxError :=
  ⟨refusal.fault, refusal.place.getD (.point width)⟩

/-- The expressions of a source, separated by commas; an empty source has none. -/
def parse (source : String) : Except SyntaxError (List Expr) :=
  match tokenize source with
  | .error e => .error e
  | .ok tokens =>
      match Expr.ofTokens tokens with
      | .ok expressions => .ok expressions
      | .error refusal => .error (refusal.error source.utf8ByteSize)

/-- A source is parsed by way of its tokens. Both stages have to succeed, and the expressions are
those of the second one. -/
theorem parse_eq_ok_iff {source : String} {es : List Expr} :
    parse source = .ok es ↔
      ∃ tokens, tokenize source = .ok tokens ∧ Expr.ofTokens tokens = .ok es := by
  rw [parse]
  cases tokenize source with
  | error e => simp
  | ok tokens =>
      simp only [Except.ok.injEq, exists_eq_left']
      cases Expr.ofTokens tokens <;> simp

end ReactiveTemplate
