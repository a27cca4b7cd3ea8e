import ReactiveTemplate.Compiled
import ReactiveTemplate.Json.Basic

/-!
# Tokens, trees and templates in JSON

Fields come in a fixed order, and those without a value are left out. How a number is written is up
to the caller; `Json.real` is the usual way.
-/

namespace ReactiveTemplate

/-- A field that is left out when there is no value. -/
def Json.optional {α : Type} (name : String) (toJson : α → Json) : Option α → List (String × Json)
  | some a => [(name, toJson a)]
  | none => []

/-- The start and the end of a span, as fields. -/
def Span.fields (span : Span) : List (String × Json) :=
  [("start", .integer span.start), ("end", .integer span.stop)]

/-- A span in JSON. -/
def Span.toJson (span : Span) : Json :=
  .object span.fields

/-- A decorator in JSON, as fields. -/
def Decorator.fields (d : Decorator) : List (String × Json) :=
  [("name", .string d.header.name), ("type", .string d.header.kind.text)] ++
    Json.optional "label" Json.string d.header.label ++
    Json.optional "model" Json.string d.header.model ++
    [("expression", .string d.expression), ("target", .boolean d.header.target),
      ("span", d.span.toJson), ("expression_span", d.expressionSpan.toJson)]

/-- A decorator in JSON. -/
def Decorator.toJson (d : Decorator) : Json :=
  .object d.fields

/-- A segment of a template in JSON. -/
def Segment.toJson : Segment → Json
  | text shown => .object [("kind", .string "text"), ("value", .string shown)]
  | decorator d => .object [("kind", .string "decorator"), ("value", d.toJson)]

/-- A report in JSON. -/
def Diagnostic.toJson (d : Diagnostic) : Json :=
  .object <|
    [("kind", .string d.kind.name), ("message", .string d.message), ("span", d.span.toJson)] ++
      Json.optional "help" Json.string d.help

/-- The name of a node's form in JSON. -/
def Expr.typeName : Expr → String
  | .identifier .. => "identifier"
  | .literal .. => "literal"
  | .member .. => "memberExpression"
  | .call .. => "callExpression"
  | .conditional .. => "conditionalExpression"
  | .object .. => "objectExpression"
  | .array .. => "arrayExpression"
  | .unary .. => "unaryExpression"
  | .binary _ operator .. => if operator.isLogical then "logicalExpression" else "binaryExpression"

section

variable (number : Binary64 → Json)

/-- A value in JSON. -/
def Value.toJson : Value → Json
  | .number x => number x
  | .string s => .string s
  | .boolean b => .boolean b
  | .null => .null

/-- A token in JSON. A literal also has its value and counts as constant. -/
def Token.toJson (token : Token) : Json :=
  .object <|
    [("type", .string token.kind.name), ("text", .string token.text)] ++
      (match token.kind.value? with
        | some value => [("value", value.toJson number), ("constant", .boolean true)]
        | none => []) ++
      token.span.fields

/-- The fields that every node of a tree ends with. -/
def Note.fields (note : Note) : List (String × Json) :=
  ("span", note.span.toJson) :: Json.optional "constant" Json.boolean note.constant

/-- A tree in JSON, given the fields that depend on the form of its root. -/
def Expr.node (e : Expr) (form : List (String × Json)) : Json :=
  .object (("type", .string e.typeName) :: form ++ e.note.fields)

mutual

/-- The fields of a tree in JSON that depend on the form of its root. -/
def Expr.formFields : Expr → List (String × Json)
  | .identifier _ name => [("name", .string name)]
  | .literal _ value raw => [("value", value.toJson number), ("raw", .string raw)]
  | .member _ base property computed =>
      [("object", base.node base.formFields), ("property", property.node property.formFields),
        ("computed", .boolean computed)]
  | .call _ callee arguments filter =>
      [("callee", callee.node callee.formFields),
        ("arguments", .array (Expr.nodes [] arguments)), ("filter", .boolean filter)]
  | .conditional _ test consequent alternate =>
      [("test", test.node test.formFields), ("consequent", consequent.node consequent.formFields),
        ("alternate", alternate.node alternate.formFields)]
  | .object _ properties => [("properties", .array (Expr.propertyNodes [] properties))]
  | .array _ elements => [("elements", .array (Expr.nodes [] elements))]
  | .unary _ operator before argument =>
      [("operator", .string operator.text), ("prefix", .boolean before),
        ("argument", argument.node argument.formFields)]
  | .binary _ operator left right =>
      [("operator", .string operator.text), ("left", left.node left.formFields),
        ("right", right.node right.formFields)]

/-- Trees in JSON, after those `done`, in reverse. -/
def Expr.nodes (done : List Json) : List Expr → List Json
  | [] => done.reverse
  | e :: es => Expr.nodes (e.node e.formFields :: done) es

/-- Properties in JSON, after those `done`, in reverse. -/
def Expr.propertyNodes (done : List Json) : List Property → List Json
  | [] => done.reverse
  | ⟨key, value, computed, shorthand⟩ :: ps =>
      let json := Json.object
        [("key", key.node key.formFields), ("value", value.node value.formFields),
          ("computed", .boolean computed), ("shorthand", .boolean shorthand)]
      Expr.propertyNodes (json :: done) ps

end

/-- A tree in JSON. -/
def Expr.toJson (e : Expr) : Json :=
  e.node (e.formFields number)

/-- A target in JSON. -/
def Target.toJson (target : Target) : Json :=
  .object [("path", Json.strings target.path), ("expression", target.expression.toJson number)]

/-- A compiled expression in JSON. -/
def CompiledExpression.toJson (compiled : CompiledExpression) : Json :=
  .object
    [("source", .string compiled.source),
      ("expressions", .array (compiled.expressions.map (Expr.toJson number))),
      ("targets", .array (compiled.targets.map (Target.toJson number))),
      ("constant", .boolean compiled.constant)]

/-- A compiled decorator in JSON: the fields of the decorator, then its compiled expression. -/
def CompiledDecorator.toJson (d : CompiledDecorator) : Json :=
  .object (d.decorator.fields ++ [("compiled", d.compiled.toJson number)])

/-- A compiled template in JSON. -/
def CompiledTemplate.toJson (compiled : CompiledTemplate) : Json :=
  .object
    [("markup", .string compiled.markup),
      ("decorators", .array (compiled.decorators.map (CompiledDecorator.toJson number)))]

end

/-- What a runtime needs of a decorator besides its trees. -/
def CompiledDecorator.outline (d : CompiledDecorator) : Json :=
  let header := d.decorator.header
  .object
    [("constant", .boolean d.compiled.constant), ("expression", .string d.decorator.expression),
      ("label", Json.ofOption Json.string header.label),
      ("model", Json.ofOption Json.string header.model), ("name", .string header.name),
      ("targets", Json.strings (d.compiled.targets.map Target.text)),
      ("type", .string header.kind.text)]

/-- A compact view of a template: its decorators without trees and spans, fields by name. -/
def CompiledTemplate.outline (compiled : CompiledTemplate) : Json :=
  .object [("decorators", .array (compiled.decorators.map CompiledDecorator.outline))]

end ReactiveTemplate
