import ReactiveTemplate.Text.Span

/-!
# Decorators

A template is text with decorators in it: `[name expression]`, `[#name expression]`, and the two
forms `{expression}` and `{=expression}` that stand for content. In the markup that is made of a
template each decorator becomes an element which holds its expression, and content gets an anchor.
-/

namespace ReactiveTemplate

/-- What a decorator does with its element. -/
inductive DecoratorKind where
  | modifier
  | processor
deriving DecidableEq, Inhabited

/-- The name of a kind. -/
def DecoratorKind.text : DecoratorKind → String
  | modifier => "modifier"
  | processor => "processor"

/-- The part of a decorator in front of its expression. -/
structure Header where
  kind : DecoratorKind
  name : String
  label : Option String
  /-- The path of the model that the decorator is bound to. -/
  model : Option String
  /-- Whether the decorator stands for content and gets an anchor. -/
  target : Bool
deriving DecidableEq, Inhabited

/-- A decorator of a template. -/
structure Decorator where
  header : Header
  /-- The source text of the expression, without white space around it. -/
  expression : String
  /-- The whole decorator, brackets included. -/
  span : Span
  expressionSpan : Span
deriving DecidableEq, Inhabited

/-- A stretch of text, as it is shown, or a decorator. -/
inductive Segment where
  | text (shown : String)
  | decorator (decorator : Decorator)
deriving DecidableEq, Inhabited

/-! ## Markup -/

namespace Markup

/-- The element around an expression. -/
def decoratorTag : String :=
  "dp:decorator"

/-- The element that evaluated content takes the place of. -/
def targetTag : String :=
  "dp:target"

/-- How a character is written as the content of an element. -/
def contentChar (c : Char) : List Char :=
  if c = '<' then ['&', 'l', 't', ';'] else if c = '>' then ['&', 'g', 't', ';'] else [c]

/-- A text as the content of an element. -/
def content (text : String) : String :=
  String.ofList (text.toList.flatMap contentChar)

/-- An attribute, or nothing when it has no value. -/
def attributeText (name : String) : Option String → String
  | some value => " " ++ name ++ "=\"" ++ value ++ "\""
  | none => ""

/-- The start of an element. -/
def openTag (tag : String) (attributes : List (String × Option String)) : String :=
  "<" ++ tag ++ String.join (attributes.map fun (name, value) => attributeText name value) ++ ">"

/-- The end of an element. -/
def closeTag (tag : String) : String :=
  "</" ++ tag ++ ">"

/-- The attributes of a decorator's element. -/
def attributes (header : Header) : List (String × Option String) :=
  [("name", some header.name), ("type", some header.kind.text), ("label", header.label),
    ("model", header.model)]

/-- A decorator's element, with the anchor behind it if there is one. -/
def element (header : Header) (expression : String) : String :=
  openTag decoratorTag (attributes header) ++ content expression ++ closeTag decoratorTag ++
    if header.target then openTag targetTag [] ++ closeTag targetTag else ""

end Markup

namespace Segment

/-- The markup of a segment. -/
def markup : Segment → String
  | text shown => shown
  | decorator d => Markup.element d.header d.expression

/-- The decorator that a segment is, if it is one. -/
def decorator? : Segment → Option Decorator
  | text _ => none
  | decorator d => some d

end Segment

/-- The markup of a template. -/
def render (segments : List Segment) : String :=
  String.join (segments.map Segment.markup)

end ReactiveTemplate
