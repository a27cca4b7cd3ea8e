import ReactiveTemplate.Fault
import ReactiveTemplate.Value

/-!
# Tokens

An expression is read as a list of tokens. Literals carry the values that they stand for; every
token keeps its source text and its span.
-/

namespace ReactiveTemplate

/-- The classes of tokens. -/
inductive TokenKind where
  | identifier
  | number (value : Binary64)
  | string (value : String)
  | punctuation
  | operator
deriving DecidableEq, Inhabited

namespace TokenKind

/-- The name of a class in JSON. -/
def name : TokenKind → String
  | identifier => "identifier"
  | number _ => "numericLiteral"
  | string _ => "stringLiteral"
  | punctuation => "punctuation"
  | operator => "operator"

/-- The value of a literal. -/
def value? : TokenKind → Option Value
  | number x => some (.number x)
  | string s => some (.string s)
  | _ => none

end TokenKind

/-- A token of an expression. -/
structure Token where
  kind : TokenKind
  /-- The source text, the quotes of a string included. -/
  text : String
  span : Span
deriving DecidableEq, Inhabited

namespace Token

/-- Whether a token is this punctuation. -/
def isPunctuation (token : Token) (text : String) : Bool :=
  token.kind == .punctuation && token.text == text

/-- Whether a token is this operator. -/
def isOperator (token : Token) (text : String) : Bool :=
  token.kind == .operator && token.text == text

end Token

/-- A token without its place in a source. -/
structure Lexeme where
  kind : TokenKind
  text : List Char
deriving DecidableEq, Inhabited

namespace Lexeme

/-- The lexeme as the token at a byte offset. -/
def token (lexeme : Lexeme) (offset : Nat) (width : Nat) : Token :=
  ⟨lexeme.kind, String.ofList lexeme.text, ⟨offset, offset + width⟩⟩

end Lexeme

end ReactiveTemplate
