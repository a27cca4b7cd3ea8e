import ReactiveTemplate.Text.Position
import ReactiveTemplate.Text.Span

/-!
# Faults

What can be wrong with a template or with an expression in it. A `Fault` is the cause, with the
texts that its wording needs; a `SyntaxError` adds where it is. For a reader both become a
`Diagnostic`: a kind, a message, a span and perhaps a word of help.
-/

namespace ReactiveTemplate

/-- The stage that meets a fault. -/
inductive Phase where
  /-- Splitting an expression into tokens. -/
  | tokens
  /-- Building trees from tokens. -/
  | expression
  /-- Finding decorators in a template. -/
  | template
deriving DecidableEq, Inhabited

/-- The kinds of fault. -/
inductive FaultKind where
  | invalidToken
  | unterminatedString
  | invalidEscape
  | unexpectedToken
  | unexpectedEndOfExpression
  | notPrimaryExpression
  | invalidKey
  | invalidIdentifier
  | nestingTooDeep
  | unexpectedEndOfSource
  | mismatchedBracket
deriving DecidableEq, Inhabited

namespace FaultKind

/-- The name of a kind in JSON. -/
def name : FaultKind → String
  | invalidToken => "invalidToken"
  | unterminatedString => "unterminatedString"
  | invalidEscape => "invalidEscape"
  | unexpectedToken => "unexpectedToken"
  | unexpectedEndOfExpression => "unexpectedEndOfExpression"
  | notPrimaryExpression => "notPrimaryExpression"
  | invalidKey => "invalidKey"
  | invalidIdentifier => "invalidIdentifier"
  | nestingTooDeep => "nestingTooDeep"
  | unexpectedEndOfSource => "unexpectedEndOfSource"
  | mismatchedBracket => "mismatchedBracket"

/-- A kind in words. -/
def label : FaultKind → String
  | invalidToken => "Invalid token"
  | unterminatedString => "Unterminated string"
  | invalidEscape => "Invalid escape sequence"
  | unexpectedToken => "Unexpected token"
  | unexpectedEndOfExpression => "Unexpected end of expression"
  | notPrimaryExpression => "Not a primary expression"
  | invalidKey => "Invalid key"
  | invalidIdentifier => "Invalid identifier"
  | nestingTooDeep => "Nesting too deep"
  | unexpectedEndOfSource => "Unexpected end of source"
  | mismatchedBracket => "Mismatched bracket"

/-- The stage that meets faults of a kind. -/
def phase : FaultKind → Phase
  | invalidToken | unterminatedString | invalidEscape => .tokens
  | unexpectedToken | unexpectedEndOfExpression | notPrimaryExpression | invalidKey
  | invalidIdentifier | nestingTooDeep => .expression
  | unexpectedEndOfSource | mismatchedBracket => .template

/-- All kinds of fault. -/
def all : List FaultKind :=
  [invalidToken, unterminatedString, invalidEscape, unexpectedToken, unexpectedEndOfExpression,
    notPrimaryExpression, invalidKey, invalidIdentifier, nestingTooDeep, unexpectedEndOfSource,
    mismatchedBracket]

end FaultKind

/-- How many levels an expression may nest. -/
def nestingLimit : Nat :=
  64

/-- A cause of rejection, with the source text or the brackets that it names. -/
inductive Fault where
  /-- No token starts with this text. -/
  | invalidToken (text : String)
  /-- The source ends before this closing quote. -/
  | unterminatedString (quote : Char)
  /-- The source ends right after a backslash in a string. -/
  | unfinishedEscape
  | invalidEscape (text : String)
  /-- The grammar does not allow this token here; perhaps it asks for a certain one. -/
  | unexpectedToken (text : String) (expected : Option String)
  | unexpectedEndOfExpression
  | notPrimaryExpression (text : String)
  | invalidKey (text : String)
  | invalidIdentifier (text : String)
  | nestingTooDeep
  /-- The source ends before this closing bracket of a decorator. -/
  | unexpectedEndOfSource (closer : Char)
  /-- A closing bracket other than the expected one. -/
  | mismatchedBracket (found expected : Char)
deriving DecidableEq, Inhabited

namespace Fault

/-- The kind of a fault. -/
def kind : Fault → FaultKind
  | invalidToken _ => .invalidToken
  | unterminatedString _ => .unterminatedString
  | unfinishedEscape => .unterminatedString
  | invalidEscape _ => .invalidEscape
  | unexpectedToken _ _ => .unexpectedToken
  | unexpectedEndOfExpression => .unexpectedEndOfExpression
  | notPrimaryExpression _ => .notPrimaryExpression
  | invalidKey _ => .invalidKey
  | invalidIdentifier _ => .invalidIdentifier
  | nestingTooDeep => .nestingTooDeep
  | unexpectedEndOfSource _ => .unexpectedEndOfSource
  | mismatchedBracket _ _ => .mismatchedBracket

/-- The message about a text that does not belong where it stands. -/
def unexpectedTokenMessage (text : String) : String :=
  "Unexpected token \"" ++ text ++ "\""

/-- What is wrong, in one line unless the source text that it quotes has several. -/
def message : Fault → String
  | invalidToken text => unexpectedTokenMessage text
  | unterminatedString _ => "Unexpected end of string"
  | unfinishedEscape => "Unexpected end of string"
  | invalidEscape text => "Invalid escape sequence \"" ++ text ++ "\""
  | unexpectedToken text _ => unexpectedTokenMessage text
  | unexpectedEndOfExpression => "Unexpected end of expression"
  | notPrimaryExpression text => "Token \"" ++ text ++ "\" is not a primary expression"
  | invalidKey text => "Invalid key \"" ++ text ++ "\""
  | invalidIdentifier text => "Token \"" ++ text ++ "\" is not a valid identifier"
  | nestingTooDeep => "Expression nested too deeply"
  | unexpectedEndOfSource _ => "Unexpected end of source"
  | mismatchedBracket found _ => unexpectedTokenMessage found.toString

/-- What to do about it, where there is something to say. -/
def help : Fault → Option String
  | unterminatedString quote => some ("Close the string with " ++ quote.toString)
  | unexpectedToken _ (some expected) => some ("Expected \"" ++ expected ++ "\"")
  | nestingTooDeep =>
      some ("Expressions may nest at most " ++ toString nestingLimit ++ " levels")
  | unexpectedEndOfSource closer => some ("Close the decorator with " ++ closer.toString)
  | mismatchedBracket found expected =>
      some ("Expected " ++ expected.toString ++ " before " ++ found.toString)
  | _ => none

end Fault

/-- A fault and the source text that it is about. -/
structure SyntaxError where
  fault : Fault
  span : Span
deriving DecidableEq, Inhabited

namespace SyntaxError

/-- The same error in a source that has `offset` more bytes in front. -/
def shift (e : SyntaxError) (offset : Nat) : SyntaxError :=
  { e with span := e.span.shift offset }

end SyntaxError

/-- Where and why reading stops short: after `before` comes the offending `text`, and reading can go
on with `rest`. -/
structure Halt where
  fault : Fault
  before : List Char
  text : List Char
  rest : List Char
deriving DecidableEq, Inhabited

/-- The error of a reading that started at byte `offset`. -/
def Halt.error (halt : Halt) (offset : Nat) : SyntaxError :=
  let start := offset + byteWidth halt.before
  ⟨halt.fault, ⟨start, start + byteWidth halt.text⟩⟩

/-- A report on a source text. -/
structure Diagnostic where
  kind : FaultKind
  message : String
  span : Span
  help : Option String := none
deriving DecidableEq, Inhabited

namespace Diagnostic

/-- The same report on a source that has `offset` more bytes in front. -/
def shift (d : Diagnostic) (offset : Nat) : Diagnostic :=
  { d with span := d.span.shift offset }

end Diagnostic

/-- The report of an error. -/
def SyntaxError.diagnostic (e : SyntaxError) : Diagnostic :=
  ⟨e.fault.kind, e.fault.message, e.span, e.fault.help⟩

/-! ## Outcomes -/

/-- A run succeeds when its outcome, as far as `f` shows it, is known. -/
theorem exists_eq_ok_of_toOption {α β : Type} {x : Except SyntaxError α} {f : α → β} {b : β}
    (h : (x.map f).toOption = some b) : ∃ a, x = .ok a ∧ f a = b := by
  cases x with
  | error => contradiction
  | ok a => exact ⟨a, rfl, Option.some.inj h⟩

/-- The error of a run that fails. -/
def failure? {α : Type} : Except SyntaxError α → Option SyntaxError
  | .ok _ => none
  | .error e => some e

/-- A run fails when its error, as far as `f` shows it, is known. -/
theorem exists_eq_error_of_failure? {α β : Type} {x : Except SyntaxError α} {f : SyntaxError → β}
    {b : β} (h : (failure? x).map f = some b) : ∃ e, x = .error e ∧ f e = b := by
  cases x with
  | error e => exact ⟨e, rfl, Option.some.inj h⟩
  | ok => contradiction

end ReactiveTemplate
