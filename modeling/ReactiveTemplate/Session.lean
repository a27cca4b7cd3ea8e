import Std.Data.HashMap
import ReactiveTemplate.Compiled

/-!
# Sessions

A session compiles expressions and templates and keeps what it has compiled, so that the same source
is not compiled twice. What fails is not kept.
-/

namespace ReactiveTemplate

/-- What has been compiled so far, by source. -/
structure Session where
  /-- Whether anything is kept. -/
  caching : Bool := true
  expressions : Std.HashMap String CompiledExpression := ∅
  templates : Std.HashMap String CompiledTemplate := ∅

namespace Session

/-- The number of expressions and templates that are kept. -/
def size (session : Session) : Nat :=
  session.expressions.size + session.templates.size

/-- A session that has forgotten everything. -/
def clear (session : Session) : Session :=
  { session with expressions := ∅, templates := ∅ }

/-- Keeps a compiled expression. -/
def keepExpression (session : Session) (compiled : CompiledExpression) : Session :=
  if session.caching then
    { session with expressions := session.expressions.insert compiled.source compiled }
  else session

/-- Keeps the compiled template of a source. -/
def keepTemplate (session : Session) (source : String) (compiled : CompiledTemplate) : Session :=
  if session.caching then
    { session with templates := session.templates.insert source compiled }
  else session

/-- The compiled expressions of a source. -/
def compileExpression (session : Session) (source : String) :
    Except SyntaxError CompiledExpression × Session :=
  match session.expressions[source]? with
  | some compiled => (.ok compiled, session)
  | none =>
      match ReactiveTemplate.compileExpression source with
      | .ok compiled => (.ok compiled, session.keepExpression compiled)
      | .error e => (.error e, session)

/-- Compiles the expressions of decorators in order, after the compiled ones `done`, newest first.
An error is one in the template that the decorators are from. -/
def compileDecorators (session : Session) (done : List CompiledDecorator) :
    List Decorator → Except SyntaxError (List CompiledDecorator) × Session
  | [] => (.ok done.reverse, session)
  | decorator :: rest =>
      match session.compileExpression decorator.expression with
      | (.ok compiled, session) => session.compileDecorators (⟨decorator, compiled⟩ :: done) rest
      | (.error e, session) => (.error (e.shift decorator.expressionSpan.start), session)

/-- The compiled template of a source. -/
def compileTemplate (session : Session) (source : String) :
    Except SyntaxError CompiledTemplate × Session :=
  match session.templates[source]? with
  | some compiled => (.ok compiled, session)
  | none =>
      match scan source with
      | .error e => (.error e, session)
      | .ok segments =>
          match session.compileDecorators [] (segments.filterMap Segment.decorator?) with
          | (.error e, session) => (.error e, session)
          | (.ok decorators, session) =>
              let compiled : CompiledTemplate := ⟨render segments, decorators⟩
              (.ok compiled, session.keepTemplate source compiled)

end Session

end ReactiveTemplate
