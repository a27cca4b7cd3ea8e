import ReactiveTemplate.Expr.Grammar
import ReactiveTemplate.Expr.Watch
import ReactiveTemplate.Template.Scanner

/-!
# Compiled templates

A compiled expression holds its marked trees and the paths to observe; a compiled template holds the
markup and the compiled expression of every decorator.
-/

namespace ReactiveTemplate

/-- The expressions of a source, marked, and the paths that they read. -/
structure CompiledExpression where
  source : String
  expressions : List Expr
  targets : List Target

namespace CompiledExpression

/-- Whether all of the expressions are constant. -/
def constant (compiled : CompiledExpression) : Bool :=
  compiled.expressions.all Expr.isConstant

/-- The compiled form of parsed expressions. -/
def ofExpressions (source : String) (expressions : List Expr) : CompiledExpression :=
  let marked := expressions.map Expr.mark
  ⟨source, marked, Expr.targets marked⟩

end CompiledExpression

/-- Parses and marks the expressions of a source. -/
def compileExpression (source : String) : Except SyntaxError CompiledExpression :=
  (parse source).map (CompiledExpression.ofExpressions source)

/-- A decorator and its compiled expression. -/
structure CompiledDecorator where
  decorator : Decorator
  compiled : CompiledExpression

/-- A template's markup and its decorators. -/
structure CompiledTemplate where
  markup : String
  decorators : List CompiledDecorator

/-- Compiles the expression of a decorator. An error is one in the template that it is from. -/
def compileDecorator (d : Decorator) : Except SyntaxError CompiledDecorator :=
  match compileExpression d.expression with
  | .ok compiled => .ok ⟨d, compiled⟩
  | .error e => .error (e.shift d.expressionSpan.start)

/-- Compiles a template: its decorators in order, up to the first one that fails. -/
def compileTemplate (source : String) : Except SyntaxError CompiledTemplate :=
  match scan source with
  | .error e => .error e
  | .ok segments =>
      ((segments.filterMap Segment.decorator?).mapM compileDecorator).map fun decorators =>
        ⟨render segments, decorators⟩

end ReactiveTemplate
