import ReactiveTemplate.Expr.Basic
import ReactiveTemplate.Token.Basic

/-!
# Combinators of readers

What readers of tokens are put together with. A grammar that is stated over these combinators can be
read with any kind of reader that has them: one that gives a result and the tokens that are left, or
one that keeps count of what it does on the way.
-/

namespace ReactiveTemplate

/-- Why a list of tokens is refused. -/
structure Refusal where
  fault : Fault
  /-- The offending source text, or none when the tokens run out. -/
  place : Option Span
deriving DecidableEq, Inhabited

/-- What the first token makes a reader do, among readers `P`. -/
inductive Decision (P : Type → Type) (α : Type) where
  /-- The token is all there is to read. -/
  | finish (a : α)
  /-- The token does not belong here. -/
  | refuse (fault : Fault)
  /-- Another reader reads on behind the token. -/
  | proceed (p : P α)

/-- The places of a grammar where something is read again and again. -/
inductive Loop where
  | build
  | filters
  | binary
  | postfixes
  | list
  | object
deriving DecidableEq

/-- A kind of readers, with what they are put together with. A loop says which one it is. -/
class Combinators (P : Type → Type) where
  /-- Takes one token and lets it decide. -/
  first {α : Type} (decide : Token → Decision P α) : P α
  /-- Leaves the first token to `p` unless `choose` names a reader that reads on behind it. -/
  orAfter {α : Type} (p : P α) (choose : Token → Option (P α)) : P α
  /-- Reads with `p`, then with the reader that `f` makes of the result. -/
  bind {α β : Type} (p : P α) (f : α → P β) : P β
  /-- Reads with `p` and makes something of the result, which may yet be refused. -/
  build {α β : Type} (p : P α) (f : α → Except Refusal β) : P β
  /-- Reads with `p` and makes something of the result. -/
  map {α β : Type} (p : P α) (f : α → β) : P β
  /-- Reads with `p`; if the next token then lets `step` go on from the result, reads on. -/
  follow {α : Type} (p : P α) (step : α → Token → Option (P α)) : P α
  /-- Reads with `p` and goes on for as long as the next token lets `step` do so. -/
  chain {α : Type} (loop : Loop) (p : P α) (step : α → Token → Option (P α)) : P α
  /-- A certain punctuation, as its span. -/
  expect (text : String) : P Span
  /-- The items of a list behind its opening bracket and the span of the closing one. -/
  items {α : Type} (loop : Loop) (item : P α) (close : String) : P (List α × Span)

end ReactiveTemplate
