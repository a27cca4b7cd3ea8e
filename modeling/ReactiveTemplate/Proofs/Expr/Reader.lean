import ReactiveTemplate.Proofs.Expr.Derivation

/-!
# Readers of forms

The reader that belongs to each form of the grammar, and which tokens its operators are.
-/

namespace ReactiveTemplate

open ReactiveTemplate.Expr ReactiveTemplate.Parser

namespace Token

variable {token : Token} {text : String}

theorem isPunctuation_iff :
    token.isPunctuation text ↔ token.kind = .punctuation ∧ token.text = text := by
  simp [isPunctuation]

theorem isOperator_iff : token.isOperator text ↔ token.kind = .operator ∧ token.text = text := by
  simp [isOperator]

end Token

/-! ## Operators by level -/

theorem BinaryOp.text_injective {a b : BinaryOp} (h : a.text = b.text) : a = b := by
  cases a <;> cases b <;> first | rfl | exact absurd h (by decide)

theorem UnaryOp.text_injective {a b : UnaryOp} (h : a.text = b.text) : a = b := by
  cases a <;> cases b <;> first | rfl | exact absurd h (by decide)

theorem UnaryOp.mem_all (a : UnaryOp) : a ∈ UnaryOp.all := by
  cases a <;> decide

/-- The operators of a level are those with the precedence of that level. Hence a derivation may
name precedences where the grammar lists operators. -/
theorem BinaryOp.mem_level_iff {level : Nat} {operators : List BinaryOp}
    (h : BinaryOp.levels[level]? = some operators) (a : BinaryOp) :
    a ∈ operators ↔ a.precedence = level := by
  have hlevel : level < 6 := (List.getElem?_eq_some_iff.mp h).1
  have hcases : level = 0 ∨ level = 1 ∨ level = 2 ∨ level = 3 ∨ level = 4 ∨ level = 5 := by omega
  rcases hcases with rfl | rfl | rfl | rfl | rfl | rfl <;> cases h <;> cases a <;> decide

/-- Among things with different texts, the one that is found by a text is the one with that text,
wherever in the list it stands. -/
theorem find?_text_eq_some {α : Type} {text : α → String} (hinj : ∀ a b, text a = text b → a = b)
    {written : String} {all : List α} {a : α} :
    all.find? (text · == written) = some a ↔ a ∈ all ∧ text a = written := by
  constructor
  · intro h
    exact ⟨List.mem_of_find?_eq_some h, by simpa using List.find?_some h⟩
  · rintro ⟨hmem, rfl⟩
    cases hfind : all.find? (text · == text a) with
    | none => simpa using List.find?_eq_none.mp hfind a hmem
    | some b => rw [hinj b a (by simpa using List.find?_some hfind)]

namespace Expr

/-- A token is taken for a unary operator exactly if it is an operator with the text of that one,
since no two have the same text. -/
theorem unaryOp?_eq_some {token : Token} {operator : UnaryOp} :
    unaryOp? token = some operator ↔ token.isOperator operator.text := by
  simp only [unaryOp?, UnaryOp.ofText?, Option.ite_none_right_eq_some,
    find?_text_eq_some @UnaryOp.text_injective, UnaryOp.mem_all, true_and, Token.isOperator_iff,
    @eq_comm _ token.text]

/-- A token is taken for one of some binary operators exactly if it has the text of that one. The
order in which they are tried plays no part. -/
theorem binaryOp?_eq_some_iff {operators : List BinaryOp} {token : Token} {operator : BinaryOp} :
    binaryOp? operators token = some operator ↔
      operator ∈ operators ∧ token.isOperator operator.text := by
  simp only [binaryOp?, Option.ite_none_right_eq_some, find?_text_eq_some @BinaryOp.text_injective,
    Token.isOperator_iff, @eq_comm _ token.text, and_left_comm]

/-- At a level of the grammar, a token is taken for the operators of that precedence only, which is
what makes operators of other levels end a form. -/
theorem binaryOp?_eq_some {level : Nat} {operators : List BinaryOp}
    (h : BinaryOp.levels[level]? = some operators) {token : Token} {operator : BinaryOp} :
    binaryOp? operators token = some operator ↔
      operator.precedence = level ∧ token.isOperator operator.text := by
  rw [binaryOp?_eq_some_iff, BinaryOp.mem_level_iff h]

end Expr

namespace Symbol

/-- The reader of a form where `depth` more parts may be open. -/
def reader (depth : Nat) : (s : Symbol) → Parser s.Value
  | filters => Levels.filterChain (Levels.ofDepth depth)
  | conditional => Levels.conditionals (Levels.ofDepth depth)
  | operation level =>
      (BinaryOp.levels.drop level).foldr Levels.binaries (Levels.unaries (Levels.ofDepth depth))
  | unary => Levels.unaries (Levels.ofDepth depth)
  | postfixes => Levels.postfixes (Levels.ofDepth depth)
  | primary => Levels.primary (Levels.ofDepth depth)
  | property => Levels.property (Levels.ofDepth depth)
  | items item close => Parser.items (item.reader depth) close
  | nested part =>
      match depth with
      | 0 => refuse .nestingTooDeep
      | depth + 1 => part.reader depth

/-- A form with operators of a level is read as a chain of forms of the next tighter level, for as
long as there are levels. -/
theorem reader_operation_of_some {depth level : Nat} {operators : List BinaryOp}
    (h : BinaryOp.levels[level]? = some operators) :
    (operation level).reader depth =
      Levels.binaries operators ((operation (level + 1)).reader depth) := by
  obtain ⟨hlevel, rfl⟩ := List.getElem?_eq_some_iff.mp h
  simp only [reader]
  rw [List.drop_eq_getElem_cons hlevel, List.foldr_cons]

theorem reader_operation_of_none {depth level : Nat} (h : BinaryOp.levels[level]? = none) :
    (operation level).reader depth = unary.reader depth := by
  simp only [reader]
  rw [List.drop_eq_nil_of_le (List.getElem?_eq_none_iff.mp h), List.foldr_nil]

/-- A part in brackets is read from the loosest form on, with one level of nesting used up. This is
where a reader of any depth meets the grammar. -/
theorem reader_part (depth : Nat) : part.reader depth = (Levels.ofDepth depth).filters := by
  cases depth <;> rfl

theorem reader_items_part (depth : Nat) (close : String) :
    (items part close).reader depth = Parser.items (Levels.ofDepth depth).filters close := by
  rw [reader, reader_part]

theorem reader_branch (depth : Nat) :
    (nested conditional).reader depth = (Levels.ofDepth depth).conditional := by
  cases depth <;> rfl

theorem reader_operand (depth : Nat) :
    (nested unary).reader depth = (Levels.ofDepth depth).unary := by
  cases depth <;> rfl

end Symbol

end ReactiveTemplate
