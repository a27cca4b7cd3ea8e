import Mathlib.Data.List.Basic
import ReactiveTemplate.Proofs.Expr.Blame
import ReactiveTemplate.Proofs.Expr.Reader
import ReactiveTemplate.Proofs.Expr.Refusals
import ReactiveTemplate.Proofs.Token.DecimalText

/-!
# What errors point at

The span of an error lies within the source, between characters, and what a message quotes is the
text under the span. All errors are of these kinds: what is taken off a text for a number has a
value, and a token that is taken for an operator is one.
-/

namespace ReactiveTemplate

open ReactiveTemplate.Expr ReactiveTemplate.Parser

/-! ## Operators by their texts -/

namespace Levels

/-- The binary operators as they are written, those that bind loosest first. -/
def binaryTexts : List (List String) :=
  [["||"], ["&&"], ["==", "!=", "===", "!=="], ["<", ">", "<=", ">="], ["+", "-"], ["*", "/", "%"]]

/-- The unary operators as they are written. -/
def unaryTexts : List String :=
  ["+", "-", "!"]

/-- The texts that are listed for each level of binary operators are those of the operators that the
grammar has there. -/
theorem binaryTexts_eq : binaryTexts = BinaryOp.levels.map (·.map BinaryOp.text) :=
  rfl

theorem unaryTexts_eq : unaryTexts = UnaryOp.all.map UnaryOp.text :=
  rfl

/-- Whether a token is an operator with one of these texts. -/
def isOneOf (texts : List String) (token : Token) : Bool :=
  token.kind == .operator && texts.contains token.text

/-- The refusal of an operator that its text does not tell. -/
def unknown (token : Token) : Refusal :=
  ⟨.unexpectedToken token.text none, some token.span⟩

/-- What a token that is one of `texts` starts: an operand, and then the node for the operator that
the text of the token stands for. -/
def byText {α : Type} (texts : List String) (ofText? : String → Option α) (operand : Parser Expr)
    (node : α → Expr → Except Refusal Expr) (token : Token) : Option (Parser Expr) :=
  if isOneOf texts token then
    some <| operand.build fun e =>
      match ofText? token.text with
      | some operator => node operator e
      | none => .error (unknown token)
  else none

/-- A unary operator and its operand, or an expression without such an operator. -/
def unariesByText (inner : Levels Parser) : Parser Expr :=
  (postfixes inner).orAfter fun token =>
    byText unaryTexts UnaryOp.ofText? inner.unary (fun operator argument =>
      (Expr.unary ⟨token.span.join argument.span, none⟩ operator true argument).bounded) token

/-- Operands with binary operators of one level between them. -/
def binariesByText (texts : List String) (operand : Parser Expr) : Parser Expr :=
  operand.chain fun left =>
    byText texts BinaryOp.ofText? operand fun operator right =>
      (Expr.binary ⟨left.span.join right.span, none⟩ operator left right).bounded

/-- An expression without a conditional or filters. -/
def operationsByText (inner : Levels Parser) : Parser Expr :=
  binaryTexts.foldr binariesByText (unariesByText inner)

/-- Tokens are taken for their texts exactly where they stand for an operator. -/
theorem byText_eq {α : Type} {all : List α} {text : α → String} {ofText? : String → Option α}
    (hall : ∀ a ∈ all, ofText? (text a) = some a) {operator? : Token → Option α} {token : Token}
    (hoperator : ∀ a, operator? token = some a ↔ a ∈ all ∧ token.isOperator (text a))
    (operand : Parser Expr) (node : α → Expr → Except Refusal Expr) :
    byText (all.map text) ofText? operand node token =
      (operator? token).map fun operator => operand.build (node operator) := by
  cases hfound : operator? token with
  | some a =>
      obtain ⟨hmem, htoken⟩ := (hoperator a).mp hfound
      obtain ⟨hkind, htext⟩ := Token.isOperator_iff.mp htoken
      have hlookup := hall a hmem
      rw [← htext] at hlookup
      have hone : isOneOf (all.map text) token := by
        simp only [isOneOf, hkind, htext, beq_self_eq_true, Bool.true_and, List.contains_iff_mem]
        exact List.mem_map_of_mem hmem
      simp only [byText, hone, if_true, hlookup, Option.map_some]
  | none =>
      have hnone : ¬isOneOf (all.map text) token := by
        intro hone
        simp only [isOneOf, Bool.and_eq_true, beq_iff_eq, List.contains_iff_mem,
          List.mem_map] at hone
        obtain ⟨hkind, a, hmem, htext⟩ := hone
        have hfound' := (hoperator a).mpr ⟨hmem, Token.isOperator_iff.mpr ⟨hkind, htext.symm⟩⟩
        rw [hfound] at hfound'
        contradiction
      rw [byText, if_neg hnone]
      rfl

theorem binaryOfText?_of_mem {operators : List BinaryOp} (h : operators ∈ BinaryOp.levels)
    {operator : BinaryOp} (hmem : operator ∈ operators) :
    BinaryOp.ofText? operator.text = some operator :=
  (find?_text_eq_some @BinaryOp.text_injective).mpr ⟨List.mem_flatten_of_mem h hmem, rfl⟩

theorem unaryOfText?_text (operator : UnaryOp) : UnaryOp.ofText? operator.text = some operator :=
  (find?_text_eq_some @UnaryOp.text_injective).mpr ⟨operator.mem_all, rfl⟩

/-- Reading unary operators by their texts, with an error for texts that are none, is reading them
by what they denote. -/
theorem unariesByText_eq (inner : Levels Parser) : unariesByText inner = unaries inner := by
  refine congrArg (postfixes inner).orAfter (funext fun token => ?_)
  rw [unaryTexts_eq]
  refine byText_eq (fun operator _ => unaryOfText?_text operator) (fun operator => ?_) _ _
  rw [unaryOp?_eq_some, and_iff_right operator.mem_all]

/-- On each level, reading operators by their texts comes to the same as the grammar, since every
listed text is that of an operator. -/
theorem binariesByText_eq {operators : List BinaryOp} (h : operators ∈ BinaryOp.levels)
    (operand : Parser Expr) :
    binariesByText (operators.map BinaryOp.text) operand = binaries operators operand := by
  refine congrArg operand.chain (funext fun left => funext fun token => ?_)
  exact byText_eq (fun operator hmem => binaryOfText?_of_mem h hmem)
    (fun operator => binaryOp?_eq_some_iff) _ _

/-- All operators may be read by their texts, at every level. The error for an unknown operator is
never given. -/
theorem operationsByText_eq (inner : Levels Parser) :
    operationsByText inner = operations inner := by
  rw [operationsByText, operations, unariesByText_eq, binaryTexts_eq, List.foldr_map]
  exact List.foldr_ext _ _ _ fun operators h operand => binariesByText_eq h operand

end Levels

/-- What is taken for a number or an operator is one, so that no error is left for texts that are
taken and then turn out to be neither. -/
structure TextsDenote : Prop where
  /-- The text of a decimal denotes a number, and this is the number that is read. -/
  decimal : ∀ c cs, startsNumber c cs → ∃ x rest,
    Binary64.ofText? (decimalText (c :: cs)) = some x ∧
      decimalText (c :: cs) ++ rest = c :: cs ∧
      readDecimal (c :: cs) = endNumber (decimalText (c :: cs)) (some x) rest
  /-- The texts that tokens are taken for are those of operators. -/
  binary : ∀ texts ∈ Levels.binaryTexts, ∀ text ∈ texts, ∃ operator,
    BinaryOp.ofText? text = some operator
  unary : ∀ text ∈ Levels.unaryTexts, ∃ operator, UnaryOp.ofText? text = some operator
  /-- So taking a token for its text is taking it for its operator. -/
  operations : ∀ inner, Levels.operationsByText inner = Levels.operations inner

/-- A text that is taken for a number or an operator always denotes one. Both conversions have an
error for the opposite, which no source leads to. -/
theorem textsDenote : TextsDenote where
  decimal _ _ hstart := readDecimal_eq_ofText? hstart
  binary texts htexts text htext := by
    obtain ⟨operators, hoperators, rfl⟩ := List.mem_map.mp (Levels.binaryTexts_eq ▸ htexts)
    obtain ⟨operator, hmem, rfl⟩ := List.mem_map.mp htext
    exact ⟨operator, Levels.binaryOfText?_of_mem hoperators hmem⟩
  unary text htext := by
    obtain ⟨operator, -, rfl⟩ := List.mem_map.mp (Levels.unaryTexts_eq ▸ htext)
    exact ⟨operator, Levels.unaryOfText?_text operator⟩
  operations := Levels.operationsByText_eq

/-! ## Errors of a source -/

/-- An error that points at a piece of a source, and at the very text that it quotes. -/
structure SyntaxError.PointsInto (e : SyntaxError) (source : String) : Prop where
  ordered : e.span.start ≤ e.span.stop
  inside : e.span.stop ≤ source.utf8ByteSize
  /-- The span starts and stops between two characters. -/
  whole : ∃ text, e.span.Covers source.toList text
  quotes : ∀ words ∈ e.fault.kind.quotation?, ∃ text,
    e.fault.message = words.1 ++ text ++ words.2 ∧ e.span.Covers source.toList text.toList
  atEnd : e.fault.kind = .unexpectedEndOfExpression → e.span = .point source.utf8ByteSize

/-- What is known of an error by its cause makes it point into the source. -/
theorem SyntaxError.pointsInto {e : SyntaxError} {source : String}
    (hwhole : ∃ text, e.span.Covers source.toList text)
    (hquotes : ∀ text ∈ e.fault.quoted?, e.span.Covers source.toList text.toList)
    (hend : e.fault = .unexpectedEndOfExpression → e.span = .point source.utf8ByteSize) :
    e.PointsInto source where
  ordered := by
    obtain ⟨text, htext⟩ := hwhole
    exact htext.bounds.1
  inside := by
    obtain ⟨text, htext⟩ := hwhole
    rw [← byteWidth_toList]
    exact htext.bounds.2
  whole := hwhole
  quotes words hwords := by
    obtain ⟨text, hquoted, hmessage⟩ := Fault.exists_quoted hwords
    exact ⟨text, hmessage, hquotes text hquoted⟩
  atEnd hkind := by
    apply hend
    cases hfault : e.fault <;> rw [hfault] at hkind <;> first | rfl | contradiction

/-- An error of the tokenizer belongs to the phase of tokens. It points at text of the source and
quotes what is there. -/
theorem pointsInto_of_tokenize {source : String} {e : SyntaxError}
    (h : tokenize source = .error e) :
    e.fault.kind.phase = .tokens ∧ e.PointsInto source := by
  have hwhole := covers_of_tokenize_eq_error h
  obtain ⟨front, c, rest, halt, hsource, -, hread, rfl, -⟩ := Cursor.exists_halt h
  have hstands := stands_of_readLexeme hread
  refine ⟨hstands.phase, SyntaxError.pointsInto hwhole ?_ ?_⟩
  · intro text htext
    rw [hstands.quoted text htext, String.toList_ofList]
    rw [show source.toList = front ++ c :: rest from hsource, Cursor.ofSource, Nat.zero_add]
    exact Halt.covers_error (append_halt hread)
  · intro hfault
    have hphase := hstands.phase
    rw [show halt.fault = .unexpectedEndOfExpression from hfault] at hphase
    contradiction

/-- A refusal of tokens belongs to the phase of expressions. Its span lies at the borders of tokens,
or at the end of the source. -/
theorem pointsInto_of_refusal {source : String} {tokens : List Token} {refusal : Refusal}
    (htokens : tokenize source = .ok tokens) (h : Expr.ofTokens tokens = .error refusal) :
    refusal.fault.kind.phase = .expression ∧
      (refusal.error source.utf8ByteSize).PointsInto source := by
  have hfounded := founded_of_ofTokens h
  have hparse : parse source = .error (refusal.error source.utf8ByteSize) := by
    simp only [parse, htokens, h]
  refine ⟨hfounded.phase, SyntaxError.pointsInto (covers_of_parse_eq_error hparse) ?_ ?_⟩
  · intro text htext
    obtain ⟨token, htoken, rfl, hplace⟩ := hfounded.quotes text htext
    rw [Refusal.error, hplace]
    exact (tokenize_eq_ok_iff.mp htokens).covers htoken
  · intro hfault
    rw [Refusal.error, hfounded.ended hfault]
    rfl

/-- An error of either stage points into the source and at what it quotes, and its kind tells the
stage. No error is ever for a number or an operator that denotes nothing, because every text that is
taken for one denotes one. -/
theorem pointsInto_of_error {source : String} {e : SyntaxError}
    (h : tokenize source = .error e ∨ parse source = .error e) :
    e.PointsInto source ∧
      (tokenize source = .error e ∧ e.fault.kind.phase = .tokens ∨
        (∃ tokens, tokenize source = .ok tokens) ∧ e.fault.kind.phase = .expression) ∧
      TextsDenote := by
  cases htokens : tokenize source with
  | error e' =>
      have he : e' = e := by
        rcases h with h | h
        · rw [htokens] at h
          exact Except.error.inj h
        · rw [parse, htokens] at h
          exact Except.error.inj h
      subst he
      obtain ⟨hphase, hpoints⟩ := pointsInto_of_tokenize htokens
      exact ⟨hpoints, .inl ⟨rfl, hphase⟩, textsDenote⟩
  | ok tokens =>
      have hparse : parse source = .error e := by
        rcases h with h | h
        · rw [htokens] at h
          contradiction
        · exact h
      cases hread : Expr.ofTokens tokens with
      | ok es =>
          simp only [parse, htokens, hread] at hparse
          contradiction
      | error refusal =>
          simp only [parse, htokens, hread] at hparse
          cases hparse
          obtain ⟨hphase, hpoints⟩ := pointsInto_of_refusal htokens hread
          exact ⟨hpoints, .inr ⟨⟨tokens, rfl⟩, hphase⟩, textsDenote⟩

/-- A call without a comma between its arguments. -/
theorem pointsInto_of_error_call :
    ∃ e, parse "ü(\"é\" b)" = .error e ∧
      (e.fault, e.span) = (.unexpectedToken "b" (some ")"), ⟨8, 9⟩) ∧
      e.PointsInto "ü(\"é\" b)" ∧
      (tokenize "ü(\"é\" b)" = .error e ∧ e.fault.kind.phase = .tokens ∨
        (∃ tokens, tokenize "ü(\"é\" b)" = .ok tokens) ∧ e.fault.kind.phase = .expression) ∧
      TextsDenote := by
  obtain ⟨e, he, hvalue⟩ : ∃ e, parse "ü(\"é\" b)" = .error e ∧
      (e.fault, e.span) = (.unexpectedToken "b" (some ")"), ⟨8, 9⟩) :=
    exists_eq_error_of_failure? (by decide +kernel)
  exact ⟨e, he, hvalue, pointsInto_of_error (.inr he)⟩

end ReactiveTemplate
