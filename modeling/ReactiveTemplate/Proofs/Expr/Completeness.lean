import ReactiveTemplate.Proofs.Expr.Height
import ReactiveTemplate.Proofs.Expr.ParserLaws
import ReactiveTemplate.Proofs.Expr.Reader

/-!
# What has a derivation is read

A reader that meets tokens with a derivation gives the tree of that derivation, as long as no tree
is too high and not too many parts are open at once; otherwise it stops for being nested too deeply.
-/

namespace ReactiveTemplate

open ReactiveTemplate.Expr ReactiveTemplate.Parser

/-! ## Tokens that start or continue a form -/

namespace Token

/-- A call or a member access starts with the token. -/
def StartsSuffix (token : Token) : Prop :=
  ∃ text ∈ ["(", "[", "."], token.isPunctuation text

/-- The token is a binary operator of the given level or of a tighter one. -/
def IsBinaryFrom (level : Nat) (token : Token) : Prop :=
  ∃ operator : BinaryOp, level ≤ operator.precedence ∧ token.isOperator operator.text

end Token

namespace Symbol

/-- Whether a form may start with a token. No expression starts with a closing bracket, and only
one that is no operand by itself starts with an operator, which then is a unary one. -/
def Opens (token : Token) : Symbol → Prop
  | items item close => token.isPunctuation close ∨ item.Opens token
  | nested part => part.Opens token
  | postfixes | primary | property =>
      (∀ close ∈ [")", "]", r"}"], ¬token.isPunctuation close) ∧ token.kind ≠ .operator
  | _ =>
      (∀ close ∈ [")", "]", r"}"], ¬token.isPunctuation close) ∧
        (token.kind = .operator → ∃ operator : UnaryOp, token.isOperator operator.text)

/-- Whether a token behind a form may belong to a longer one. -/
def Continues (token : Token) : Symbol → Prop
  | primary | items _ _ => False
  | postfixes | unary => token.StartsSuffix
  | operation level => token.StartsSuffix ∨ token.IsBinaryFrom level
  | conditional => token.StartsSuffix ∨ token.IsBinaryFrom 0 ∨ token.isPunctuation "?"
  | filters =>
      token.StartsSuffix ∨ token.IsBinaryFrom 0 ∨ token.isPunctuation "?" ∨ token.isOperator "|"
  | property =>
      token.StartsSuffix ∨ token.IsBinaryFrom 0 ∨ token.isPunctuation "?" ∨ token.isOperator "|" ∨
        token.isPunctuation ":"
  | nested part => part.Continues token

/-- Nothing behind a form may belong to it. -/
def Stops (s : Symbol) (rest : List Token) : Prop :=
  ∀ token ∈ rest.head?, ¬s.Continues token

/-- The items of a list can be told apart from each other and from its end. -/
def Proper : Symbol → Prop
  | items item close =>
      item.Proper ∧ close ≠ "," ∧
        (∀ token : Token, token.isPunctuation close → ¬item.Opens token ∧ ¬item.Continues token) ∧
        ∀ token : Token, token.isPunctuation "," → ¬item.Continues token
  | nested part => part.Proper
  | _ => True

end Symbol

/-- A form covers at least one token, and the first is one that it may start with. -/
theorem Derives.opens {s : Symbol} {w : List Token} {v : s.Value} {d : Nat}
    (h : Derives s w v d) : ∃ token rest, w = token :: rest ∧ s.Opens token := by
  induction h with
  | nested _ ih | unfiltered _ ih | unconditional _ ih | tighter _ ih | operand _ ih
  | plain _ ih => exact ih
  | unsigned _ ih =>
      obtain ⟨token, rest, rfl, hopens⟩ := ih
      exact ⟨token, rest, rfl, hopens.1, fun hkind => absurd hkind hopens.2⟩
  | filter _ _ _ ih | filterCall _ _ _ _ _ ih | choice _ _ _ _ _ ih | binary _ _ _ ih
  | call _ _ _ ih | element _ _ _ _ ih | member _ _ _ ih =>
      obtain ⟨token, rest, rfl, hopens⟩ := ih
      exact ⟨token, _, rfl, hopens⟩
  | @unary _ _ operator _ _ htoken =>
      refine ⟨_, _, rfl, fun close _ hclose => ?_, fun _ => ⟨operator, htoken⟩⟩
      rw [Token.isOperator_iff] at htoken
      simp [Token.isPunctuation_iff, htoken] at hclose
  | group htoken | array htoken | object htoken | computedKey htoken =>
      refine ⟨_, _, rfl, ?_⟩
      rw [Token.isPunctuation_iff] at htoken
      simp [Symbol.Opens, Token.isPunctuation_iff, htoken]
  | @literal token _ hvalue | @literalKey _ token _ _ _ _ hvalue =>
      refine ⟨_, _, rfl, ?_⟩
      cases hkind : token.kind <;>
        simp_all [Symbol.Opens, Token.isPunctuation_iff, TokenKind.value?]
  | keyword hkind | name hkind | shorthand hkind | nameKey hkind =>
      refine ⟨_, _, rfl, ?_⟩
      simp [Symbol.Opens, Token.isPunctuation_iff, hkind]
  | close hclose => exact ⟨_, _, rfl, .inl hclose⟩
  | last _ _ ih | more _ _ _ ih =>
      obtain ⟨token, rest, rfl, hopens⟩ := ih
      exact ⟨token, _, rfl, .inr hopens⟩

/-! ## Where forms end -/

namespace Token

variable {token : Token} {text : String}

theorem not_isBinaryFrom_of_isPunctuation {level : Nat} (h : token.isPunctuation text) :
    ¬token.IsBinaryFrom level := by
  rintro ⟨operator, -, hoperator⟩
  rw [isPunctuation_iff] at h
  rw [isOperator_iff] at hoperator
  exact absurd (h.1.symm.trans hoperator.1) (by simp)

theorem not_startsSuffix_of_isOperator (h : token.isOperator text) : ¬token.StartsSuffix := by
  rintro ⟨mark, -, hmark⟩
  rw [isPunctuation_iff] at hmark
  rw [isOperator_iff] at h
  exact absurd (h.1.symm.trans hmark.1) (by simp)

end Token

namespace Symbol

variable {token : Token} {text : String}

/-- Punctuation that is no part of an expression ends one. -/
theorem not_continues_property_of_isPunctuation (h : token.isPunctuation text)
    (htext : text ∉ ["(", "[", ".", "?", ":"]) : ¬property.Continues token := by
  have hbinary : ¬token.IsBinaryFrom 0 := Token.not_isBinaryFrom_of_isPunctuation h
  rw [Token.isPunctuation_iff] at h
  simp_all [Continues, Token.StartsSuffix, Token.isPunctuation_iff, Token.isOperator_iff]

/-- A punctuation other than an opening bracket, a point or a question mark ends an expression with
all its filters. Commas, colons and closing brackets are such. -/
theorem not_continues_filters_of_isPunctuation (h : token.isPunctuation text)
    (htext : text ∉ ["(", "[", ".", "?"]) : ¬filters.Continues token := by
  have hbinary : ¬token.IsBinaryFrom 0 := Token.not_isBinaryFrom_of_isPunctuation h
  rw [Token.isPunctuation_iff] at h
  simp_all [Continues, Token.StartsSuffix, Token.isPunctuation_iff, Token.isOperator_iff]

/-- Where a form ends, every form that fewer tokens continue ends as well. The order among forms
comes down to this. -/
theorem Stops.mono {s s' : Symbol} {rest : List Token} (h : s.Stops rest)
    (himp : ∀ token, s'.Continues token → s.Continues token) : s'.Stops rest :=
  fun token htoken hcontinues => h token htoken (himp token hcontinues)

theorem stops_cons {s : Symbol} (rest : List Token) (h : ¬s.Continues token) :
    s.Stops (token :: rest) := by
  rintro token' htoken
  cases htoken
  exact h

theorem stops_items (item : Symbol) (close : String) (rest : List Token) :
    (items item close).Stops rest :=
  fun _ _ hcontinues => hcontinues

theorem stops_primary (rest : List Token) : primary.Stops rest :=
  fun _ _ hcontinues => hcontinues

/-- Behind an expression with filters, a conditional has come to its end as well: a looser form goes
on with all that a tighter one goes on with. -/
theorem Stops.conditional_of_filters {rest : List Token} (h : filters.Stops rest) :
    conditional.Stops rest := by
  apply h.mono
  intro token hcontinues
  rcases hcontinues with hsuffix | hbinary | hmark
  · exact .inl hsuffix
  · exact .inr (.inl hbinary)
  · exact .inr (.inr (.inl hmark))

/-- What ends a conditional ends the operation in front of it, because the question mark is the only
further continuation. -/
theorem Stops.operation_of_conditional {rest : List Token} (h : conditional.Stops rest) :
    (operation 0).Stops rest := by
  apply h.mono
  intro token hcontinues
  rcases hcontinues with hsuffix | hbinary
  · exact .inl hsuffix
  · exact .inr (.inl hbinary)

/-- What ends the operators of a level ends those of the next tighter one. By induction it ends all
the tighter levels. -/
theorem Stops.operation_succ {level : Nat} {rest : List Token}
    (h : (operation level).Stops rest) : (operation (level + 1)).Stops rest := by
  apply h.mono
  intro token hcontinues
  rcases hcontinues with hsuffix | ⟨operator, hlevel, hoperator⟩
  · exact .inl hsuffix
  · exact .inr ⟨operator, Nat.le_of_succ_le hlevel, hoperator⟩

theorem Stops.unary_of_operation {level : Nat} {rest : List Token}
    (h : (operation level).Stops rest) : unary.Stops rest :=
  h.mono fun _ hsuffix => .inl hsuffix

/-- Where a property ends, its value ends. The colon is the one token that continues a property and
no expression. -/
theorem Stops.filters_of_property {rest : List Token} (h : property.Stops rest) :
    filters.Stops rest := by
  apply h.mono
  intro token hcontinues
  rcases hcontinues with hsuffix | hbinary | hmark | hbar
  · exact .inl hsuffix
  · exact .inr (.inl hbinary)
  · exact .inr (.inr (.inl hmark))
  · exact .inr (.inr (.inr (.inl hbar)))

/-- What the reader of a form goes on with once it has read `v`. -/
def resume (depth : Nat) :
    (s : Symbol) → s.Value → List Token → Except Refusal (s.Value × List Token)
  | filters, e, rest => repeatFrom (Levels.filter (Levels.ofDepth depth)) e rest
  | operation level, e, rest =>
      match BinaryOp.levels[level]? with
      | some operators =>
          repeatFrom (Levels.operation operators ((operation (level + 1)).reader depth)) e rest
      | none => .ok (e, rest)
  | postfixes, e, rest => repeatFrom (Levels.suffix (Levels.ofDepth depth)) e rest
  | _, v, rest => .ok (v, rest)

/-- Nothing behind a form may belong to the parts that it repeats. -/
def Loose (rest : List Token) : Symbol → Prop
  | filters => conditional.Stops rest
  | operation level => (operation (level + 1)).Stops rest
  | postfixes => True
  | s => s.Stops rest

/-- The trees that a form stands for keep to the limit of nesting. -/
def Fits : (s : Symbol) → s.Value → Prop
  | filters, e | conditional, e | operation _, e | unary, e | postfixes, e | primary, e =>
      e.height ≤ nestingLimit
  | property, p => p.value.height ≤ nestingLimit ∧ (p.computed → p.key.height ≤ nestingLimit)
  | items item _, (vs, _) => ∀ v ∈ vs, item.Fits v
  | nested part, v => part.Fits v

/-- A reader that has come to the end of a form stops there. -/
theorem resume_of_stops {s : Symbol} {depth : Nat} {v : s.Value} {rest : List Token}
    (h : s.Stops rest) : s.resume depth v rest = .ok (v, rest) := by
  cases s with
  | filters =>
      apply repeatFrom_of_none
      intro token htoken
      have hbar : ¬token.isOperator "|" :=
        fun hbar => h token htoken (.inr (.inr (.inr hbar)))
      simp [Levels.filter, hbar]
  | operation level =>
      rw [resume]
      split
      · next operators hlevel =>
          apply repeatFrom_of_none
          intro token htoken
          have hnone : binaryOp? operators token = none := by
            rw [Option.eq_none_iff_forall_not_mem]
            intro operator hoperator
            obtain ⟨hprecedence, htext⟩ := (binaryOp?_eq_some hlevel).mp hoperator
            exact h token htoken (.inr ⟨operator, Nat.le_of_eq hprecedence.symm, htext⟩)
          simp [Levels.operation, hnone]
      · rfl
  | postfixes =>
      apply repeatFrom_of_none
      intro token htoken
      have hnone : ∀ text ∈ ["(", "[", "."], ¬token.isPunctuation text :=
        fun text htext hpunct => h token htoken ⟨text, htext, hpunct⟩
      simp_all [Levels.suffix]
  | _ => rfl

theorem Stops.loose {s : Symbol} {rest : List Token} (h : s.Stops rest) : s.Loose rest := by
  cases s with
  | filters => exact h.conditional_of_filters
  | operation => exact h.operation_succ
  | postfixes => trivial
  | _ => exact h

/-- Tokens are read as a form with the value `v`, unless they are nested too deeply. -/
def ReadsAs (s : Symbol) (w : List Token) (v : s.Value) (d : Nat) : Prop :=
  ∀ depth rest, s.Loose rest →
    Gives (d ≤ depth ∧ s.Fits v) ((s.reader depth).run (w ++ rest)) (s.resume depth v rest)

/-- The reader of a form reads its tokens and stops behind them, provided that the next token does
not go on. The depth and the heights decide whether it succeeds. -/
theorem ReadsAs.run {s : Symbol} {w rest : List Token} {v : s.Value} {d : Nat}
    (h : ReadsAs s w v d) (depth : Nat) (hrest : s.Stops rest) :
    Gives (d ≤ depth ∧ s.Fits v) ((s.reader depth).run (w ++ rest)) (.ok (v, rest)) := by
  have hread := h depth rest hrest.loose
  rwa [resume_of_stops hrest] at hread

end Symbol

/-! ## Each rule is read -/

/-- A tree is built as it is if it keeps to the bound on heights, and else refused for its
nesting. -/
theorem gives_bounded (e : Expr) : Gives (e.height ≤ nestingLimit) e.bounded (.ok e) := by
  by_cases h : e.height ≤ nestingLimit
  · exact .of_eq h (if_neg (Nat.not_lt.mpr h))
  · exact .refuse (some e.span) h (if_pos (Nat.not_le.mp h))

theorem gives_expect {token : Token} {text : String} {rest : List Token}
    (h : token.isPunctuation text) :
    Gives True ((expect text).run (token :: rest)) (.ok (token.span, rest)) :=
  .of_eq trivial (expect_run_cons h)

/-- A name is read whatever comes behind it, and it takes no level of nesting. -/
theorem gives_name {token : Token} {rest : List Token} (h : token.kind = .identifier) :
    Gives True ((Levels.name : Parser Token).run (token :: rest)) (.ok (token, rest)) :=
  .of_eq trivial (by simp [Levels.name, first, h])

namespace Symbol.ReadsAs

variable {w w' ws : List Token} {d d' : Nat}

/-- A form that starts anew takes one more level of nesting. With no level left, its reader refuses
at once, as the condition says. -/
theorem nested {s : Symbol} {v : s.Value} (h : ReadsAs s w v d) :
    ReadsAs (.nested s) w v (d + 1) := by
  intro depth rest hrest
  cases depth with
  -- A part for which no depth is left is refused, whatever it is.
  | zero => exact .refuse ((w ++ rest).head?.map (·.span)) (by simp) rfl
  | succ depth => exact (h.run depth hrest).congr (by simp [Fits])

theorem stops_conditional_bar {bar : Token} {rest : List Token} (hbar : bar.isOperator "|") :
    conditional.Stops (bar :: rest) := by
  refine stops_cons _ ?_
  rintro (hsuffix | ⟨operator, -, hoperator⟩ | hmark)
  · exact Token.not_startsSuffix_of_isOperator hbar hsuffix
  · rw [Token.isOperator_iff] at hbar hoperator
    have htext := hbar.2.symm.trans hoperator.2
    cases operator <;> exact absurd htext (by decide)
  · rw [Token.isOperator_iff] at hbar
    rw [Token.isPunctuation_iff] at hmark
    exact absurd (hbar.1.symm.trans hmark.1) (by simp)

/-- A filter without further arguments, behind an expression that may have filters already. It is
one more step of the chain. -/
theorem filter {bar name : Token} {input : Expr} (h : ReadsAs .filters w input d)
    (hbar : bar.isOperator "|") (hname : name.kind = .identifier) :
    ReadsAs .filters (w ++ [bar, name])
      (.call ⟨input.span.join name.span, none⟩ (ofName name) [input] true) d := by
  intro depth rest hrest
  rw [List.append_assoc]
  have hinput := h depth (bar :: name :: rest) (stops_conditional_bar hbar)
  have hcall : Gives True ((Levels.filterCall (Levels.ofDepth depth)).run (name :: rest))
      (.ok (⟨name, [], name.span⟩, rest)) := by
    -- Behind the name, nothing but an opening bracket belongs to the filter.
    refine (gives_name hname).map.unfollowed fun token htoken => if_neg fun hopen => ?_
    exact hrest token htoken (.inl ⟨"(", by simp, hopen⟩)
  refine (hinput.trans (.repeatFrom (if_pos hbar) (hcall.build (gives_bounded _)))).congr ?_
  have hheight := @height_le_of_mem_children
    (.call ⟨input.span.join name.span, none⟩ (ofName name) [input] true) input nestingLimit
    (by simp [children])
  simp only [Fits]
  grind

/-- A filter with further arguments in parentheses. Its input becomes the first argument, and the
deeper of the two parts counts. -/
theorem filterCall {bar name opener : Token} {input : Expr} {es : List Expr} {stop : Span}
    (h : ReadsAs .filters w input d) (hbar : bar.isOperator "|") (hname : name.kind = .identifier)
    (hopen : opener.isPunctuation "(") (hs : ReadsAs (.items .part ")") ws (es, stop) d') :
    ReadsAs .filters (w ++ bar :: name :: opener :: ws)
      (.call ⟨input.span.join stop, none⟩ (ofName name) (input :: es) true) (max d d') := by
  intro depth rest hrest
  rw [List.append_assoc]
  have hinput := h depth (bar :: name :: opener :: (ws ++ rest)) (stops_conditional_bar hbar)
  have harguments := hs.run depth (stops_items _ _ rest)
  rw [reader_items_part] at harguments
  have hcall : Gives (d' ≤ depth ∧ (items .part ")").Fits (es, stop))
      ((Levels.filterCall (Levels.ofDepth depth)).run (name :: opener :: (ws ++ rest)))
      (.ok (⟨name, es, stop⟩, rest)) := by
    refine Gives.congr (P := True ∧ _) ?_ (Iff.of_eq (true_and _))
    exact Gives.follow (gives_name hname).map (if_pos hopen) harguments.map
  refine (hinput.trans (.repeatFrom (if_pos hbar) (hcall.build (gives_bounded _)))).congr ?_
  have hheight (part : Expr) (hpart : part = input ∨ part ∈ es) :=
    @height_le_of_mem_children
      (.call ⟨input.span.join stop, none⟩ (ofName name) (input :: es) true) part nestingLimit
      (by rcases hpart with rfl | hpart <;> simp [children, *])
  simp only [Fits]
  grind

theorem unfiltered {e : Expr} (h : ReadsAs .conditional w e d) : ReadsAs .filters w e d :=
  fun depth _ hrest => (h.run depth hrest).chain

/-- A conditional with both of its branches. These are conditionals one level deeper, and the test
is an operation. -/
theorem choice {w₁ w₂ w₃ : List Token} {mark colon : Token} {test consequent alternate : Expr}
    {d₁ d₂ d₃ : Nat} (h₁ : ReadsAs (.operation 0) w₁ test d₁) (hmark : mark.isPunctuation "?")
    (h₂ : ReadsAs (.nested .conditional) w₂ consequent d₂) (hcolon : colon.isPunctuation ":")
    (h₃ : ReadsAs (.nested .conditional) w₃ alternate d₃) :
    ReadsAs .conditional (w₁ ++ mark :: (w₂ ++ colon :: w₃))
      (.conditional ⟨test.span.join alternate.span, none⟩ test consequent alternate)
      (max d₁ (max d₂ d₃)) := by
  intro depth rest hrest
  have htest : Symbol.Stops (.operation 0) (mark :: (w₂ ++ colon :: (w₃ ++ rest))) := by
    refine stops_cons _ ?_
    rintro (⟨text, htext, hpunct⟩ | hbinary)
    · rw [Token.isPunctuation_iff] at hmark hpunct
      simp_all
    · exact Token.not_isBinaryFrom_of_isPunctuation hmark hbinary
  -- A colon ends the first branch, where it may not end a property.
  have hconsequent : Symbol.Stops (.nested .conditional) (colon :: (w₃ ++ rest)) :=
    (stops_cons _ (not_continues_filters_of_isPunctuation hcolon (by simp))).conditional_of_filters
  have hfirst := h₁.run depth htest
  have hsecond := h₂.run depth hconsequent
  have hthird := h₃.run depth (s := .nested .conditional) hrest
  rw [reader_branch] at hsecond hthird
  rw [List.append_assoc, List.cons_append, List.append_assoc, List.cons_append]
  have hbounded := gives_bounded
    (.conditional ⟨test.span.join alternate.span, none⟩ test consequent alternate)
  refine (hfirst.follow (if_pos hmark) (hsecond.bind ((gives_expect hcolon).bind
    (hthird.build hbounded)))).congr ?_
  have hheight (part : Expr) (hpart : part = test ∨ part = consequent ∨ part = alternate) :=
    @height_le_of_mem_children
      (.conditional ⟨test.span.join alternate.span, none⟩ test consequent alternate) part
      nestingLimit (by simpa [children] using hpart)
  simp only [Fits]
  grind

/-- An operation with no question mark behind it is a conditional by itself. The mark is what the
end of the form excludes. -/
theorem unconditional {e : Expr} (h : ReadsAs (.operation 0) w e d) :
    ReadsAs .conditional w e d := by
  intro depth rest hrest
  apply (h.run depth hrest.operation_of_conditional).unfollowed
  intro token htoken
  exact if_neg fun hmark => hrest token htoken (.inr (.inr hmark))

/-- An operator of a level between a form of the level and one of the next tighter level, which
makes operators of one level bind to the left. -/
theorem binary {token : Token} {operator : BinaryOp} {left right : Expr}
    (h : ReadsAs (.operation operator.precedence) w left d)
    (htoken : token.isOperator operator.text)
    (h' : ReadsAs (.operation (operator.precedence + 1)) w' right d') :
    ReadsAs (.operation operator.precedence) (w ++ token :: w')
      (.binary ⟨left.span.join right.span, none⟩ operator left right) (max d d') := by
  intro depth rest hrest
  -- The operator itself is too loose for the operand in front of it.
  have hloose : Symbol.Stops (.operation (operator.precedence + 1)) (token :: (w' ++ rest)) := by
    refine stops_cons _ ?_
    rintro (hsuffix | ⟨tighter, hlevel, htighter⟩)
    · exact Token.not_startsSuffix_of_isOperator htoken hsuffix
    · rw [Token.isOperator_iff] at htoken htighter
      rw [BinaryOp.text_injective (htoken.2.symm.trans htighter.2)] at hlevel
      exact Nat.not_succ_le_self _ hlevel
  have hleft := h depth (token :: (w' ++ rest)) hloose
  have hright := h'.run depth hrest
  obtain ⟨operators, hlevel⟩ :
      ∃ operators, BinaryOp.levels[operator.precedence]? = some operators := by
    cases operator <;> exact ⟨_, rfl⟩
  have hstep : Levels.operation operators
      ((Symbol.operation (operator.precedence + 1)).reader depth) left token =
      some (((Symbol.operation (operator.precedence + 1)).reader depth).build fun right =>
        (Expr.binary ⟨left.span.join right.span, none⟩ operator left right).bounded) := by
    rw [Levels.operation, (binaryOp?_eq_some hlevel).mpr ⟨rfl, htoken⟩]
    rfl
  have hbounded := gives_bounded (.binary ⟨left.span.join right.span, none⟩ operator left right)
  rw [List.append_assoc]
  simp only [resume, hlevel] at hleft ⊢
  refine (hleft.trans (.repeatFrom hstep (hright.build hbounded))).congr ?_
  have hheight (part : Expr) (hpart : part = left ∨ part = right) :=
    @height_le_of_mem_children (.binary ⟨left.span.join right.span, none⟩ operator left right) part
      nestingLimit (by simpa [children] using hpart)
  simp only [Fits]
  grind

/-- A form of a tighter level is one of the looser level with no operator. All levels up to the
loosest are passed in this way. -/
theorem tighter {level : Nat} {e : Expr} (h : ReadsAs (.operation (level + 1)) w e d) :
    ReadsAs (.operation level) w e d := by
  intro depth rest hrest
  have hread := h.run depth hrest
  cases hlevel : BinaryOp.levels[level]? with
  | some operators =>
      rw [reader_operation_of_some hlevel]
      simp only [resume, hlevel]
      exact hread.chain
  | none =>
      -- Beyond the last level there are no operators, so both readers are that of operands.
      have hnext : BinaryOp.levels[level + 1]? = none := by
        rw [List.getElem?_eq_none_iff] at hlevel ⊢
        exact Nat.le_succ_of_le hlevel
      rw [reader_operation_of_none hnext] at hread
      rw [reader_operation_of_none hlevel]
      simp only [resume, hlevel]
      exact hread

theorem operand {e : Expr} (h : ReadsAs .unary w e d) : ReadsAs (.operation 6) w e d :=
  fun depth _ hrest => h.run depth hrest.unary_of_operation

/-- A unary operator and its operand, which is one level deeper and may start with a unary operator
itself. -/
theorem unary {token : Token} {operator : UnaryOp} {argument : Expr}
    (htoken : token.isOperator operator.text) (h : ReadsAs (.nested .unary) w argument d) :
    ReadsAs .unary (token :: w)
      (.unary ⟨token.span.join argument.span, none⟩ operator true argument) d := by
  intro depth rest hrest
  have hread := h.run depth (s := .nested .unary) hrest
  rw [reader_operand] at hread
  have hbounded :=
    gives_bounded (.unary ⟨token.span.join argument.span, none⟩ operator true argument)
  simp only [reader, Levels.unaries, combinators_orAfter, orAfter, List.cons_append,
    unaryOp?_eq_some.mpr htoken, Option.map_some]
  refine (hread.build hbounded).congr ?_
  have hheight := @height_le_of_mem_children
    (.unary ⟨token.span.join argument.span, none⟩ operator true argument) argument nestingLimit
    (by simp [children])
  simp only [Fits]
  grind

/-- A form without a unary operator. Its first token must not be one, which is known of all tokens
that open such a form. -/
theorem unsigned {e : Expr} (h : ReadsAs .postfixes w e d)
    (hopens : ∃ token rest, w = token :: rest ∧ Symbol.postfixes.Opens token) :
    ReadsAs .unary w e d := by
  intro depth rest hrest
  obtain ⟨token, w, rfl, -, hkind⟩ := hopens
  -- What starts with no operator is not taken for the argument of one.
  have hnone : unaryOp? token = none := if_neg hkind
  simp only [reader, Levels.unaries, combinators_orAfter, orAfter, List.cons_append, hnone,
    Option.map_none]
  exact h.run depth hrest

theorem plain {e : Expr} (h : ReadsAs .primary w e d) : ReadsAs .postfixes w e d :=
  fun depth rest _ => (h.run depth (stops_primary rest)).chain

theorem call {opener : Token} {callee : Expr} {es : List Expr} {stop : Span}
    (h : ReadsAs .postfixes w callee d) (hopen : opener.isPunctuation "(")
    (hs : ReadsAs (.items .part ")") ws (es, stop) d') :
    ReadsAs .postfixes (w ++ opener :: ws) (.call ⟨callee.span.join stop, none⟩ callee es false)
      (max d d') := by
  intro depth rest _
  have hcallee := h depth (opener :: (ws ++ rest)) trivial
  have harguments := hs.run depth (stops_items _ _ rest)
  rw [reader_items_part] at harguments
  have hbounded := gives_bounded (.call ⟨callee.span.join stop, none⟩ callee es false)
  rw [List.append_assoc]
  refine (hcallee.trans (.repeatFrom (if_pos hopen) (harguments.build hbounded))).congr ?_
  have hheight (part : Expr) (hpart : part = callee ∨ part ∈ es) :=
    @height_le_of_mem_children (.call ⟨callee.span.join stop, none⟩ callee es false) part
      nestingLimit (by simpa [children] using hpart)
  simp only [Fits]
  grind

theorem element {opener close : Token} {base index : Expr} (h : ReadsAs .postfixes w base d)
    (hopen : opener.isPunctuation "[") (h' : ReadsAs .part w' index d')
    (hclose : close.isPunctuation "]") :
    ReadsAs .postfixes (w ++ opener :: (w' ++ [close]))
      (.member ⟨base.span.join close.span, none⟩ base index true) (max d d') := by
  intro depth rest _
  have hstops : Symbol.part.Stops (close :: rest) :=
    stops_cons _ (not_continues_filters_of_isPunctuation hclose (by simp))
  have hbase := h depth (opener :: (w' ++ close :: rest)) trivial
  have hindex := h'.run depth hstops
  rw [reader_part] at hindex
  have hbounded := gives_bounded (.member ⟨base.span.join close.span, none⟩ base index true)
  have hstep : Levels.suffix (Levels.ofDepth depth) base opener =
      some ((Levels.ofDepth depth).filters.bind fun property => (expect "]").build fun close =>
        (Expr.member ⟨base.span.join close, none⟩ base property true).bounded) := by
    rw [Token.isPunctuation_iff] at hopen
    simp [Levels.suffix, Token.isPunctuation, hopen]
  rw [List.append_assoc, List.cons_append, List.append_assoc]
  refine (hbase.trans (.repeatFrom hstep (hindex.bind ((gives_expect hclose).build
    hbounded)))).congr ?_
  have hheight (part : Expr) (hpart : part = base ∨ part = index) :=
    @height_le_of_mem_children (.member ⟨base.span.join close.span, none⟩ base index true) part
      nestingLimit (by simpa [children] using hpart)
  simp only [Fits]
  grind

/-- A member access by a name. Every name is allowed behind the point, keywords among them. -/
theorem member {point name : Token} {base : Expr} (h : ReadsAs .postfixes w base d)
    (hpoint : point.isPunctuation ".") (hname : name.kind = .identifier) :
    ReadsAs .postfixes (w ++ [point, name])
      (.member ⟨base.span.join name.span, none⟩ base (ofName name) false) d := by
  intro depth rest _
  have hbase := h depth (point :: name :: rest) trivial
  have hbounded :=
    gives_bounded (.member ⟨base.span.join name.span, none⟩ base (ofName name) false)
  have hstep : Levels.suffix (Levels.ofDepth depth) base point =
      some ((Levels.name : Parser Token).build fun name =>
        (Expr.member ⟨base.span.join name.span, none⟩ base (ofName name) false).bounded) := by
    rw [Token.isPunctuation_iff] at hpoint
    simp [Levels.suffix, Token.isPunctuation, hpoint]
  rw [List.append_assoc]
  refine (hbase.trans (.repeatFrom hstep ((gives_name hname).build hbounded))).congr ?_
  have hheight := @height_le_of_mem_children
    (.member ⟨base.span.join name.span, none⟩ base (ofName name) false) base nestingLimit
    (by simp [children])
  simp only [Fits]
  grind

/-- An expression in parentheses is the expression itself, one level deeper. No trace of the
parentheses is left in the tree. -/
theorem group {opener close : Token} {e : Expr} (hopen : opener.isPunctuation "(")
    (h : ReadsAs .part w e d) (hclose : close.isPunctuation ")") :
    ReadsAs .primary (opener :: (w ++ [close])) e d := by
  intro depth rest _
  have hstops : Symbol.part.Stops (close :: rest) :=
    stops_cons _ (not_continues_filters_of_isPunctuation hclose (by simp))
  have hinner := h.run depth hstops
  rw [reader_part] at hinner
  rw [Token.isPunctuation_iff] at hopen
  simp only [reader, Levels.primary, combinators_first, first, List.cons_append, hopen,
    Token.isPunctuation, List.append_assoc]
  exact (hinner.bind (gives_expect hclose).map).congr (Iff.of_eq (and_true _))

theorem array {opener : Token} {es : List Expr} {stop : Span} (hopen : opener.isPunctuation "[")
    (hs : ReadsAs (.items .part "]") ws (es, stop) d) :
    ReadsAs .primary (opener :: ws) (.array ⟨opener.span.join stop, none⟩ es) d := by
  intro depth rest _
  have hitems := hs.run depth (stops_items _ _ rest)
  rw [reader_items_part] at hitems
  have hbounded := gives_bounded (.array ⟨opener.span.join stop, none⟩ es)
  rw [Token.isPunctuation_iff] at hopen
  simp only [reader, Levels.primary, combinators_first, first, List.cons_append, hopen,
    Token.isPunctuation]
  refine (hitems.build hbounded).congr ?_
  have hheight (part : Expr) (hpart : part ∈ es) :=
    @height_le_of_mem_children (.array ⟨opener.span.join stop, none⟩ es) part nestingLimit hpart
  simp only [Fits]
  grind

theorem object {opener : Token} {ps : List Property} {stop : Span}
    (hopen : opener.isPunctuation r"{") (hs : ReadsAs (.items .property r"}") ws (ps, stop) d) :
    ReadsAs .primary (opener :: ws) (.object ⟨opener.span.join stop, none⟩ ps) d := by
  intro depth rest _
  have hitems := hs.run depth (stops_items _ _ rest)
  have hbounded := gives_bounded (.object ⟨opener.span.join stop, none⟩ ps)
  rw [Token.isPunctuation_iff] at hopen
  simp only [reader, Levels.primary, combinators_first, first, List.cons_append, hopen,
    Token.isPunctuation]
  refine (hitems.build hbounded).congr ?_
  have hheight (p : Property) (hp : p ∈ ps) :=
    And.intro
      (@height_le_of_mem_children (.object ⟨opener.span.join stop, none⟩ ps) p.value nestingLimit
        (value_mem_children hp))
      fun hcomputed =>
        @height_le_of_mem_children (.object ⟨opener.span.join stop, none⟩ ps) p.key nestingLimit
          (key_mem_children hp hcomputed)
  simp only [Fits]
  grind

theorem fits_leaf : 1 ≤ nestingLimit := by
  decide

theorem literal {token : Token} {value : ReactiveTemplate.Value}
    (hvalue : token.kind.value? = some value) :
    ReadsAs .primary [token] (ofValue token value) 0 := by
  intro depth rest _
  refine .of_eq ⟨Nat.zero_le _, fits_leaf⟩ ?_
  cases hkind : token.kind <;> simp_all [TokenKind.value?, reader, Levels.primary, first, resume]

theorem keyword {token : Token} {value : ReactiveTemplate.Value} (hkind : token.kind = .identifier)
    (hvalue : keyword? token.text = some value) :
    ReadsAs .primary [token] (ofValue token value) 0 := by
  intro depth rest _
  refine .of_eq ⟨Nat.zero_le _, fits_leaf⟩ ?_
  simp [reader, Levels.primary, first, resume, hkind, hvalue]

theorem name {token : Token} (hkind : token.kind = .identifier)
    (hname : keyword? token.text = none) : ReadsAs .primary [token] (ofName token) 0 := by
  intro depth rest _
  refine .of_eq ⟨Nat.zero_le _, fits_leaf⟩ ?_
  simp [reader, Levels.primary, first, resume, hkind, hname]

/-- A name alone is a property with itself as the value. It stays one because no colon comes next,
where a property ends. -/
theorem shorthand {token : Token} (hkind : token.kind = .identifier)
    (hname : keyword? token.text = none) :
    ReadsAs .property [token] ⟨ofName token, ofName token, false, true⟩ 0 := by
  intro depth rest hrest
  have hkey : Gives True ((Levels.key (Levels.ofDepth depth)).run (token :: rest))
      (.ok (⟨ofName token, ofName token, false, true⟩, rest)) :=
    .of_eq trivial (by simp [Levels.key, first, hkind, hname])
  refine (hkey.unfollowed fun token' htoken' => ?_).congr ?_
  · have hcolon : ¬token'.isPunctuation ":" :=
      fun hcolon => hrest token' htoken' (.inr (.inr (.inr (.inr hcolon))))
    simp [hcolon]
  · simp [Fits, ofName, height, nestingLimit]

/-- The colon and the value behind the key of a property, whichever way the key is written. -/
theorem gives_keyValue {colon : Token} {value : Expr} {rest : List Token} (key : Expr)
    (computed : Bool) (hcolon : colon.isPunctuation ":") (h : ReadsAs .part w value d) (depth : Nat)
    (hrest : Symbol.property.Stops rest) :
    Gives (d ≤ depth ∧ value.height ≤ nestingLimit)
      (((Levels.ofDepth depth).keyValue key computed).run (colon :: (w ++ rest)))
      (.ok (⟨key, value, computed, false⟩, rest)) := by
  have hvalue := h.run depth (s := .part) hrest.filters_of_property
  rw [reader_part] at hvalue
  exact ((gives_expect hcolon).bind hvalue.map).congr (Iff.of_eq (true_and _))

/-- A key that is written as a name, with a value. A keyword goes straight on to the colon; any
other name is a shorthand until the colon comes. -/
theorem nameKey {token colon : Token} {value : Expr} (hkind : token.kind = .identifier)
    (hcolon : colon.isPunctuation ":") (h : ReadsAs .part w value d) :
    ReadsAs .property (token :: colon :: w) ⟨ofName token, value, false, false⟩ d := by
  intro depth rest hrest
  have hplain := gives_keyValue (ofName token) false hcolon h depth hrest
  cases hname : keyword? token.text with
  | some keyword =>
      have hkey : Gives (d ≤ depth ∧ value.height ≤ nestingLimit)
          ((Levels.key (Levels.ofDepth depth)).run (token :: colon :: (w ++ rest)))
          (.ok (⟨ofName token, value, false, false⟩, rest)) := by
        simpa [Levels.key, first, hkind, hname] using hplain
      exact (hkey.unfollowed fun _ _ => rfl).congr (by simp [Fits])
  | none =>
      -- The name is taken for a shorthand until the colon comes next.
      have hkey : Gives True
          ((Levels.key (Levels.ofDepth depth)).run (token :: colon :: (w ++ rest)))
          (.ok (⟨ofName token, ofName token, false, true⟩, colon :: (w ++ rest))) :=
        .of_eq trivial (by simp [Levels.key, first, hkind, hname])
      have hvalue := h.run depth (s := .part) hrest.filters_of_property
      rw [reader_part] at hvalue
      refine Gives.congr (P := True ∧ d ≤ depth ∧ Symbol.part.Fits value) ?_ (by simp [Fits])
      exact hkey.follow (if_pos hcolon) hvalue.map

theorem literalKey {token colon : Token} {key : ReactiveTemplate.Value} {value : Expr}
    (hkey : token.kind.value? = some key) (hcolon : colon.isPunctuation ":")
    (h : ReadsAs .part w value d) :
    ReadsAs .property (token :: colon :: w) ⟨ofValue token key, value, false, false⟩ d := by
  intro depth rest hrest
  have hplain := gives_keyValue (ofValue token key) false hcolon h depth hrest
  have hkey : Gives (d ≤ depth ∧ value.height ≤ nestingLimit)
      ((Levels.key (Levels.ofDepth depth)).run (token :: colon :: (w ++ rest)))
      (.ok (⟨ofValue token key, value, false, false⟩, rest)) := by
    cases hkind : token.kind <;> simp_all [TokenKind.value?, Levels.key, first]
  exact (hkey.unfollowed fun _ _ => rfl).congr (by simp [Fits])

/-- A key that is computed, in brackets and with a value behind them. Both the key and the value are
one level deeper. -/
theorem computedKey {opener close colon : Token} {key value : Expr}
    (hopen : opener.isPunctuation "[") (h : ReadsAs .part w key d)
    (hclose : close.isPunctuation "]") (hcolon : colon.isPunctuation ":")
    (h' : ReadsAs .part w' value d') :
    ReadsAs .property (opener :: (w ++ close :: colon :: w')) ⟨key, value, true, false⟩
      (max d d') := by
  intro depth rest hrest
  have hstops : Symbol.part.Stops (close :: colon :: (w' ++ rest)) :=
    stops_cons _ (not_continues_filters_of_isPunctuation hclose (by simp))
  have hfirst := h.run depth hstops
  have hvalue := gives_keyValue key true hcolon h' depth hrest
  rw [reader_part] at hfirst
  have hbracket := (Token.isPunctuation_iff.mp hopen)
  have hkey : Gives ((d ≤ depth ∧ key.height ≤ nestingLimit) ∧
        d' ≤ depth ∧ value.height ≤ nestingLimit)
      ((Levels.key (Levels.ofDepth depth)).run
        (opener :: (w ++ close :: colon :: (w' ++ rest))))
      (.ok (⟨key, value, true, false⟩, rest)) := by
    simp only [Levels.key, combinators_first, first, hbracket, Token.isPunctuation]
    exact (hfirst.bind ((gives_expect hclose).bind hvalue)).congr (by simp [Fits])
  rw [List.cons_append, List.append_assoc]
  refine (hkey.unfollowed fun _ _ => rfl).congr ?_
  simp only [Fits]
  grind

theorem close {s : Symbol} {close : String} {token : Token} (hclose : token.isPunctuation close) :
    ReadsAs (.items s close) [token] ([], token.span) 0 :=
  fun _ _ _ => .of_eq (by simp [Fits]) (itemsFrom_of_close hclose)

/-- The end of a list does not come where one of its items starts. -/
theorem take?_close_eq_none {s : Symbol} {close : String} (hs : (items s close).Proper)
    (hopens : ∃ token rest, w = token :: rest ∧ s.Opens token) (rest : List Token) :
    take? close (w ++ rest) = none := by
  obtain ⟨token, w, rfl, hopens⟩ := hopens
  exact if_neg fun hclose => (hs.2.2.1 token hclose).1 hopens

/-- A list with one item left: the item, and the bracket that closes the list, which does not go on
with the item. -/
theorem last {s : Symbol} {close : String} {token : Token} {v : s.Value}
    (hs : (items s close).Proper) (hopens : ∃ token rest, w = token :: rest ∧ s.Opens token)
    (h : ReadsAs s w v d) (hclose : token.isPunctuation close) :
    ReadsAs (.items s close) (w ++ [token]) ([v], token.span) d := by
  intro depth rest _
  have hitem := h.run depth (stops_cons rest (hs.2.2.1 token hclose).2)
  rw [List.append_assoc]
  exact (Gives.itemsFrom_last (take?_close_eq_none hs hopens _) hitem hclose hs.2.1).congr
    (by simp [Fits])

/-- An item of a list, a comma and the further items, each read up to the comma or bracket that ends
it. -/
theorem more {s : Symbol} {close : String} {comma : Token} {v : s.Value} {vs : List s.Value}
    {stop : Span} (hs : (items s close).Proper)
    (hopens : ∃ token rest, w = token :: rest ∧ s.Opens token) (h : ReadsAs s w v d)
    (hcomma : comma.isPunctuation ",") (h' : ReadsAs (.items s close) ws (vs, stop) d') :
    ReadsAs (.items s close) (w ++ comma :: ws) (v :: vs, stop) (max d d') := by
  intro depth rest _
  have hitem := h.run depth (stops_cons (ws ++ rest) (hs.2.2.2 comma hcomma))
  have hitems := h'.run depth (stops_items _ _ rest)
  rw [List.append_assoc]
  refine (Gives.itemsFrom_more (take?_close_eq_none hs hopens _) hitem hcomma hitems).congr ?_
  simp only [Fits]
  grind

end Symbol.ReadsAs

namespace Derives

/-- Lists of expressions have what it takes to be read: neither the comma nor a closing bracket
opens or continues an expression. -/
theorem proper_elements (close : String) (hclose : close ∈ [")", "]", r"}"]) :
    (Symbol.items .part close).Proper := by
  have htext : close ≠ "," ∧ close ∉ ["(", "[", ".", "?"] := by
    simp only [List.mem_cons, List.not_mem_nil, or_false] at hclose
    rcases hclose with rfl | rfl | rfl <;> decide
  refine ⟨trivial, htext.1,
    fun token htoken => ⟨fun hopens => hopens.1 close hclose htoken, ?_⟩, ?_⟩
  · exact Symbol.not_continues_filters_of_isPunctuation htoken htext.2
  · exact fun token hcomma => Symbol.not_continues_filters_of_isPunctuation hcomma (by simp)

theorem proper_properties : (Symbol.items .property r"}").Proper := by
  refine ⟨trivial, by decide, fun token htoken => ⟨fun hopens => ?_, ?_⟩, ?_⟩
  · exact hopens.1 r"}" (by simp) htoken
  · exact Symbol.not_continues_property_of_isPunctuation htoken (by decide)
  · exact fun token hcomma => Symbol.not_continues_property_of_isPunctuation hcomma (by decide)

/-- What has a derivation is read as the derivation says, unless it is nested too deeply. -/
theorem readsAs {s : Symbol} {w : List Token} {v : s.Value} {d : Nat} (h : Derives s w v d)
    (hs : s.Proper) : s.ReadsAs w v d := by
  induction h with
  | nested _ ih => exact (ih hs).nested
  | filter _ hbar hname ih => exact (ih trivial).filter hbar hname
  | filterCall _ hbar hname hopen _ ih ihs =>
      exact (ih trivial).filterCall hbar hname hopen (ihs (proper_elements _ (by simp)))
  | unfiltered _ ih => exact (ih trivial).unfiltered
  | choice _ hmark _ hcolon _ ih₁ ih₂ ih₃ =>
      exact (ih₁ trivial).choice hmark (ih₂ trivial) hcolon (ih₃ trivial)
  | unconditional _ ih => exact (ih trivial).unconditional
  | binary _ htoken _ ih ih' => exact (ih trivial).binary htoken (ih' trivial)
  | tighter _ ih => exact (ih trivial).tighter
  | operand _ ih => exact (ih trivial).operand
  | unary htoken _ ih => exact (ih trivial).unary htoken
  | unsigned h ih => exact (ih trivial).unsigned h.opens
  | call _ hopen _ ih ihs => exact (ih trivial).call hopen (ihs (proper_elements _ (by simp)))
  | element _ hopen _ hclose ih ih' => exact (ih trivial).element hopen (ih' trivial) hclose
  | member _ hpoint hname ih => exact (ih trivial).member hpoint hname
  | plain _ ih => exact (ih trivial).plain
  | group hopen _ hclose ih => exact (ih trivial).group hopen hclose
  | array hopen _ ihs => exact (ihs (proper_elements _ (by simp))).array hopen
  | object hopen _ ihs => exact (ihs proper_properties).object hopen
  | literal hvalue => exact .literal hvalue
  | keyword hkind hvalue => exact .keyword hkind hvalue
  | name hkind hname => exact .name hkind hname
  | shorthand hkind hname => exact .shorthand hkind hname
  | nameKey hkind hcolon _ ih => exact (ih trivial).nameKey hkind hcolon
  | literalKey hkey hcolon _ ih => exact (ih trivial).literalKey hkey hcolon
  | computedKey hopen _ hclose hcolon _ ih ih' =>
      exact (ih trivial).computedKey hopen hclose hcolon (ih' trivial)
  | close hclose => exact .close hclose
  | last h hclose ih => exact (ih hs.1).last hs h.opens hclose
  | more h hcomma _ ih ihs => exact (ih hs.1).more hs h.opens hcomma (ihs hs)

end Derives

theorem DerivesList.opens {tokens : List Token} {es : List Expr} {d : Nat}
    (h : DerivesList tokens es d) :
    ∃ token rest, tokens = token :: rest ∧ Symbol.part.Opens token := by
  cases h with
  | one h => exact h.opens
  | more h =>
      obtain ⟨token, rest, rfl, hopens⟩ := h.opens
      exact ⟨token, _, rfl, hopens⟩

/-- A list without brackets is read up to its end. -/
theorem DerivesList.gives {tokens : List Token} {es : List Expr} {d : Nat}
    (h : DerivesList tokens es d) (depth : Nat) (done : List Expr) :
    Gives (d ≤ depth ∧ ∀ e ∈ es, e.height ≤ nestingLimit)
      (separatedFrom (Symbol.part.reader depth) done tokens) (.ok (done.reverse ++ es)) := by
  induction h generalizing done with
  | @one w e d h =>
      have hend : Symbol.part.Stops [] := by simp [Symbol.Stops]
      have hitem := (h.readsAs trivial).run depth hend
      rw [List.append_nil] at hitem
      rw [← List.reverse_cons]
      refine Gives.congr hitem.separatedFrom_last ?_
      simp [Symbol.Fits]
  | @more w ws comma e es d d' h hcomma _ ih =>
      have hstops : Symbol.part.Stops (comma :: ws) :=
        Symbol.stops_cons ws (Symbol.not_continues_filters_of_isPunctuation hcomma (by decide))
      have hitem := (h.readsAs trivial).run depth hstops
      have hitems := ih (e :: done)
      rw [List.reverse_cons, List.append_assoc] at hitems
      refine Gives.congr (hitem.separatedFrom_more hcomma hitems) ?_
      simp only [Symbol.Fits]
      grind

/-- A source with a derivation gives the trees of the derivation, as long as none of them is too
high and not too many parts are open at once; otherwise it is refused for being nested too
deeply. -/
theorem DerivesSource.gives {tokens : List Token} {es : List Expr} {d : Nat}
    (h : DerivesSource tokens es d) :
    Gives (d ≤ nestingLimit ∧ ∀ e ∈ es, e.height ≤ nestingLimit)
      (Expr.ofTokens tokens) (.ok es) := by
  cases h with
  | empty => exact .of_eq (by simp) rfl
  | list h =>
      have hlist := h.gives nestingLimit []
      rw [Symbol.reader_part] at hlist
      obtain ⟨token, rest, rfl, -⟩ := h.opens
      exact hlist

end ReactiveTemplate
