import ReactiveTemplate.Expr.Printer
import ReactiveTemplate.Proofs.Expr.PrintedDepth
import ReactiveTemplate.Proofs.Expr.Recognition
import ReactiveTemplate.Proofs.Expr.Spelling

/-!
# Printing and parsing

The printed text of a tree that has been parsed is parsed as the same tree. Parentheses make nesting
deeper than it was, but by no more than one level for each level of the tree.
-/

namespace ReactiveTemplate

open ReactiveTemplate.Expr

namespace Expr

/-! ## Printed lists -/

/-- A printed list has a comma and a blank between its expressions. The recursion carries the text
so far. -/
theorem printMore_eq (done : String) (es : List Expr) :
    printMore done es = ", ".intercalate (done :: es.map print) := by
  induction es generalizing done with
  | nil => rw [printMore, List.map_nil, String.intercalate_singleton]
  | cons e es ih =>
      rw [printMore, ih, List.map_cons, String.intercalate_cons_cons,
        String.intercalate_cons_append]

/-- The printed text of a property. -/
def printProperty (p : Property) : String :=
  propertyText p.computed p.shorthand p.key.print p.value.print

theorem printMoreProperties_eq (done : String) (ps : List Property) :
    printMoreProperties done ps = ", ".intercalate (done :: ps.map printProperty) := by
  induction ps generalizing done with
  | nil => rw [printMoreProperties, List.map_nil, String.intercalate_singleton]
  | cons p ps ih =>
      obtain ⟨key, value, computed, shorthand⟩ := p
      rw [printMoreProperties, ih, List.map_cons, String.intercalate_cons_cons,
        String.intercalate_cons_append]
      rfl

variable (note : Note)

theorem print_call (callee : Expr) (es : List Expr) :
    print (call note callee es false) =
      operated callee callee.print ++ "(" ++ ", ".intercalate (es.map print) ++ ")" := by
  cases es with
  | nil => simp [print, String.append_assoc]
  | cons e es => rw [print, printMore_eq, List.map_cons]

/-- A filter is printed behind its input, which needs no parentheses, and with its further arguments
if it has any. -/
theorem print_filter (callee input : Expr) (es : List Expr) :
    print (call note callee (input :: es) true) =
      if es.isEmpty then input.print ++ " | " ++ callee.print
      else input.print ++ " | " ++ callee.print ++
        "(" ++ ", ".intercalate (es.map print) ++ ")" := by
  cases es with
  | nil => simp [print]
  | cons e es => simp [print, printMore_eq]

theorem print_array (es : List Expr) :
    print (array note es) = "[" ++ ", ".intercalate (es.map print) ++ "]" := by
  cases es with
  | nil => simp [print]
  | cons e es => rw [print, printMore_eq, List.map_cons]

theorem print_object (ps : List Property) :
    print (object note ps) = r"{" ++ ", ".intercalate (ps.map printProperty) ++ r"}" := by
  cases ps with
  | nil => simp [print]
  | cons p ps =>
      obtain ⟨key, value, computed, shorthand⟩ := p
      simp only [print, printMoreProperties_eq, List.map_cons]
      rfl

/-! ## What printed trees are read as -/

/-- The characters that stand behind operands in printed text. -/
def closers : List Char :=
  [' ', ')', ']', '}', ',', '(', '[', ':']

/-- Whether the printed text of a tree may end before `c`. A point would become a part of a
number. -/
def EndsAt (e : Expr) (c : Char) : Prop :=
  c ∈ closers ∨ c = '.' ∧ ¬e.isCompound ∧ ¬e.isNumber

/-- The printed text of a tree stands for that tree. It is a form that may be an operand unless it
is put into parentheses as one. -/
structure Prints (e : Expr) : Prop where
  filters : Writes e.EndsAt .filters e.print.toList (bare e) e.printedDepth
  postfixes : ¬e.isCompound → Writes e.EndsAt .postfixes e.print.toList (bare e) e.printedDepth
  opens : ∃ c cs, e.print.toList = c :: cs ∧ c ∉ operatorTails

/-- The printed text of a property stands for that property. -/
def PrintsProperty (p : Property) : Prop :=
  Writes (· ∈ closers) .property (printProperty p).toList (bare p) (printedPropertyDepth p)

namespace Prints

variable {e : Expr}

/-- The text of a tree that needs no parentheses as an operand. -/
theorem of_postfixes {follow : Char → Prop} {text : List Char}
    (h : Writes follow .postfixes text (bare e) e.printedDepth) (hprint : e.print.toList = text)
    (hfollow : ∀ c, e.EndsAt c → follow c)
    (hopens : ∃ c cs, text = c :: cs ∧ c ∉ operatorTails) : e.Prints := by
  subst hprint
  have hpostfixes := h.mono hfollow
  exact ⟨hpostfixes.conditional.filters, fun _ => hpostfixes, hopens⟩

/-- The text of an operator expression or a filter. -/
theorem of_filters {follow : Char → Prop} {text : List Char}
    (h : Writes follow .filters text (bare e) e.printedDepth) (hprint : e.print.toList = text)
    (hcompound : e.isCompound) (hfollow : ∀ c ∈ closers, follow c)
    (hopens : ∃ c cs, text = c :: cs ∧ c ∉ operatorTails) : e.Prints := by
  subst hprint
  refine ⟨h.mono fun c hc => hfollow c ?_, fun hnot => absurd hcompound hnot, hopens⟩
  exact hc.resolve_right fun hpoint => hpoint.2.1 hcompound

/-- A printed expression is read as a part, one level down, in front of anything that closes it. -/
theorem part (h : e.Prints) :
    Writes (· ∈ closers) .part e.print.toList (bare e) (e.printedDepth + 1) :=
  h.filters.nested.mono fun _ hc => .inl hc

/-- In parentheses a printed expression is read in front of anything, as if it were a single
token. -/
theorem group (h : e.Prints) :
    Writes Anything .postfixes ("(" ++ e.print ++ ")").toList (bare e) (e.printedDepth + 1) := by
  simpa using h.part.group (by decide)

/-- An operand is printed in a way that lets it stand on either side of an operator: with
parentheses if it is compound. -/
theorem operand (h : e.Prints) :
    Writes (· ∈ closers) .postfixes (e.operand e.print).toList (bare e)
      (e.operandDepth e.printedDepth) := by
  rw [Expr.operand, operandDepth]
  split
  · exact h.group.mono fun _ _ => trivial
  · next hcompound => exact (h.postfixes hcompound).mono fun _ hc => .inl hc

/-- In front of a point or a bracket the same text is read as what is called or accessed. A number
is kept apart from the point. -/
theorem operated (h : e.Prints) :
    Writes (fun c => c ∈ closers ∨ c = '.') .postfixes (e.operated e.print).toList (bare e)
      (e.operatedDepth e.printedDepth) := by
  rw [Expr.operated, Expr.operand, operatedDepth, operandDepth]
  split
  · exact h.group.mono fun _ _ => trivial
  · next hnumber =>
      split
      · exact h.group.mono fun _ _ => trivial
      · next hcompound =>
          refine (h.postfixes hcompound).mono fun c hc => ?_
          -- Only behind a number would a point be read on, and a number has parentheses by now.
          exact hc.imp_right fun hpoint => ⟨hpoint, hcompound, hnumber⟩

/-- An operand does not begin with a character that would run together with the operator in front of
it. -/
theorem opens_operand (h : e.Prints) :
    ∃ c cs, (e.operand e.print).toList = c :: cs ∧ c ∉ operatorTails := by
  rw [Expr.operand]
  split
  · exact ⟨'(', (e.print ++ ")").toList, by simp, by decide⟩
  · exact h.opens

theorem opens_operated (h : e.Prints) :
    ∃ c cs, (e.operated e.print).toList = c :: cs ∧ c ∉ operatorTails := by
  rw [Expr.operated]
  split
  · exact ⟨'(', (e.print ++ ")").toList, by simp, by decide⟩
  · exact h.opens_operand

/-! ### Leaves -/

/-- A name ends in front of whatever may close or continue an expression, for none of these is a
character of names. -/
theorem endsAt_name {token : Token} (hkind : token.kind = .identifier) {c : Char}
    (hc : c ∈ closers ∨ c = '.') : token.lexeme.EndsAt c := by
  have hall : ∀ c ∈ '.' :: closers, ¬isNameChar c := forall_mem_of_all (by decide)
  refine (Lexeme.endsAt_identifier hkind).mpr (hall c ?_)
  rcases hc with hc | rfl
  · exact List.mem_cons_of_mem _ hc
  · exact List.mem_cons_self

theorem endsAt_literal {token : Token} {value : Value} (hvalue : token.kind.value? = some value)
    {c : Char} (hc : (ofValue token value).EndsAt c) : token.lexeme.EndsAt c := by
  have hall : ∀ c ∈ closers, ¬isNameChar c ∧ c ≠ '.' := forall_mem_of_all (by decide)
  rw [Lexeme.EndsAt]
  cases hkind : token.lexeme.kind with
  | number x =>
      rw [show token.kind = .number x from hkind] at hvalue
      cases hvalue
      rcases hc with hc | ⟨-, -, hnumber⟩
      · exact ⟨(hall c hc).1, fun hpoint => absurd hpoint (hall c hc).2⟩
      · exact absurd rfl hnumber
  | string x => trivial
  | identifier | punctuation | operator =>
      rw [show token.kind = _ from hkind] at hvalue
      contradiction

theorem name {token : Token} (h : token.lexeme.IsWhole) (hkind : token.kind = .identifier)
    (hname : keyword? token.text = none) : (ofName token).Prints := by
  apply of_postfixes (Writes.name h hkind hname) rfl
  · exact fun c hc => endsAt_name hkind (hc.imp_right And.left)
  · exact h.opens (by simp [Token.lexeme, hkind])

theorem keyword {token : Token} {value : Value} (h : token.lexeme.IsWhole)
    (hkind : token.kind = .identifier) (hvalue : keyword? token.text = some value) :
    (ofValue token value).Prints := by
  apply of_postfixes (Writes.keyword h hkind hvalue) rfl
  · exact fun c hc => endsAt_name hkind (hc.imp_right And.left)
  · exact h.opens (by simp [Token.lexeme, hkind])

/-- A literal is printed as it was written, so that its value need not be printed at all. -/
theorem literal {token : Token} {value : Value} (h : token.lexeme.IsWhole)
    (hvalue : token.kind.value? = some value) : (ofValue token value).Prints := by
  apply of_postfixes (Writes.literal h hvalue) rfl
  · exact fun c hc => endsAt_literal hvalue hc
  · apply h.opens
    intro hkind
    rw [show token.kind = .operator from hkind] at hvalue
    contradiction

/-! ### Calls, members and brackets -/

variable {span : Span}

/-- A text with something behind it opens as it does alone. -/
theorem opens_append {text : List Char} (more : List Char)
    (h : ∃ c cs, text = c :: cs ∧ c ∉ operatorTails) :
    ∃ c cs, text ++ more = c :: cs ∧ c ∉ operatorTails := by
  obtain ⟨c, cs, rfl, hc⟩ := h
  exact ⟨c, cs ++ more, rfl, hc⟩

/-- A name behind a point is read back as a property, for any name. The base needs parentheses if it
is compound or a number. -/
theorem member {base : Expr} {token : Token} (h : base.Prints) (hwhole : token.lexeme.IsWhole)
    (hkind : token.kind = .identifier) :
    (Expr.member ⟨span, none⟩ base (ofName token) false).Prints := by
  have hdepth : (Expr.member ⟨span, none⟩ base (ofName token) false).printedDepth =
      base.operatedDepth base.printedDepth := Nat.max_zero _
  apply of_postfixes (hdepth ▸ h.operated.member (.inr rfl) hwhole hkind)
  · simp [print, ofName]
  · exact fun c hc => endsAt_name hkind (hc.imp_right And.left)
  · exact opens_append _ h.opens_operated

theorem element {base index : Expr} (h : base.Prints) (h' : index.Prints) :
    (Expr.member ⟨span, none⟩ base index true).Prints := by
  apply of_postfixes (h.operated.element (.inl (by decide)) h'.part (by decide))
  · simp [print]
  · exact fun _ _ => trivial
  · exact opens_append _ h.opens_operated

/-- Expressions with commas between them, up to a closing bracket. -/
theorem items {es : List Expr} (h : ∀ e ∈ es, e.Prints) (c : Char) (close : String)
    (hc : c ∈ punctuation) (hpoint : c ≠ '.')
    (hclose : (Lexeme.bare ⟨.punctuation, [c]⟩).isPunctuation close) (hcloser : c ∈ closers) :
    Writes Anything (.items .part close)
      ((", ".intercalate (es.map print)).toList ++ [c]) (bare es, .point 0) (deepest es) := by
  rw [deepest_eq]
  exact Writes.items hc hpoint hclose (by decide) hcloser fun e he => (h e he).part

theorem call {callee : Expr} {es : List Expr} (h : callee.Prints) (hs : ∀ e ∈ es, e.Prints) :
    (Expr.call ⟨span, none⟩ callee es false).Prints := by
  have hitems := items hs ')' ")" (by decide) (by decide) rfl (by decide)
  apply of_postfixes (h.operated.call (.inl (by decide)) hitems)
  · simp [print_call]
  · exact fun _ _ => trivial
  · exact opens_append _ h.opens_operated

theorem array {es : List Expr} (hs : ∀ e ∈ es, e.Prints) :
    (Expr.array ⟨span, none⟩ es).Prints := by
  have hitems := items hs ']' "]" (by decide) (by decide) rfl (by decide)
  apply of_postfixes hitems.array
  · simp [print_array]
  · exact fun _ _ => trivial
  · exact ⟨_, _, rfl, by decide⟩

/-- An object is read back with its properties, each in the way in which it was written: shorthand,
plain or computed. -/
theorem object {ps : List Property} (hs : ∀ p ∈ ps, PrintsProperty p) :
    (Expr.object ⟨span, none⟩ ps).Prints := by
  have hitems : Writes Anything (.items .property r"}")
      ((", ".intercalate (ps.map printProperty)).toList ++ ['}']) (bare ps, .point 0)
      (deepestProperty ps) := by
    rw [deepestProperty_eq]
    exact Writes.items (by decide) (by decide) rfl (by decide) (by decide) hs
  apply of_postfixes hitems.object
  · simp [print_object]
  · exact fun _ _ => trivial
  · exact ⟨_, _, rfl, by decide⟩

/-! ### Compound expressions -/

/-- A filter is read back with its input in front, which is looser than all else and hence not
parenthesized. -/
theorem filter {input : Expr} {name : Token} {es : List Expr} (h : input.Prints)
    (hwhole : name.lexeme.IsWhole) (hname : name.kind = .identifier) (hs : ∀ e ∈ es, e.Prints) :
    (Expr.call ⟨span, none⟩ (ofName name) (input :: es) true).Prints := by
  have hspace : input.EndsAt ' ' := .inl (by decide)
  -- A filter without further arguments is printed without parentheses.
  cases es with
  | nil =>
      have hdepth : (Expr.call ⟨span, none⟩ (ofName name) [input] true).printedDepth =
          input.printedDepth := Nat.max_zero _
      apply of_filters (hdepth ▸ h.filters.filter hspace hwhole hname)
      · simp [print, ofName]
      · rfl
      · exact fun c hc => endsAt_name hname (.inl hc)
      · exact opens_append _ h.opens
  | cons e es =>
      have hitems := items hs ')' ")" (by decide) (by decide) rfl (by decide)
      apply of_filters (h.filters.filterCall hspace hwhole hname hitems)
      · rw [print_filter]
        simp [print, ofName]
      · rfl
      · exact fun _ _ => trivial
      · exact opens_append _ h.opens

/-- Both operands are read back on the level of the operator, because whatever is looser than a
suffix has parentheses. -/
theorem binary {operator : BinaryOp} {left right : Expr} (h : left.Prints) (h' : right.Prints) :
    (Expr.binary ⟨span, none⟩ operator left right).Prints := by
  have hlevel : operator.precedence ≤ 5 := by cases operator <;> decide
  have hleft := h.operand.operation (show operator.precedence ≤ 6 by omega)
  have hright := h'.operand.operation (show operator.precedence + 1 ≤ 6 by omega)
  apply of_filters (hleft.binary (by decide) hright)
  · simp [print]
  · rfl
  · exact fun _ hc => hc
  · exact opens_append _ h.opens_operand

/-- The operand of a unary operator is read back one level down. Its text does not run together with
the operator. -/
theorem unary {operator : UnaryOp} {argument : Expr} (h : argument.Prints) :
    (Expr.unary ⟨span, none⟩ operator true argument).Prints := by
  obtain ⟨c, cs, htext, hc⟩ := h.opens_operand
  have hoperand := h.operand
  rw [htext] at hoperand
  -- The operand of an operator opens a part of its own, beside its parentheses.
  have hnested : Writes (· ∈ closers) (.nested .unary) (c :: cs) (bare argument) _ :=
    (hoperand.lift fun _ _ => .unsigned).nested
  apply of_filters (hnested.unary hc)
  · rw [print, String.toList_append, htext]
  · rfl
  · exact fun _ hc => hc
  · cases operator <;> exact ⟨_, _, rfl, by decide⟩

/-- All three parts of a conditional are printed like operands, so that the question mark and the
colon are its own. -/
theorem conditional {test consequent alternate : Expr} (h : test.Prints) (h' : consequent.Prints)
    (h'' : alternate.Prints) :
    (Expr.conditional ⟨span, none⟩ test consequent alternate).Prints := by
  have htest := h.operand.operation (Nat.zero_le 6)
  apply of_filters (htest.choice (by decide) h'.operand.conditional.nested (by decide)
    h''.operand.conditional.nested)
  · simp [print]
  · rfl
  · exact fun _ hc => hc
  · exact opens_append _ h.opens_operand

end Prints

/-! ### Properties -/

namespace PrintsProperty

variable {token : Token} {value : Expr}

theorem shorthand (h : token.lexeme.IsWhole) (hkind : token.kind = .identifier)
    (hname : keyword? token.text = none) :
    PrintsProperty ⟨ofName token, ofName token, false, true⟩ :=
  (Writes.shorthand h hkind hname).mono fun _ hc => Prints.endsAt_name hkind (.inl hc)

/-- A key that is a name is read back with its value, also if both are the same name and no
shorthand was written. -/
theorem nameKey (h : token.lexeme.IsWhole) (hkind : token.kind = .identifier)
    (hvalue : value.Prints) : PrintsProperty ⟨ofName token, value, false, false⟩ := by
  have hwrites := Writes.nameKey h hkind hvalue.part
  simpa [PrintsProperty, printProperty, propertyText, printedPropertyDepth, propertyDepth, ofName,
    print] using hwrites

theorem literalKey {key : Value} (h : token.lexeme.IsWhole) (hkey : token.kind.value? = some key)
    (hvalue : value.Prints) : PrintsProperty ⟨ofValue token key, value, false, false⟩ := by
  have hends : token.lexeme.EndsAt ':' := Prints.endsAt_literal hkey (.inl (by decide))
  have hwrites := Writes.literalKey h hkey hends hvalue.part
  simpa [PrintsProperty, printProperty, propertyText, printedPropertyDepth, propertyDepth, ofValue,
    print] using hwrites

theorem computedKey {key : Expr} (h : key.Prints) (hvalue : value.Prints) :
    PrintsProperty ⟨key, value, true, false⟩ := by
  have hwrites := Writes.computedKey h.part (by decide) hvalue.part
  simpa [PrintsProperty, printProperty, propertyText, printedPropertyDepth, propertyDepth]
    using hwrites

end PrintsProperty

end Expr

/-! ## Derived trees -/

/-- The printed text of what a form stands for stands for it as well. -/
def Symbol.Prints : (s : Symbol) → s.Value → Prop
  | filters, e | conditional, e | operation _, e | unary, e | postfixes, e | primary, e => e.Prints
  | property, p => PrintsProperty p
  | items item _, vs => ∀ v ∈ vs.1, item.Prints v
  | nested part, v => part.Prints v

/-- Whatever has a derivation from lexemes is printed faithfully. -/
theorem Derives.prints {s : Symbol} {w : List Token} {v : s.Value} {d : Nat}
    (h : Derives s w v d) (hw : ∀ token ∈ w, token.lexeme.IsWhole) : s.Prints v := by
  induction h with
  | nested _ ih | unfiltered _ ih | unconditional _ ih | tighter _ ih | operand _ ih
  | unsigned _ ih | plain _ ih => exact ih hw
  | filter _ _ hname ih =>
      simp only [List.forall_mem_append, List.forall_mem_cons] at hw
      exact .filter (ih hw.1) hw.2.2.1 hname (by simp)
  | filterCall _ _ hname _ _ ih ihs =>
      simp only [List.forall_mem_append, List.forall_mem_cons] at hw
      obtain ⟨hinput, -, hwhole, -, hrest⟩ := hw
      exact .filter (ih hinput) hwhole hname (ihs hrest)
  | choice _ _ _ _ _ ih₁ ih₂ ih₃ =>
      simp only [List.forall_mem_append, List.forall_mem_cons] at hw
      obtain ⟨htest, -, hconsequent, -, halternate⟩ := hw
      exact .conditional (ih₁ htest) (ih₂ hconsequent) (ih₃ halternate)
  | binary _ _ _ ih ih' =>
      simp only [List.forall_mem_append, List.forall_mem_cons] at hw
      exact .binary (ih hw.1) (ih' hw.2.2)
  | unary _ _ ih =>
      rw [List.forall_mem_cons] at hw
      exact .unary (ih hw.2)
  | call _ _ _ ih ihs =>
      simp only [List.forall_mem_append, List.forall_mem_cons] at hw
      exact .call (ih hw.1) (ihs hw.2.2)
  | element _ _ _ _ ih ih' =>
      simp only [List.forall_mem_append, List.forall_mem_cons] at hw
      exact .element (ih hw.1) (ih' hw.2.2.1)
  | member _ _ hname ih =>
      simp only [List.forall_mem_append, List.forall_mem_cons] at hw
      exact .member (ih hw.1) hw.2.2.1 hname
  | group _ _ _ ih =>
      simp only [List.forall_mem_append, List.forall_mem_cons] at hw
      exact ih hw.2.1
  | array _ _ ihs =>
      rw [List.forall_mem_cons] at hw
      exact .array (ihs hw.2)
  | object _ _ ihs =>
      rw [List.forall_mem_cons] at hw
      exact .object (ihs hw.2)
  | literal hvalue => exact .literal (hw _ List.mem_cons_self) hvalue
  | keyword hkind hvalue => exact .keyword (hw _ List.mem_cons_self) hkind hvalue
  | name hkind hname => exact .name (hw _ List.mem_cons_self) hkind hname
  | shorthand hkind hname => exact .shorthand (hw _ List.mem_cons_self) hkind hname
  | nameKey hkind _ _ ih =>
      simp only [List.forall_mem_cons] at hw
      exact .nameKey hw.1 hkind (ih hw.2.2)
  | literalKey hkey _ _ ih =>
      simp only [List.forall_mem_cons] at hw
      exact .literalKey hw.1 hkey (ih hw.2.2)
  | computedKey _ _ _ _ _ ih ih' =>
      simp only [List.forall_mem_append, List.forall_mem_cons] at hw
      obtain ⟨-, hkey, -, -, hvalue⟩ := hw
      exact .computedKey (ih hkey) (ih' hvalue)
  | close => exact fun _ hv => absurd hv List.not_mem_nil
  | last _ _ ih =>
      rw [List.forall_mem_append] at hw
      intro v hv
      rw [List.mem_singleton.mp hv]
      exact ih hw.1
  | more _ _ _ ih ihs =>
      simp only [List.forall_mem_append, List.forall_mem_cons] at hw
      intro v hv
      rcases List.mem_cons.mp hv with rfl | hv
      · exact ih hw.1
      · exact ihs hw.2.2 v hv

/-- The trees of a list are read back from their texts if the tokens that they come from are
whole. -/
theorem DerivesList.prints {w : List Token} {es : List Expr} {d : Nat} (h : DerivesList w es d)
    (hw : ∀ token ∈ w, token.lexeme.IsWhole) : ∀ e ∈ es, e.Prints := by
  induction h with
  | one h =>
      intro e he
      rw [List.mem_singleton.mp he]
      exact h.prints hw
  | more h _ _ ih =>
      simp only [List.forall_mem_append, List.forall_mem_cons] at hw
      intro e he
      rcases List.mem_cons.mp he with rfl | he
      · exact h.prints hw.1
      · exact ih hw.2.2 e he

/-- A source that is read is printed faithfully. -/
theorem prints_of_parse {source : String} {es : List Expr} (h : parse source = .ok es) :
    ∀ e ∈ es, e.Prints := by
  obtain ⟨tokens, htokens, hread⟩ := parse_eq_ok_iff.mp h
  obtain ⟨d, ⟨⟩ | ⟨hlist⟩⟩ := DerivesSource.of_ofTokens hread
  · exact fun _ he => absurd he List.not_mem_nil
  · exact hlist.prints (isWhole_of_tokenize htokens)

/-- The text of several trees, with commas between them. -/
def printAll (es : List Expr) : String :=
  ", ".intercalate (es.map Expr.print)

/-- The printed text of trees has lexemes, and these derive the trees. -/
theorem derives_printAll {es : List Expr} (h : ∀ e ∈ es, e.Prints) :
    ∃ lexemes, Lexes (printAll es).toList lexemes ∧
      DerivesSource (lexemes.map Lexeme.bare) (bare es) (deepest es) := by
  by_cases hempty : es = []
  · subst hempty
    exact ⟨[], .nil, .empty⟩
  · obtain ⟨lexemes, hspells, hderives⟩ :=
      Writes.list (by decide) hempty fun e he => (h e he).part
    rw [← deepest_eq] at hderives
    exact ⟨lexemes, hspells.lexes, .list hderives⟩

/-- The text of some trees has a derivation that is less than twice as deep as the highest of them.
Hence trees of up to half the permitted height are safe. -/
theorem exists_lexes_printAll {es : List Expr} (h : ∀ e ∈ es, e.Prints) :
    ∃ lexemes d, Lexes (printAll es).toList lexemes ∧
      DerivesSource (lexemes.map Lexeme.bare) (bare es) d ∧ d ≤ 2 * tallest 0 es - 1 := by
  obtain ⟨lexemes, hlexes, hderives⟩ := derives_printAll h
  exact ⟨lexemes, deepest es, hlexes, hderives, deepest_le_tallest es⟩

/-- Printing and parsing gives the trees of a source back, up to their spans. Only the parentheses
can make it fail, by nesting too deep, and they do not do so for trees of half the permitted
height. -/
theorem parse_printAll {source : String} {es : List Expr} (h : parse source = .ok es) :
    ((∃ es', parse (printAll es) = .ok es' ∧ bare es' = bare es) ∨
      ∃ span, parse (printAll es) = .error ⟨.nestingTooDeep, span⟩) ∧
    ((∀ e ∈ es, e.height ≤ 32) →
      ∃ es', parse (printAll es) = .ok es' ∧ bare es' = bare es) := by
  obtain ⟨lexemes, d, hlexes, hderives, hd⟩ := exists_lexes_printAll (prints_of_parse h)
  constructor
  · by_cases hfits : d ≤ nestingLimit ∧ ∀ e ∈ bare es, e.height ≤ nestingLimit
    · exact .inl (parse_of_lexes hlexes (hderives.ofTokens_eq_ok hfits.1 hfits.2))
    · obtain ⟨place, hrefuse⟩ := hderives.gives.2 hfits
      exact .inr (parse_error_of_lexes hlexes hrefuse)
  · intro hheights
    have htallest : tallest 0 es ≤ 32 := tallest_le_iff.mpr ⟨Nat.zero_le 32, hheights⟩
    apply parse_of_lexes hlexes (hderives.ofTokens_eq_ok ?_ ?_)
    · rw [nestingLimit]
      omega
    · intro e he
      obtain ⟨e', he', rfl⟩ := List.mem_map.mp he
      calc (bare e').height
        _ = e'.height := height_bare e'
        _ ≤ 32 := hheights e' he'
        _ ≤ nestingLimit := by decide

/-- A source with parentheses that matter, and with some that do not. -/
theorem parse_printAll_filter :
    ∃ es, parse "(1).a|f((!b))" = .ok es ∧ printAll es = "(1).a | f(!b)" ∧
      ∃ es', parse (printAll es) = .ok es' ∧ bare es' = bare es := by
  have hrun : ((parse "(1).a|f((!b))").map fun es => (printAll es, es.map height)).toOption =
      some ("(1).a | f(!b)", [3]) := by decide +kernel
  cases h : parse "(1).a|f((!b))" with
  | error e =>
      rw [h] at hrun
      contradiction
  | ok es =>
      rw [h] at hrun
      obtain ⟨hprint, hheights⟩ := Prod.mk.inj (Option.some.inj hrun)
      refine ⟨es, rfl, hprint, (parse_printAll h).2 fun e he => ?_⟩
      have hmem : e.height ∈ es.map height := List.mem_map_of_mem he
      rw [hheights, List.mem_singleton] at hmem
      omega

end ReactiveTemplate
