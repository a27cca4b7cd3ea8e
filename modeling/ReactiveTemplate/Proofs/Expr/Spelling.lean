import ReactiveTemplate.Proofs.Expr.Derivation
import ReactiveTemplate.Proofs.Expr.Source

/-!
# Texts of expressions

`Writes` puts lexemes and the grammar together: a text is a form of the grammar, as long as what
comes behind it does not make its last lexeme any longer. Each rule of the grammar that printing
uses has its counterpart on texts.
-/

namespace ReactiveTemplate

open ReactiveTemplate.Expr

/-! ## Spelling -/

/-- In front of a text that starts with a character of `follow`, the text `cs` consists of these
lexemes. -/
def Spells (follow : Char → Prop) (cs : List Char) (lexemes : List Lexeme) : Prop :=
  ∀ rest more, (∀ c ∈ rest.head?, follow c) → Lexes rest more →
    Lexes (cs ++ rest) (lexemes ++ more)

/-- Any character may follow. -/
abbrev Anything : Char → Prop :=
  fun _ => True

namespace Spells

variable {follow follow' follow'' : Char → Prop} {cs cs' : List Char} {ls ls' : List Lexeme}
  {c : Char}

theorem lexes (h : Spells follow cs ls) : Lexes cs ls := by
  have hlexes := h [] [] (by simp) .nil
  rwa [List.append_nil, List.append_nil] at hlexes

theorem mono (h : Spells follow cs ls) (himp : ∀ c, follow' c → follow c) : Spells follow' cs ls :=
  fun rest more hrest hmore => h rest more (fun c hc => himp c (hrest c hc)) hmore

/-- Texts can be put together when the first one may end before the second one. -/
theorem append (h : Spells follow cs ls) (h' : Spells follow' (c :: cs') ls') (hc : follow c) :
    Spells follow' (cs ++ c :: cs') (ls ++ ls') := by
  intro rest more hrest hmore
  rw [List.append_assoc, List.append_assoc]
  refine h _ _ ?_ (h' rest more hrest hmore)
  rintro d ⟨⟩
  exact hc

/-- A text that may stand in front of anything spells on with the text behind it, whatever that
begins with. -/
theorem append_any (h : Spells Anything cs ls) (h' : Spells follow cs' ls') :
    Spells follow (cs ++ cs') (ls ++ ls') := by
  intro rest more hrest hmore
  rw [List.append_assoc, List.append_assoc]
  exact h _ _ (fun _ _ => trivial) (h' rest more hrest hmore)

theorem blank : Spells Anything [' '] [] :=
  fun _ _ _ hmore => .blank (by decide) hmore

/-- Two texts with a lexeme and blanks between them. -/
theorem spaced {mark : List Char} {l : Lexeme} (h : Spells follow cs ls) (hc : follow ' ')
    (hmark : Spells follow'' mark [l]) (hc' : follow'' ' ') (h' : Spells follow' cs' ls') :
    Spells follow' (cs ++ ' ' :: (mark ++ ' ' :: cs')) (ls ++ l :: ls') :=
  h.append (blank.append_any (hmark.append (blank.append_any h') hc')) hc

end Spells

/-! ## Whole lexemes -/

namespace Lexeme

theorem IsWhole.spells {lexeme : Lexeme} (h : lexeme.IsWhole) :
    Spells lexeme.EndsAt lexeme.text [lexeme] :=
  fun _ _ hrest hmore => h.lexes hrest hmore

/-- Each punctuation is a whole token by itself. What may come behind it is another matter: a point
in front of a digit begins a number. -/
theorem isWhole_punctuation {c : Char} (h : c ∈ punctuation) :
    (⟨.punctuation, [c]⟩ : Lexeme).IsWhole := by
  simp only [punctuation, List.mem_cons, List.not_mem_nil, or_false] at h
  rcases h with rfl | rfl | rfl | rfl | rfl | rfl | rfl | rfl | rfl | rfl <;>
    exact ⟨_, _, rfl, by decide, rfl⟩

/-- The longest operator is taken, and so each of them is read as one token when nothing goes on
with it. -/
theorem isWhole_operator {text : List Char} (h : text ∈ operators) :
    (⟨.operator, text⟩ : Lexeme).IsWhole := by
  simp only [operators, List.mem_cons, List.not_mem_nil, or_false] at h
  rcases h with rfl | rfl | rfl | rfl | rfl | rfl | rfl | rfl | rfl | rfl | rfl | rfl | rfl | rfl |
    rfl | rfl | rfl <;> exact ⟨_, _, rfl, by decide, rfl⟩

end Lexeme

/-- A bracket or a separator may stand before anything. -/
theorem spells_mark (c : Char) (h : c ∈ punctuation ∧ c ≠ '.') :
    Spells Anything [c] [⟨.punctuation, [c]⟩] :=
  (Lexeme.isWhole_punctuation h.1).spells.mono fun _ _ hpoint => absurd hpoint (by simpa using h.2)

/-- The characters that an operator may go on with. -/
def operatorTails : List Char :=
  ['=', '&', '|']

theorem spells_operator {text : List Char} (h : text ∈ operators) :
    Spells (· ∉ operatorTails) text [⟨.operator, text⟩] := by
  refine (Lexeme.isWhole_operator h).spells.mono fun c hc longer hlonger hprefix => hc ?_
  have hall : ∀ c ∈ (operators.map List.tail).flatten, c ∈ operatorTails :=
    forall_mem_of_all (by decide)
  obtain ⟨tail, rfl⟩ := hprefix
  refine hall c (List.mem_flatten_of_mem (List.mem_map_of_mem hlonger) ?_)
  have hempty : text ≠ [] := by
    rintro rfl
    exact absurd h (by decide)
  obtain ⟨d, text, rfl⟩ := List.exists_cons_of_ne_nil hempty
  simp

/-- Only operators start like the rest of an operator. -/
theorem Lexeme.IsWhole.opens {lexeme : Lexeme} (h : lexeme.IsWhole)
    (hkind : lexeme.kind ≠ .operator) : ∃ c cs, lexeme.text = c :: cs ∧ c ∉ operatorTails := by
  obtain ⟨c, cs, htext, -, hread⟩ := h
  refine ⟨c, cs, htext, fun hc => ?_⟩
  have hall : ∀ c ∈ operatorTails, ¬isNameStart c ∧ ¬isQuote c ∧ ¬c.isDigit ∧ c ≠ '.' ∧
      ¬punctuation.contains c := forall_mem_of_all (by decide)
  obtain ⟨hname, hquote, hdigit, hpoint, hpunct⟩ := hall c hc
  generalize ([] : List Char) = rest at hread
  cases readLexeme_iff.mp hread with
  | identifier hstart => exact hname hstart
  | string _ hquote' => exact hquote hquote'
  | number _ _ hnumber => simp [startsNumber, hdigit, hpoint] at hnumber
  | punctuation _ _ _ hpunct' => exact hpunct hpunct'
  | operator => exact hkind rfl

/-! ## Texts of forms -/

/-- In front of a character of `follow`, the text `cs` is the form `s` with the value `v`, and
`depth` parts of it are open at once. -/
def Writes (follow : Char → Prop) (s : Symbol) (cs : List Char) (v : s.Value) (depth : Nat) :
    Prop :=
  ∃ lexemes, Spells follow cs lexemes ∧ Derives s (lexemes.map Lexeme.bare) v depth

/-- Operands of a tighter level belong to every looser one. -/
theorem Derives.loosen {level level' : Nat} {w : List Token} {e : Expr} {d : Nat}
    (hle : level ≤ level') (h : Derives (.operation level') w e d) :
    Derives (.operation level) w e d := by
  induction hle with
  | refl => exact h
  | step _ ih => exact ih (.tighter h)

namespace Writes

variable {follow follow' : Char → Prop} {cs cs' : List Char} {depth depth' : Nat}

theorem mono {s : Symbol} {v : s.Value} (h : Writes follow s cs v depth)
    (himp : ∀ c, follow' c → follow c) : Writes follow' s cs v depth := by
  obtain ⟨ls, hspells, hderives⟩ := h
  exact ⟨ls, hspells.mono himp, hderives⟩

/-- Where a derivation of one form gives one of another, at the same depth, a text of the one form
is a text of the other. -/
theorem lift {s s' : Symbol} {v : s.Value} {v' : s'.Value} (h : Writes follow s cs v depth)
    (hlift : ∀ w d, Derives s w v d → Derives s' w v' d) : Writes follow s' cs v' depth := by
  obtain ⟨ls, hspells, hderives⟩ := h
  exact ⟨ls, hspells, hlift _ _ hderives⟩

theorem nested {s : Symbol} {v : s.Value} (h : Writes follow s cs v depth) :
    Writes follow (.nested s) cs v (depth + 1) := by
  obtain ⟨ls, hspells, hderives⟩ := h
  exact ⟨ls, hspells, .nested hderives⟩

variable {e : Expr}

/-- A primary expression with suffixes needs no parentheses as an operand, at any level of
operators. -/
theorem operation {level : Nat} (h : Writes follow .postfixes cs e depth) (hlevel : level ≤ 6) :
    Writes follow (.operation level) cs e depth :=
  h.lift fun _ _ hderives => .loosen hlevel (.operand (.unsigned hderives))

theorem conditional (h : Writes follow .postfixes cs e depth) :
    Writes follow .conditional cs e depth :=
  (h.operation (Nat.zero_le 6)).lift fun _ _ => .unconditional

theorem filters (h : Writes follow .conditional cs e depth) : Writes follow .filters cs e depth :=
  h.lift fun _ _ => .unfiltered

/-- Parentheses around an expression. -/
theorem group (h : Writes follow .part cs e depth) (hclose : follow ')') :
    Writes Anything .postfixes ('(' :: (cs ++ [')'])) e depth := by
  obtain ⟨ls, hspells, hderives⟩ := h
  refine ⟨⟨.punctuation, ['(']⟩ :: (ls ++ [⟨.punctuation, [')']⟩]), ?_, ?_⟩
  · have hinner := hspells.append (spells_mark ')' (by decide)) hclose
    exact (spells_mark '(' (by decide)).append_any hinner
  · rw [List.map_cons, List.map_append]
    exact .plain (.group rfl hderives rfl)

/-! ### Operators -/

variable {span : Span}

/-- An operation of any level is an expression as it stands, so that nothing need be printed around
it. -/
theorem filters_of_operation {level : Nat} (h : Writes follow (.operation level) cs e depth) :
    Writes follow .filters cs e depth :=
  h.lift fun _ _ hderives => .unfiltered (.unconditional (.loosen (Nat.zero_le level) hderives))

/-- An operator with blanks around it, between a text of its level and one of the next tighter
level. -/
theorem binary {operator : BinaryOp} {left right : Expr}
    (h : Writes follow (.operation operator.precedence) cs (bare left) depth) (hc : follow ' ')
    (h' : Writes follow' (.operation (operator.precedence + 1)) cs' (bare right) depth') :
    Writes follow' .filters (cs ++ ' ' :: (operator.text.toList ++ ' ' :: cs'))
      (bare (.binary ⟨span, none⟩ operator left right)) (max depth depth') := by
  obtain ⟨ls, hspells, hderives⟩ := h
  obtain ⟨ls', hspells', hderives'⟩ := h'
  have hmem : operator.text.toList ∈ operators := by cases operator <;> decide
  have hoperator : (Lexeme.bare ⟨.operator, operator.text.toList⟩).isOperator operator.text := by
    simp [Lexeme.bare, Lexeme.token, Token.isOperator]
  have hwrites : Writes follow' (.operation operator.precedence)
      (cs ++ ' ' :: (operator.text.toList ++ ' ' :: cs'))
      (bare (.binary ⟨span, none⟩ operator left right)) (max depth depth') := by
    refine ⟨ls ++ ⟨.operator, operator.text.toList⟩ :: ls',
      hspells.spaced hc (spells_operator hmem) (by decide) hspells', ?_⟩
    rw [List.map_append, List.map_cons]
    have hbinary := Derives.binary hderives hoperator hderives'
    rw [span_bare, span_bare] at hbinary
    exact hbinary
  exact hwrites.filters_of_operation

/-- A unary operator stands directly in front of its operand, whose first character must not make a
longer operator. -/
theorem unary {operator : UnaryOp} {argument : Expr} {c : Char}
    (h : Writes follow (.nested .unary) (c :: cs) (bare argument) depth) (hc : c ∉ operatorTails) :
    Writes follow .filters (operator.text.toList ++ c :: cs)
      (bare (.unary ⟨span, none⟩ operator true argument)) depth := by
  obtain ⟨ls, hspells, hderives⟩ := h
  have hmem : operator.text.toList ∈ operators := by cases operator <;> decide
  have hoperator : (Lexeme.bare ⟨.operator, operator.text.toList⟩).isOperator operator.text := by
    simp [Lexeme.bare, Lexeme.token, Token.isOperator]
  have hwrites : Writes follow (.operation 6) (operator.text.toList ++ c :: cs)
      (bare (.unary ⟨span, none⟩ operator true argument)) depth := by
    refine ⟨⟨.operator, operator.text.toList⟩ :: ls,
      (spells_operator hmem).append hspells hc, ?_⟩
    rw [List.map_cons]
    have hunary := Derives.unary hoperator hderives
    rw [span_bare] at hunary
    exact .operand hunary
  exact hwrites.filters_of_operation

theorem choice {test consequent alternate : Expr} {cs₁ cs₂ cs₃ : List Char} {b₁ b₂ b₃ : Nat}
    {follow₁ follow₂ follow₃ : Char → Prop}
    (h₁ : Writes follow₁ (.operation 0) cs₁ (bare test) b₁) (hc₁ : follow₁ ' ')
    (h₂ : Writes follow₂ (.nested .conditional) cs₂ (bare consequent) b₂) (hc₂ : follow₂ ' ')
    (h₃ : Writes follow₃ (.nested .conditional) cs₃ (bare alternate) b₃) :
    Writes follow₃ .filters
      (cs₁ ++ ' ' :: (['?'] ++ ' ' :: (cs₂ ++ ' ' :: ([':'] ++ ' ' :: cs₃))))
      (bare (.conditional ⟨span, none⟩ test consequent alternate)) (max b₁ (max b₂ b₃)) := by
  obtain ⟨ls₁, hspells₁, hderives₁⟩ := h₁
  obtain ⟨ls₂, hspells₂, hderives₂⟩ := h₂
  obtain ⟨ls₃, hspells₃, hderives₃⟩ := h₃
  have hspells := hspells₁.spaced hc₁ (spells_mark '?' (by decide)) trivial
    (hspells₂.spaced hc₂ (spells_mark ':' (by decide)) trivial hspells₃)
  have hmark : (Lexeme.bare ⟨.punctuation, ['?']⟩).isPunctuation "?" := rfl
  have hcolon : (Lexeme.bare ⟨.punctuation, [':']⟩).isPunctuation ":" := rfl
  refine ⟨_, hspells, ?_⟩
  simp only [List.map_append, List.map_cons]
  have hchoice := Derives.choice hderives₁ hmark hderives₂ hcolon hderives₃
  rw [span_bare, span_bare] at hchoice
  exact .unfiltered hchoice

/-! ### Members, calls and filters -/

/-- A point and a name behind a text that may stand in front of a point, which numbers may not. -/
theorem member {base : Expr} {name : Token} (h : Writes follow .postfixes cs (bare base) depth)
    (hc : follow '.') (hwhole : name.lexeme.IsWhole) (hname : name.kind = .identifier) :
    Writes name.lexeme.EndsAt .postfixes (cs ++ '.' :: name.text.toList)
      (bare (.member ⟨span, none⟩ base (ofName name) false)) depth := by
  obtain ⟨ls, hspells, hderives⟩ := h
  have hpoint : Spells (¬·.isDigit) ['.'] [⟨.punctuation, ['.']⟩] :=
    (Lexeme.isWhole_punctuation (by decide)).spells.mono fun _ hdigit _ => hdigit
  have hspellsName := hwhole.spells
  obtain ⟨c, text, htext, -, hread⟩ := hwhole
  have hstart : ¬c.isDigit := fun hdigit =>
    not_isNameStart_of_isDigit hdigit (isNameStart_of_readLexeme hread hname)
  rw [htext] at hspellsName
  rw [show name.text.toList = c :: text from htext]
  refine ⟨_, hspells.append (hpoint.append hspellsName hstart) hc, ?_⟩
  simp only [List.map_append, List.map_cons, List.map_nil, List.singleton_append, bare_token]
  have hdot : (Lexeme.bare ⟨.punctuation, ['.']⟩).isPunctuation "." := rfl
  have hmember := Derives.member hderives hdot (show (bare name).kind = .identifier from hname)
  rw [span_bare] at hmember
  exact hmember

theorem element {base index : Expr} (h : Writes follow .postfixes cs (bare base) depth)
    (hc : follow '[') (h' : Writes follow' .part cs' (bare index) depth') (hc' : follow' ']') :
    Writes Anything .postfixes (cs ++ '[' :: (cs' ++ [']']))
      (bare (.member ⟨span, none⟩ base index true)) (max depth depth') := by
  obtain ⟨ls, hspells, hderives⟩ := h
  obtain ⟨ls', hspells', hderives'⟩ := h'
  have hopen : (Lexeme.bare ⟨.punctuation, ['[']⟩).isPunctuation "[" := rfl
  have hclose : (Lexeme.bare ⟨.punctuation, [']']⟩).isPunctuation "]" := rfl
  have hinner := hspells'.append (spells_mark ']' (by decide)) hc'
  have hbracket := (spells_mark '[' (by decide)).append_any hinner
  refine ⟨_, hspells.append hbracket hc, ?_⟩
  simp only [List.map_append, List.map_cons, List.singleton_append]
  have helement := Derives.element hderives hopen hderives' hclose
  rw [span_bare] at helement
  exact helement

theorem call {callee : Expr} {es : List Expr} (h : Writes follow .postfixes cs (bare callee) depth)
    (hc : follow '(') (hs : Writes follow' (.items .part ")") cs' (bare es, .point 0) depth') :
    Writes follow' .postfixes (cs ++ '(' :: cs') (bare (.call ⟨span, none⟩ callee es false))
      (max depth depth') := by
  obtain ⟨ls, hspells, hderives⟩ := h
  obtain ⟨ls', hspells', hderives'⟩ := hs
  have hopen : (Lexeme.bare ⟨.punctuation, ['(']⟩).isPunctuation "(" := rfl
  have hbracket := (spells_mark '(' (by decide)).append_any hspells'
  refine ⟨_, hspells.append hbracket hc, ?_⟩
  rw [List.map_append, List.map_append]
  have hcall := Derives.call hderives hopen hderives'
  rw [span_bare] at hcall
  rw [bare_call]
  exact hcall

theorem filter {input : Expr} {name : Token} (h : Writes follow .filters cs (bare input) depth)
    (hc : follow ' ') (hwhole : name.lexeme.IsWhole) (hname : name.kind = .identifier) :
    Writes name.lexeme.EndsAt .filters (cs ++ ' ' :: (['|'] ++ ' ' :: name.text.toList))
      (bare (.call ⟨span, none⟩ (ofName name) [input] true)) depth := by
  obtain ⟨ls, hspells, hderives⟩ := h
  have hbar : (Lexeme.bare ⟨.operator, ['|']⟩).isOperator "|" := rfl
  refine ⟨_, hspells.spaced hc (spells_operator (by decide)) (by decide) hwhole.spells, ?_⟩
  simp only [List.map_append, List.map_cons, List.map_nil, bare_token]
  have hfilter := Derives.filter hderives hbar (show (bare name).kind = .identifier from hname)
  rw [span_bare] at hfilter
  exact hfilter

theorem filterCall {input : Expr} {name : Token} {es : List Expr}
    (h : Writes follow .filters cs (bare input) depth) (hc : follow ' ')
    (hwhole : name.lexeme.IsWhole) (hname : name.kind = .identifier)
    (hs : Writes follow' (.items .part ")") cs' (bare es, .point 0) depth') :
    Writes follow' .filters (cs ++ ' ' :: (['|'] ++ ' ' :: (name.text.toList ++ '(' :: cs')))
      (bare (.call ⟨span, none⟩ (ofName name) (input :: es) true)) (max depth depth') := by
  obtain ⟨ls, hspells, hderives⟩ := h
  obtain ⟨ls', hspells', hderives'⟩ := hs
  have hbar : (Lexeme.bare ⟨.operator, ['|']⟩).isOperator "|" := rfl
  have hopen : (Lexeme.bare ⟨.punctuation, ['(']⟩).isPunctuation "(" := rfl
  have hbracket := (spells_mark '(' (by decide)).append_any hspells'
  have hends : name.lexeme.EndsAt '(' := (Lexeme.endsAt_identifier hname).mpr (by decide)
  have hcall := hwhole.spells.append hbracket hends
  refine ⟨_, hspells.spaced hc (spells_operator (by decide)) (by decide) hcall, ?_⟩
  simp only [List.map_append, List.map_cons, List.singleton_append, bare_token]
  have hfilter := Derives.filterCall hderives hbar (show (bare name).kind = .identifier from hname)
    hopen hderives'
  rw [span_bare] at hfilter
  rw [bare_call]
  exact hfilter

/-! ### Primary expressions -/

variable {token : Token}

theorem name (h : token.lexeme.IsWhole) (hkind : token.kind = .identifier)
    (hname : keyword? token.text = none) :
    Writes token.lexeme.EndsAt .postfixes token.text.toList (bare (ofName token)) 0 := by
  refine ⟨_, h.spells, ?_⟩
  rw [List.map_cons, List.map_nil, bare_token]
  exact .plain (.name hkind hname)

theorem keyword {value : Value} (h : token.lexeme.IsWhole) (hkind : token.kind = .identifier)
    (hvalue : keyword? token.text = some value) :
    Writes token.lexeme.EndsAt .postfixes token.text.toList (bare (ofValue token value)) 0 := by
  refine ⟨_, h.spells, ?_⟩
  rw [List.map_cons, List.map_nil, bare_token]
  exact .plain (.keyword hkind hvalue)

theorem literal {value : Value} (h : token.lexeme.IsWhole)
    (hvalue : token.kind.value? = some value) :
    Writes token.lexeme.EndsAt .postfixes token.text.toList (bare (ofValue token value)) 0 := by
  refine ⟨_, h.spells, ?_⟩
  rw [List.map_cons, List.map_nil, bare_token]
  exact .plain (.literal hvalue)

theorem array {es : List Expr}
    (hs : Writes follow (.items .part "]") cs (bare es, .point 0) depth) :
    Writes follow .postfixes ('[' :: cs) (bare (.array ⟨span, none⟩ es)) depth := by
  obtain ⟨ls, hspells, hderives⟩ := hs
  have hopen : (Lexeme.bare ⟨.punctuation, ['[']⟩).isPunctuation "[" := rfl
  refine ⟨_, (spells_mark '[' (by decide)).append_any hspells, ?_⟩
  rw [List.map_append, bare_array]
  exact .plain (.array hopen hderives)

theorem object {ps : List Property}
    (hs : Writes follow (.items .property r"}") cs (bare ps, .point 0) depth) :
    Writes follow .postfixes ('{' :: cs) (bare (.object ⟨span, none⟩ ps)) depth := by
  obtain ⟨ls, hspells, hderives⟩ := hs
  have hopen : (Lexeme.bare ⟨.punctuation, ['{']⟩).isPunctuation r"{" := rfl
  refine ⟨_, (spells_mark '{' (by decide)).append_any hspells, ?_⟩
  rw [List.map_append, bare_object]
  exact .plain (.object hopen hderives)

/-! ### Properties -/

theorem shorthand (h : token.lexeme.IsWhole) (hkind : token.kind = .identifier)
    (hname : keyword? token.text = none) :
    Writes token.lexeme.EndsAt .property token.text.toList
      (bare (⟨ofName token, ofName token, false, true⟩ : Property)) 0 := by
  refine ⟨_, h.spells, ?_⟩
  rw [List.map_cons, List.map_nil, bare_token]
  exact .shorthand hkind hname

/-- A colon and the value behind it. -/
theorem spells_value {ls : List Lexeme} (h : Spells follow cs ls) :
    Spells follow (':' :: ' ' :: cs) (⟨.punctuation, [':']⟩ :: ls) :=
  (spells_mark ':' (by decide)).append_any (Spells.blank.append_any h)

theorem nameKey {value : Expr} (h : token.lexeme.IsWhole) (hkind : token.kind = .identifier)
    (hvalue : Writes follow .part cs (bare value) depth) :
    Writes follow .property (token.text.toList ++ ':' :: ' ' :: cs)
      (bare (⟨ofName token, value, false, false⟩ : Property)) depth := by
  obtain ⟨ls, hspells, hderives⟩ := hvalue
  have hcolon : (Lexeme.bare ⟨.punctuation, [':']⟩).isPunctuation ":" := rfl
  have hends : token.lexeme.EndsAt ':' := (Lexeme.endsAt_identifier hkind).mpr (by decide)
  refine ⟨_, h.spells.append (spells_value hspells) hends, ?_⟩
  rw [List.map_append, List.map_cons, List.map_cons, List.map_nil, bare_token]
  exact .nameKey hkind hcolon hderives

theorem literalKey {key : Value} {value : Expr} (h : token.lexeme.IsWhole)
    (hkey : token.kind.value? = some key) (hends : token.lexeme.EndsAt ':')
    (hvalue : Writes follow .part cs (bare value) depth) :
    Writes follow .property (token.text.toList ++ ':' :: ' ' :: cs)
      (bare (⟨ofValue token key, value, false, false⟩ : Property)) depth := by
  obtain ⟨ls, hspells, hderives⟩ := hvalue
  have hcolon : (Lexeme.bare ⟨.punctuation, [':']⟩).isPunctuation ":" := rfl
  refine ⟨_, h.spells.append (spells_value hspells) hends, ?_⟩
  rw [List.map_append, List.map_cons, List.map_cons, List.map_nil, bare_token]
  exact .literalKey hkey hcolon hderives

theorem computedKey {key value : Expr} (h : Writes follow .part cs (bare key) depth)
    (hc : follow ']') (hvalue : Writes follow' .part cs' (bare value) depth') :
    Writes follow' .property ('[' :: (cs ++ ']' :: ':' :: ' ' :: cs'))
      (bare (⟨key, value, true, false⟩ : Property)) (max depth depth') := by
  obtain ⟨ls, hspells, hderives⟩ := h
  obtain ⟨ls', hspells', hderives'⟩ := hvalue
  have hopen : (Lexeme.bare ⟨.punctuation, ['[']⟩).isPunctuation "[" := rfl
  have hclose : (Lexeme.bare ⟨.punctuation, [']']⟩).isPunctuation "]" := rfl
  have hcolon : (Lexeme.bare ⟨.punctuation, [':']⟩).isPunctuation ":" := rfl
  have hbracket :=
    (spells_mark ']' (by decide)).append_any (spells_value hspells')
  refine ⟨_, (spells_mark '[' (by decide)).append_any
    (hspells.append hbracket hc), ?_⟩
  simp only [List.map_append, List.map_cons, List.singleton_append]
  exact .computedKey hopen hderives hclose hcolon hderives'

/-! ### Lists -/

/-- A comma and what stands behind it. -/
theorem spells_comma {ls : List Lexeme} (h : Spells follow cs ls) :
    Spells follow (',' :: ' ' :: cs) (⟨.punctuation, [',']⟩ :: ls) :=
  (spells_mark ',' (by decide)).append_any (Spells.blank.append_any h)

section

variable {α : Type} {text : α → String} {depthOf : α → Nat}

/-- Items with commas and blanks between them. -/
theorem items {s : Symbol} {value : α → s.Value} {c : Char} {close : String} (hc : c ∈ punctuation)
    (hpoint : c ≠ '.') (hclose : (Lexeme.bare ⟨.punctuation, [c]⟩).isPunctuation close)
    (hcomma : follow ',') (hfollow : follow c) {as : List α}
    (h : ∀ a ∈ as, Writes follow s (text a).toList (value a) (depthOf a)) :
    Writes Anything (.items s close) ((", ".intercalate (as.map text)).toList ++ [c])
      (as.map value, .point 0) ((as.map depthOf).foldr max 0) := by
  induction as with
  | nil => exact ⟨_, spells_mark c ⟨hc, hpoint⟩, .close hclose⟩
  | cons a as ih =>
      obtain ⟨ls, hspells, hderives⟩ := h a List.mem_cons_self
      cases as with
      | nil =>
          have hdepth : ([a].map depthOf).foldr max 0 = depthOf a := Nat.max_zero (depthOf a)
          rw [List.map_cons, List.map_nil, String.intercalate_singleton]
          refine ⟨_, hspells.append (spells_mark c ⟨hc, hpoint⟩) hfollow, ?_⟩
          rw [List.map_append, hdepth]
          exact .last hderives hclose
      | cons a' as =>
          obtain ⟨ls', hspells', hderives'⟩ := ih fun b hb => h b (.tail a hb)
          have hmark : (Lexeme.bare ⟨.punctuation, [',']⟩).isPunctuation "," := rfl
          refine ⟨ls ++ ⟨.punctuation, [',']⟩ :: ls', ?_, ?_⟩
          · have hall := hspells.append (spells_comma hspells') hcomma
            rw [List.map_cons, List.map_cons, String.intercalate_cons_cons]
            simpa using hall
          · rw [List.map_append, List.map_cons]
            exact .more hderives hmark hderives'

/-- The expressions of a source with commas and blanks between them. -/
theorem list {value : α → Expr} (hcomma : follow ',') {as : List α} (has : as ≠ [])
    (h : ∀ a ∈ as, Writes follow .part (text a).toList (value a) (depthOf a)) :
    ∃ lexemes, Spells follow (", ".intercalate (as.map text)).toList lexemes ∧
      DerivesList (lexemes.map Lexeme.bare) (as.map value) ((as.map depthOf).foldr max 0) := by
  induction as with
  | nil => contradiction
  | cons a as ih =>
      obtain ⟨ls, hspells, hderives⟩ := h a List.mem_cons_self
      cases as with
      | nil =>
          have hdepth : ([a].map depthOf).foldr max 0 = depthOf a := Nat.max_zero (depthOf a)
          rw [List.map_cons, List.map_nil, String.intercalate_singleton]
          refine ⟨ls, hspells, ?_⟩
          rw [hdepth]
          exact .one hderives
      | cons a' as =>
          obtain ⟨ls', hspells', hderives'⟩ :=
            ih (List.cons_ne_nil a' as) fun b hb => h b (.tail a hb)
          have hmark : (Lexeme.bare ⟨.punctuation, [',']⟩).isPunctuation "," := rfl
          refine ⟨ls ++ ⟨.punctuation, [',']⟩ :: ls', ?_, ?_⟩
          · have hall := hspells.append (spells_comma hspells') hcomma
            rw [List.map_cons, List.map_cons, String.intercalate_cons_cons]
            simpa using hall
          · rw [List.map_append, List.map_cons]
            exact .more hderives hmark hderives'

end

end Writes

end ReactiveTemplate
