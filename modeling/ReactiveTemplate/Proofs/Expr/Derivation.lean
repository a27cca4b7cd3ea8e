import ReactiveTemplate.Expr.Grammar

/-!
# Derivations of expressions

The grammar of expressions as rules, apart from any reader. A derivation says which tokens a form of
the grammar covers, what tree they stand for, and how many nested parts are open at once at its
deepest place. Neither the height of a tree nor the number of open parts is bounded here.
-/

namespace ReactiveTemplate

open ReactiveTemplate.Expr

/-- The level that a binary operator stands on. Those on level zero bind loosest. -/
def BinaryOp.precedence : BinaryOp → Nat
  | or => 0
  | and => 1
  | equal | notEqual | strictEqual | strictNotEqual => 2
  | less | greater | lessEqual | greaterEqual => 3
  | add | subtract => 4
  | multiply | divide | remainder => 5

/-- The forms of the grammar. -/
inductive Symbol where
  | filters
  | conditional
  /-- Operands with binary operators of this level or a tighter one between them. -/
  | operation (level : Nat)
  | unary
  | postfixes
  | primary
  | property
  /-- The rest of a bracketed list, up to and with the closing bracket. -/
  | items (item : Symbol) (close : String)
  /-- A part that starts anew, one level of nesting deeper. -/
  | nested (part : Symbol)

namespace Symbol

/-- What a form stands for. -/
@[reducible] def Value : Symbol → Type
  | filters | conditional | operation _ | unary | postfixes | primary => Expr
  | property => Property
  | items item _ => List item.Value × Span
  | nested part => part.Value

/-- An expression in a place of its own: an argument, an element, or whatever stands in brackets. -/
abbrev part : Symbol :=
  nested filters

end Symbol

/-- `Derives s tokens v depth` says that the form `s` covers `tokens`, which then stand for `v`, and
that `depth` nested parts are open at once at the deepest place. -/
inductive Derives : (s : Symbol) → List Token → s.Value → Nat → Prop where
  | nested {s : Symbol} {w : List Token} {v : s.Value} {d : Nat} (h : Derives s w v d) :
      Derives (.nested s) w v (d + 1)
  /-- A filter without further arguments. -/
  | filter {w : List Token} {bar name : Token} {input : Expr} {d : Nat}
      (h : Derives .filters w input d) (hbar : bar.isOperator "|")
      (hname : name.kind = .identifier) :
      Derives .filters (w ++ [bar, name])
        (.call ⟨input.span.join name.span, none⟩ (ofName name) [input] true) d
  | filterCall {w ws : List Token} {bar name opener : Token} {input : Expr} {es : List Expr}
      {stop : Span} {d d' : Nat} (h : Derives .filters w input d) (hbar : bar.isOperator "|")
      (hname : name.kind = .identifier) (hopen : opener.isPunctuation "(")
      (hs : Derives (.items .part ")") ws (es, stop) d') :
      Derives .filters (w ++ bar :: name :: opener :: ws)
        (.call ⟨input.span.join stop, none⟩ (ofName name) (input :: es) true) (max d d')
  | unfiltered {w : List Token} {e : Expr} {d : Nat} (h : Derives .conditional w e d) :
      Derives .filters w e d
  | choice {w₁ w₂ w₃ : List Token} {mark colon : Token} {test consequent alternate : Expr}
      {d₁ d₂ d₃ : Nat} (h₁ : Derives (.operation 0) w₁ test d₁) (hmark : mark.isPunctuation "?")
      (h₂ : Derives (.nested .conditional) w₂ consequent d₂) (hcolon : colon.isPunctuation ":")
      (h₃ : Derives (.nested .conditional) w₃ alternate d₃) :
      Derives .conditional (w₁ ++ mark :: (w₂ ++ colon :: w₃))
        (.conditional ⟨test.span.join alternate.span, none⟩ test consequent alternate)
        (max d₁ (max d₂ d₃))
  | unconditional {w : List Token} {e : Expr} {d : Nat} (h : Derives (.operation 0) w e d) :
      Derives .conditional w e d
  /-- An operator binds to the left: only the right operand has to be tighter. -/
  | binary {w w' : List Token} {token : Token} {operator : BinaryOp} {left right : Expr}
      {d d' : Nat} (h : Derives (.operation operator.precedence) w left d)
      (htoken : token.isOperator operator.text)
      (h' : Derives (.operation (operator.precedence + 1)) w' right d') :
      Derives (.operation operator.precedence) (w ++ token :: w')
        (.binary ⟨left.span.join right.span, none⟩ operator left right) (max d d')
  | tighter {level : Nat} {w : List Token} {e : Expr} {d : Nat}
      (h : Derives (.operation (level + 1)) w e d) : Derives (.operation level) w e d
  | operand {w : List Token} {e : Expr} {d : Nat} (h : Derives .unary w e d) :
      Derives (.operation 6) w e d
  | unary {w : List Token} {token : Token} {operator : UnaryOp} {argument : Expr} {d : Nat}
      (htoken : token.isOperator operator.text) (h : Derives (.nested .unary) w argument d) :
      Derives .unary (token :: w)
        (.unary ⟨token.span.join argument.span, none⟩ operator true argument) d
  | unsigned {w : List Token} {e : Expr} {d : Nat} (h : Derives .postfixes w e d) :
      Derives .unary w e d
  | call {w ws : List Token} {opener : Token} {callee : Expr} {es : List Expr} {stop : Span}
      {d d' : Nat} (h : Derives .postfixes w callee d) (hopen : opener.isPunctuation "(")
      (hs : Derives (.items .part ")") ws (es, stop) d') :
      Derives .postfixes (w ++ opener :: ws)
        (.call ⟨callee.span.join stop, none⟩ callee es false) (max d d')
  | element {w w' : List Token} {opener close : Token} {base index : Expr} {d d' : Nat}
      (h : Derives .postfixes w base d) (hopen : opener.isPunctuation "[")
      (h' : Derives .part w' index d') (hclose : close.isPunctuation "]") :
      Derives .postfixes (w ++ opener :: (w' ++ [close]))
        (.member ⟨base.span.join close.span, none⟩ base index true) (max d d')
  | member {w : List Token} {point name : Token} {base : Expr} {d : Nat}
      (h : Derives .postfixes w base d) (hpoint : point.isPunctuation ".")
      (hname : name.kind = .identifier) :
      Derives .postfixes (w ++ [point, name])
        (.member ⟨base.span.join name.span, none⟩ base (ofName name) false) d
  | plain {w : List Token} {e : Expr} {d : Nat} (h : Derives .primary w e d) :
      Derives .postfixes w e d
  | group {w : List Token} {opener close : Token} {e : Expr} {d : Nat}
      (hopen : opener.isPunctuation "(") (h : Derives .part w e d)
      (hclose : close.isPunctuation ")") : Derives .primary (opener :: (w ++ [close])) e d
  | array {ws : List Token} {opener : Token} {es : List Expr} {stop : Span} {d : Nat}
      (hopen : opener.isPunctuation "[") (hs : Derives (.items .part "]") ws (es, stop) d) :
      Derives .primary (opener :: ws) (.array ⟨opener.span.join stop, none⟩ es) d
  | object {ws : List Token} {opener : Token} {ps : List Property} {stop : Span} {d : Nat}
      (hopen : opener.isPunctuation r"{")
      (hs : Derives (.items .property r"}") ws (ps, stop) d) :
      Derives .primary (opener :: ws) (.object ⟨opener.span.join stop, none⟩ ps) d
  | literal {token : Token} {value : Value} (hvalue : token.kind.value? = some value) :
      Derives .primary [token] (ofValue token value) 0
  | keyword {token : Token} {value : Value} (hkind : token.kind = .identifier)
      (hvalue : keyword? token.text = some value) : Derives .primary [token] (ofValue token value) 0
  | name {token : Token} (hkind : token.kind = .identifier)
      (hname : keyword? token.text = none) : Derives .primary [token] (ofName token) 0
  /-- A keyword is no variable, hence no shorthand for one. -/
  | shorthand {token : Token} (hkind : token.kind = .identifier)
      (hname : keyword? token.text = none) :
      Derives .property [token] ⟨ofName token, ofName token, false, true⟩ 0
  | nameKey {w : List Token} {token colon : Token} {value : Expr} {d : Nat}
      (hkind : token.kind = .identifier) (hcolon : colon.isPunctuation ":")
      (h : Derives .part w value d) :
      Derives .property (token :: colon :: w) ⟨ofName token, value, false, false⟩ d
  | literalKey {w : List Token} {token colon : Token} {key : Value} {value : Expr} {d : Nat}
      (hkey : token.kind.value? = some key) (hcolon : colon.isPunctuation ":")
      (h : Derives .part w value d) :
      Derives .property (token :: colon :: w) ⟨ofValue token key, value, false, false⟩ d
  | computedKey {w w' : List Token} {opener close colon : Token} {key value : Expr} {d d' : Nat}
      (hopen : opener.isPunctuation "[") (h : Derives .part w key d)
      (hclose : close.isPunctuation "]") (hcolon : colon.isPunctuation ":")
      (h' : Derives .part w' value d') :
      Derives .property (opener :: (w ++ close :: colon :: w')) ⟨key, value, true, false⟩ (max d d')
  | close {s : Symbol} {close : String} {token : Token} (hclose : token.isPunctuation close) :
      Derives (.items s close) [token] ([], token.span) 0
  | last {s : Symbol} {close : String} {w : List Token} {token : Token} {v : s.Value} {d : Nat}
      (h : Derives s w v d) (hclose : token.isPunctuation close) :
      Derives (.items s close) (w ++ [token]) ([v], token.span) d
  | more {s : Symbol} {close : String} {w ws : List Token} {comma : Token} {v : s.Value}
      {vs : List s.Value} {stop : Span} {d d' : Nat} (h : Derives s w v d)
      (hcomma : comma.isPunctuation ",") (hs : Derives (.items s close) ws (vs, stop) d') :
      Derives (.items s close) (w ++ comma :: ws) (v :: vs, stop) (max d d')

/-- `DerivesList tokens es depth` says that `tokens` are expressions with commas between them. -/
inductive DerivesList : List Token → List Expr → Nat → Prop where
  | one {w : List Token} {e : Expr} {d : Nat} (h : Derives .part w e d) : DerivesList w [e] d
  | more {w ws : List Token} {comma : Token} {e : Expr} {es : List Expr} {d d' : Nat}
      (h : Derives .part w e d) (hcomma : comma.isPunctuation ",") (hs : DerivesList ws es d') :
      DerivesList (w ++ comma :: ws) (e :: es) (max d d')

/-- `DerivesSource tokens es depth` says that `tokens` are a whole source: nothing at all, or
expressions with commas between them. -/
inductive DerivesSource : List Token → List Expr → Nat → Prop where
  | empty : DerivesSource [] [] 0
  | list {tokens : List Token} {es : List Expr} {d : Nat} (h : DerivesList tokens es d) :
      DerivesSource tokens es d

end ReactiveTemplate
