import ReactiveTemplate.Proofs.Expr.Derivation
import ReactiveTemplate.Proofs.Expr.Reader

/-!
# Groups of tokens

In whatever can be derived the brackets match, and a comma only stands where a list is: between the
expressions of a source, or inside of brackets.
-/

namespace ReactiveTemplate

namespace Token

/-- A token is the bracket that `close` closes. -/
inductive Matches (token : Token) : (close : String) → Prop where
  | round (h : token.isPunctuation "(") : Matches token ")"
  | square (h : token.isPunctuation "[") : Matches token "]"
  | curly (h : token.isPunctuation r"{") : Matches token r"}"

/-- A token is neither a bracket nor a comma. -/
def IsPlain (token : Token) : Prop :=
  token.kind = .punctuation → token.text ∈ [".", "?", ":"]

variable {token : Token} {text : String}

theorem isPlain_of_isOperator (h : token.isOperator text) : token.IsPlain := by
  intro hkind
  rw [(Token.isOperator_iff.mp h).1] at hkind
  contradiction

theorem isPlain_of_value {value : Value} (h : token.kind.value? = some value) :
    token.IsPlain := by
  intro hkind
  rw [hkind] at h
  contradiction

theorem isPlain_of_identifier (h : token.kind = .identifier) : token.IsPlain := by
  intro hkind
  rw [h] at hkind
  contradiction

theorem isPlain_of_isPunctuation (h : token.isPunctuation text) (htext : text ∈ [".", "?", ":"]) :
    token.IsPlain := by
  intro _
  rwa [(Token.isPunctuation_iff.mp h).2]

end Token

/-- Tokens of which all brackets match. Outside of them there are no commas, unless `commas`. -/
inductive Grouped : (commas : Bool) → List Token → Prop where
  | nil {commas : Bool} : Grouped commas []
  | plain {commas : Bool} {token : Token} {w : List Token} (htoken : token.IsPlain)
      (h : Grouped commas w) : Grouped commas (token :: w)
  | comma {token : Token} {w : List Token} (htoken : token.isPunctuation ",")
      (h : Grouped true w) : Grouped true (token :: w)
  | group {commas : Bool} {opener token : Token} {close : String} {inner w : List Token}
      (hopen : opener.Matches close) (hinner : Grouped true inner)
      (hclose : token.isPunctuation close) (h : Grouped commas w) :
      Grouped commas (opener :: (inner ++ token :: w))

namespace Grouped

variable {commas : Bool} {w w' : List Token} {token : Token}

/-- Two runs of tokens without loose brackets stay so side by side, and so does the agreement about
commas. -/
theorem append (h : Grouped commas w) (h' : Grouped commas w') : Grouped commas (w ++ w') := by
  induction h with
  | nil => exact h'
  | plain htoken _ ih => exact .plain htoken (ih h')
  | comma htoken _ ih => exact .comma htoken (ih h')
  | group hopen hinner hclose _ _ ih =>
      rw [List.cons_append, List.append_assoc, List.cons_append]
      exact .group hopen hinner hclose (ih h')

/-- Commas need not be there where they may be. -/
theorem free (h : Grouped commas w) : Grouped true w := by
  induction h with
  | nil => exact .nil
  | plain htoken _ ih => exact .plain htoken ih
  | comma htoken _ ih => exact .comma htoken ih
  | group hopen hinner hclose _ _ ih => exact .group hopen hinner hclose ih

theorem single (h : token.IsPlain) : Grouped commas [token] :=
  .plain h .nil

end Grouped

/-! ## Derivations -/

/-- The tokens in front of a closing bracket. -/
def Enclosed (close : String) (w : List Token) : Prop :=
  ∃ inner token, w = inner ++ [token] ∧ Grouped true inner ∧ token.isPunctuation close

/-- What is enclosed in matching brackets counts as one piece. Commas may stand inside, whatever is
agreed for the outside. -/
theorem Enclosed.grouped {opener : Token} {close : String} {w : List Token} {commas : Bool}
    (h : Enclosed close w) (hopen : opener.Matches close) : Grouped commas (opener :: w) := by
  obtain ⟨inner, token, rfl, hinner, hclose⟩ := h
  exact .group hopen hinner hclose .nil

/-- The tokens of a form are grouped. Those of the rest of a list are so but for the bracket that
they end with, as long as its items are grouped. -/
def Symbol.Groups : Symbol → List Token → Prop
  | items item close, w => (∀ w, item.Groups w → Grouped false w) → Enclosed close w
  | nested part, w => part.Groups w
  | _, w => Grouped false w

/-- Brackets match in every form of the grammar, by induction on its derivation. Commas stand in
lists only, that is, inside brackets. -/
theorem Derives.groups {s : Symbol} {w : List Token} {v : s.Value} {d : Nat}
    (h : Derives s w v d) : s.Groups w := by
  induction h with
  | nested _ ih | unfiltered _ ih | unconditional _ ih | tighter _ ih | operand _ ih
  | unsigned _ ih | plain _ ih => exact ih
  | filter _ hbar hname ih =>
      exact ih.append (.plain (Token.isPlain_of_isOperator hbar)
        (.single (Token.isPlain_of_identifier hname)))
  | filterCall _ hbar hname hopen _ ih ihs =>
      exact ih.append (.plain (Token.isPlain_of_isOperator hbar)
        (.plain (Token.isPlain_of_identifier hname) ((ihs fun _ => id).grouped (.round hopen))))
  | choice _ hmark _ hcolon _ ih₁ ih₂ ih₃ =>
      have hmark := Token.isPlain_of_isPunctuation hmark (by simp)
      have hcolon := Token.isPlain_of_isPunctuation hcolon (by simp)
      exact ih₁.append (.plain hmark (ih₂.append (.plain hcolon ih₃)))
  | binary _ htoken _ ih ih' =>
      exact ih.append (.plain (Token.isPlain_of_isOperator htoken) ih')
  | unary htoken _ ih => exact .plain (Token.isPlain_of_isOperator htoken) ih
  | call _ hopen _ ih ihs => exact ih.append ((ihs fun _ => id).grouped (.round hopen))
  | element _ hopen _ hclose ih ih' =>
      exact ih.append (.group (.square hopen) ih'.free hclose .nil)
  | member _ hpoint hname ih =>
      have hpoint := Token.isPlain_of_isPunctuation hpoint (by simp)
      exact ih.append (.plain hpoint (.single (Token.isPlain_of_identifier hname)))
  | group hopen _ hclose ih => exact .group (.round hopen) ih.free hclose .nil
  | array hopen _ ihs => exact (ihs fun _ => id).grouped (.square hopen)
  | object hopen _ ihs => exact (ihs fun _ => id).grouped (.curly hopen)
  | literal hvalue => exact .single (Token.isPlain_of_value hvalue)
  | keyword hkind | name hkind | shorthand hkind =>
      exact .single (Token.isPlain_of_identifier hkind)
  | nameKey hkind hcolon _ ih =>
      have hcolon := Token.isPlain_of_isPunctuation hcolon (by simp)
      exact .plain (Token.isPlain_of_identifier hkind) (.plain hcolon ih)
  | literalKey hkey hcolon _ ih =>
      have hcolon := Token.isPlain_of_isPunctuation hcolon (by simp)
      exact .plain (Token.isPlain_of_value hkey) (.plain hcolon ih)
  | computedKey hopen _ hclose hcolon _ ih ih' =>
      have hcolon := Token.isPlain_of_isPunctuation hcolon (by simp)
      exact .group (.square hopen) ih.free hclose (.plain hcolon ih')
  | close hclose => exact fun _ => ⟨[], _, rfl, .nil, hclose⟩
  | last _ hclose ih => exact fun hitem => ⟨_, _, rfl, (hitem _ ih).free, hclose⟩
  | more _ hcomma _ ih ihs =>
      intro hitem
      obtain ⟨inner, token, rfl, hinner, hclose⟩ := ihs hitem
      refine ⟨_, token, ?_, (hitem _ ih).free.append (.comma hcomma hinner), hclose⟩
      rw [List.append_assoc, List.cons_append]

/-- No comma of an expression is outside of its brackets. -/
theorem Derives.grouped {w : List Token} {e : Expr} {d : Nat} (h : Derives .part w e d) :
    Grouped false w :=
  h.groups

/-- In a list without brackets the commas between the expressions are the only ones outside all
brackets. -/
theorem DerivesList.grouped {w : List Token} {es : List Expr} {d : Nat}
    (h : DerivesList w es d) : Grouped true w := by
  induction h with
  | one h => exact h.grouped.free
  | more h hcomma _ ih => exact h.grouped.free.append (.comma hcomma ih)

end ReactiveTemplate
