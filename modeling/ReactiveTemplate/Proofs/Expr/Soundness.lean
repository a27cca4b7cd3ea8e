import ReactiveTemplate.Proofs.Expr.ParserLaws
import ReactiveTemplate.Proofs.Expr.Reader

/-!
# What is read has a derivation

Every tree that a reader gives is the tree of a derivation, of exactly the tokens that the reader
took.
-/

namespace ReactiveTemplate

open ReactiveTemplate.Expr ReactiveTemplate.Parser

/-- Whatever `p` takes is covered by the form `s`, with the value that `p` gives. -/
def Symbol.Sound (s : Symbol) (p : Parser s.Value) : Prop :=
  ∀ ⦃tokens v rest⦄, p.run tokens = .ok (v, rest) → ∃ w d, tokens = w ++ rest ∧ Derives s w v d

/-- The levels that nested parts start from are sound. -/
structure Levels.Sound (inner : Levels Parser) : Prop where
  filters : Symbol.part.Sound inner.filters
  conditional : (Symbol.nested .conditional).Sound inner.conditional
  unary : (Symbol.nested .unary).Sound inner.unary

namespace Expr

/-- The bound on heights refuses trees and does not change them: a tree that passes is the one that
was built. -/
theorem eq_of_bounded {e e' : Expr} (h : e.bounded = .ok e') : e = e' := by
  rw [bounded] at h
  split at h
  · contradiction
  · cases h
    rfl

theorem name_run_eq_ok {tokens rest : List Token} {token : Token}
    (h : (Levels.name : Parser Token).run tokens = .ok (token, rest)) :
    tokens = token :: rest ∧ token.kind = .identifier := by
  rw [Levels.name, combinators_first, first_run_eq_ok] at h
  rcases h with ⟨token', rest', rfl, ⟨a, hdecide, hr⟩ | ⟨p, hdecide, -⟩⟩
  · split at hdecide
    · cases hdecide
      cases hr
      exact ⟨rfl, by assumption⟩
    · contradiction
  · split at hdecide <;> contradiction

end Expr

namespace Symbol.Sound

/-! ## Lists and repetitions -/

variable {s : Symbol} {p : Parser s.Value} {close : String}

/-- The reader of lists keeps what it has read in front, newest first. What it takes from there on
is a list of the items that it adds. -/
theorem itemsFrom (hp : s.Sound p) {done vs : List s.Value} {stop : Span}
    {tokens rest : List Token} (h : Parser.itemsFrom p close done tokens = .ok ((vs, stop), rest)) :
    ∃ w d vs', tokens = w ++ rest ∧ vs = done.reverse ++ vs' ∧
      Derives (.items s close) w (vs', stop) d := by
  fun_induction Parser.itemsFrom p close done tokens with
  | case1 done tokens span rest' htake =>
      cases h
      obtain ⟨token, rfl, hclose, rfl⟩ := take?_eq_some.mp htake
      exact ⟨[token], 0, [], rfl, by simp, .close hclose⟩
  | case2 => contradiction
  | case3 done tokens htake v rest' hrun span rest'' hcomma ih =>
      obtain ⟨w, d, rfl, hv⟩ := hp hrun
      obtain ⟨comma, rfl, hpunct, rfl⟩ := take?_eq_some.mp hcomma
      obtain ⟨ws, d', vs', rfl, rfl, hvs⟩ := ih h
      exact ⟨w ++ comma :: ws, max d d', v :: vs', by simp, by simp, .more hv hpunct hvs⟩
  | case4 done tokens htake v rest' hrun hcomma span rest'' hclose =>
      cases h
      obtain ⟨w, d, rfl, hv⟩ := hp hrun
      obtain ⟨token, rfl, hpunct, rfl⟩ := expect_run_eq_ok.mp hclose
      exact ⟨w ++ [token], d, [v], by simp, by simp, .last hv hpunct⟩
  | case5 => contradiction

/-- If a reader of items takes forms of one kind, a list of them in brackets is the form of such
lists. -/
theorem items (hp : s.Sound p) : (Symbol.items s close).Sound (Parser.items p close) := by
  rintro tokens ⟨vs, stop⟩ rest h
  obtain ⟨w, d, vs', htokens, rfl, hvs⟩ := hp.itemsFrom h
  exact ⟨w, d, htokens, hvs⟩

/-- A step makes a longer form of the same kind out of the form in front of it. -/
def Extends (s : Symbol) (step : s.Value → Token → Option (Parser s.Value)) : Prop :=
  ∀ ⦃v token q w d⦄, step v token = some q → Derives s w v d →
    ∀ ⦃tokens v' rest⦄, q.run tokens = .ok (v', rest) →
      ∃ w' d', tokens = w' ++ rest ∧ Derives s (w ++ token :: w') v' d'

/-- The run lemma of repetitions: each step puts more tokens behind a form of the kind, so that any
number of steps leaves one. -/
theorem repeatFrom {step : s.Value → Token → Option (Parser s.Value)} (hstep : Extends s step)
    {v v' : s.Value} {w tokens rest : List Token} {d : Nat} (hv : Derives s w v d)
    (h : Parser.repeatFrom step v tokens = .ok (v', rest)) :
    ∃ w' d', tokens = w' ++ rest ∧ Derives s (w ++ w') v' d' := by
  fun_induction Parser.repeatFrom step v tokens generalizing w d with
  | case1 v =>
      cases h
      exact ⟨[], d, rfl, by simpa using hv⟩
  | case2 v token rest' hnone =>
      cases h
      exact ⟨[], d, rfl, by simpa using hv⟩
  | case3 v token rest' q hq v'' rest'' hrun ih =>
      obtain ⟨w', d', rfl, hv''⟩ := hstep hq hv hrun
      obtain ⟨w'', d'', rfl, hv'⟩ := ih hv'' h
      exact ⟨token :: (w' ++ w''), d'', by simp, by simpa using hv'⟩
  | case4 => contradiction

/-- The operand of a chain counts as a chain of its own, which is then extended step by step. -/
theorem chain {step : s.Value → Token → Option (Parser s.Value)} (hp : s.Sound p)
    (hstep : Extends s step) : s.Sound (p.chain step) := by
  intro tokens v rest h
  obtain ⟨v', rest', hrun, hrest⟩ := chain_run_eq_ok.mp h
  obtain ⟨w, d, rfl, hv'⟩ := hp hrun
  obtain ⟨w', d', rfl, hv⟩ := repeatFrom hstep hv' hrest
  exact ⟨w ++ w', d', by simp, hv⟩

end Symbol.Sound

namespace Levels.Sound

variable {inner : Levels Parser} (h : inner.Sound)
include h

/-! ## Primary expressions -/

/-- The colon behind a key and the value. The value is all that is taken from the tokens besides, so
that the rules for keys need not say more. -/
theorem keyValue {key : Expr} {computed : Bool} {p : Property} {tokens rest : List Token}
    (hrun : (inner.keyValue key computed).run tokens = .ok (p, rest)) :
    ∃ colon w value d, tokens = colon :: (w ++ rest) ∧ colon.isPunctuation ":" ∧
      Derives .part w value d ∧ p = ⟨key, value, computed, false⟩ := by
  obtain ⟨span, rest', hcolon, hvalue⟩ := bind_run_eq_ok.mp hrun
  obtain ⟨colon, rfl, hpunct, -⟩ := expect_run_eq_ok.mp hcolon
  obtain ⟨value, hread, rfl⟩ := map_run_eq_ok.mp hvalue
  obtain ⟨w, d, rfl, hv⟩ := h.filters hread
  exact ⟨colon, w, value, d, rfl, hpunct, hv, rfl⟩

/-- Each way to write a key is a rule for properties. The cases follow the kind of the first token,
as the reader does. -/
theorem key : Symbol.property.Sound (Levels.key inner) := by
  intro tokens p rest hrun
  rw [Levels.key, combinators_first, first_run_eq_ok] at hrun
  obtain ⟨token, rest', rfl, hrun⟩ := hrun
  -- The kinds in order: names, numbers, strings, punctuation and operators.
  rcases hkind : token.kind with _ | x | x | _ | _ <;> simp only [hkind] at hrun
  · rcases hname : keyword? token.text with _ | value
    · simp [hname] at hrun
      obtain ⟨rfl, rfl⟩ := hrun
      exact ⟨[token], 0, rfl, .shorthand hkind hname⟩
    · simp [hname] at hrun
      obtain ⟨colon, w, value, d, rfl, hcolon, hv, rfl⟩ := h.keyValue hrun
      exact ⟨token :: colon :: w, d, rfl, .nameKey hkind hcolon hv⟩
  · simp at hrun
    obtain ⟨colon, w, value, d, rfl, hcolon, hv, rfl⟩ := h.keyValue hrun
    exact ⟨token :: colon :: w, d, rfl, .literalKey (by rw [hkind]; rfl) hcolon hv⟩
  · simp at hrun
    obtain ⟨colon, w, value, d, rfl, hcolon, hv, rfl⟩ := h.keyValue hrun
    exact ⟨token :: colon :: w, d, rfl, .literalKey (by rw [hkind]; rfl) hcolon hv⟩
  · split at hrun
    · next hopen =>
        simp at hrun
        obtain ⟨key, rest₁, hread, hrest⟩ := bind_run_eq_ok.mp hrun
        obtain ⟨w, d, rfl, hkey⟩ := h.filters hread
        obtain ⟨span, rest₂, hclose, hplain⟩ := bind_run_eq_ok.mp hrest
        obtain ⟨close, rfl, hpunct, -⟩ := expect_run_eq_ok.mp hclose
        obtain ⟨colon, w', value, d', rfl, hcolon, hv, rfl⟩ := h.keyValue hplain
        exact ⟨token :: (w ++ close :: colon :: w'), max d d', by simp,
          .computedKey hopen hkey hpunct hcolon hv⟩
    · simp at hrun
  · simp [Token.isPunctuation, hkind] at hrun

/-- A property is a key with its value, or a shorthand that the colon behind it makes a key. The
shorthand is taken back in that case. -/
theorem property : Symbol.property.Sound (Levels.property inner) := by
  intro tokens p rest hrun
  obtain ⟨p', rest', hkey, hrest⟩ := exists_of_follow_run hrun
  obtain ⟨w, d, rfl, hp⟩ := h.key hkey
  rcases hrest with hr | ⟨colon, rest'', q, rfl, hstep, hread⟩
  · cases hr
    exact ⟨w, d, rfl, hp⟩
  · split at hstep
    · next hshorthand =>
        cases hstep
        rw [Bool.and_eq_true] at hshorthand
        obtain ⟨value, hvalue, rfl⟩ := map_run_eq_ok.mp hread
        obtain ⟨w', d', rfl, hv⟩ := h.filters hvalue
        -- Only the rule for shorthands gives one, and it covers a single name.
        cases hp with
        | @shorthand token hkind hname =>
            exact ⟨token :: colon :: w', d', by simp, .nameKey hkind hshorthand.2 hv⟩
        | nameKey | literalKey | computedKey => simp at hshorthand
    · contradiction

/-- What starts with a bracket is a group, an array or an object, and any other primary expression
is a single token. -/
theorem primary : Symbol.primary.Sound (Levels.primary inner) := by
  intro tokens e rest hrun
  rw [Levels.primary, combinators_first, first_run_eq_ok] at hrun
  obtain ⟨token, rest', rfl, hrun⟩ := hrun
  rcases hkind : token.kind with _ | x | x | _ | _ <;> simp only [hkind] at hrun
  · rcases hname : keyword? token.text with _ | value
    · simp [hname] at hrun
      obtain ⟨rfl, rfl⟩ := hrun
      exact ⟨[token], 0, rfl, .name hkind hname⟩
    · simp [hname] at hrun
      obtain ⟨rfl, rfl⟩ := hrun
      exact ⟨[token], 0, rfl, .keyword hkind hname⟩
  · simp at hrun
    obtain ⟨rfl, rfl⟩ := hrun
    exact ⟨[token], 0, rfl, .literal (by rw [hkind]; rfl)⟩
  · simp at hrun
    obtain ⟨rfl, rfl⟩ := hrun
    exact ⟨[token], 0, rfl, .literal (by rw [hkind]; rfl)⟩
  · split at hrun
    · next hopen =>
        simp at hrun
        obtain ⟨e, rest'', hread, hrest⟩ := bind_run_eq_ok.mp hrun
        obtain ⟨w, d, rfl, he⟩ := h.filters hread
        obtain ⟨span, hclose, rfl⟩ := map_run_eq_ok.mp hrest
        obtain ⟨close, rfl, hpunct, -⟩ := expect_run_eq_ok.mp hclose
        exact ⟨token :: (w ++ [close]), d, by simp, .group hopen he hpunct⟩
    · split at hrun
      · next hopen =>
          simp at hrun
          obtain ⟨⟨es, stop⟩, hread, hbounded⟩ := build_run_eq_ok.mp hrun
          obtain ⟨ws, d, rfl, hes⟩ := h.filters.items hread
          cases eq_of_bounded hbounded
          exact ⟨token :: ws, d, rfl, .array hopen hes⟩
      · split at hrun
        · next hopen =>
            simp at hrun
            obtain ⟨⟨ps, stop⟩, hread, hbounded⟩ := build_run_eq_ok.mp hrun
            obtain ⟨ws, d, rfl, hps⟩ := h.property.items hread
            cases eq_of_bounded hbounded
            exact ⟨token :: ws, d, rfl, .object hopen hps⟩
        · simp at hrun
  · simp [Token.isPunctuation, hkind] at hrun

/-! ## Operators -/

/-- A call, an access by brackets and an access by a point each extend a form that may have such
suffixes in front already. -/
theorem suffix : Symbol.Sound.Extends .postfixes (Levels.suffix inner) := by
  intro e token q w d hq he tokens e' rest hrun
  rw [Levels.suffix] at hq
  split at hq
  · next hopen =>
      cases hq
      obtain ⟨⟨es, stop⟩, hread, hbounded⟩ := build_run_eq_ok.mp hrun
      obtain ⟨ws, d', rfl, hes⟩ := h.filters.items hread
      cases eq_of_bounded hbounded
      exact ⟨ws, max d d', rfl, .call he hopen hes⟩
  · split at hq
    · next hopen =>
        cases hq
        obtain ⟨index, rest', hread, hrest⟩ := bind_run_eq_ok.mp hrun
        obtain ⟨w', d', rfl, hindex⟩ := h.filters hread
        obtain ⟨span, hclose, hbounded⟩ := build_run_eq_ok.mp hrest
        obtain ⟨close, rfl, hpunct, rfl⟩ := expect_run_eq_ok.mp hclose
        cases eq_of_bounded hbounded
        exact ⟨w' ++ [close], max d d', by simp, .element he hopen hindex hpunct⟩
    · split at hq
      · next hpoint =>
          cases hq
          obtain ⟨name, hread, hbounded⟩ := build_run_eq_ok.mp hrun
          obtain ⟨rfl, hname⟩ := name_run_eq_ok hread
          cases eq_of_bounded hbounded
          exact ⟨[name], d, rfl, .member he hpoint hname⟩
      · contradiction

/-- A primary expression and all the calls and accesses behind it form one tree, which has the
earlier ones inside. -/
theorem postfixes : Symbol.postfixes.Sound (Levels.postfixes inner) := by
  refine Symbol.Sound.chain ?_ h.suffix
  intro tokens e rest hrun
  obtain ⟨w, d, rfl, he⟩ := h.primary hrun
  exact ⟨w, d, rfl, .plain he⟩

/-- A form with a unary operator is the operator and an operand one level deeper; a form without one
is a chain of suffixes. -/
theorem unaries : Symbol.unary.Sound (Levels.unaries inner) := by
  intro tokens e rest hrun
  rcases exists_of_orAfter_run hrun with hread | ⟨token, rest', q, rfl, hq, hread⟩
  · obtain ⟨w, d, rfl, he⟩ := h.postfixes hread
    exact ⟨w, d, rfl, .unsigned he⟩
  · obtain ⟨operator, hoperator, rfl⟩ := Option.map_eq_some_iff.mp hq
    obtain ⟨argument, hoperand, hbounded⟩ := build_run_eq_ok.mp hread
    obtain ⟨w, d, rfl, hargument⟩ := h.unary hoperand
    cases eq_of_bounded hbounded
    exact ⟨token :: w, d, rfl, .unary (unaryOp?_eq_some.mp hoperator) hargument⟩

omit h in
/-- Operands with operators of one level between them form the next looser level. -/
theorem binaries {level : Nat} {operators : List BinaryOp} {operand : Parser Expr}
    (hlevel : BinaryOp.levels[level]? = some operators)
    (hoperand : (Symbol.operation (level + 1)).Sound operand) :
    (Symbol.operation level).Sound (Levels.binaries operators operand) := by
  refine Symbol.Sound.chain ?_ ?_
  -- The first operand is one of this level, too; each step puts an operator behind what there is.
  · intro tokens e rest hrun
    obtain ⟨w, d, rfl, he⟩ := hoperand hrun
    exact ⟨w, d, rfl, .tighter he⟩
  · intro left token q w d hq hleft tokens e rest hrun
    obtain ⟨operator, hoperator, rfl⟩ := Option.map_eq_some_iff.mp hq
    obtain ⟨rfl, htoken⟩ := (binaryOp?_eq_some hlevel).mp hoperator
    obtain ⟨right, hread, hbounded⟩ := build_run_eq_ok.mp hrun
    obtain ⟨w', d', rfl, hright⟩ := hoperand hread
    cases eq_of_bounded hbounded
    exact ⟨w', max d d', rfl, .binary hleft htoken hright⟩

/-- All six levels of binary operators are sound, from the tightest outwards, as soon as forms with
unary operators are. -/
theorem operations : (Symbol.operation 0).Sound (Levels.operations inner) := by
  have hoperand : (Symbol.operation 6).Sound (Levels.unaries inner) := by
    intro tokens e rest hrun
    obtain ⟨w, d, rfl, he⟩ := h.unaries hrun
    exact ⟨w, d, rfl, .operand he⟩
  -- There are six levels of operators, with the loosest outside.
  exact binaries rfl (binaries rfl (binaries rfl (binaries rfl (binaries rfl (binaries rfl
    hoperand)))))

/-! ## Conditionals and filters -/

theorem conditionals : Symbol.conditional.Sound (Levels.conditionals inner) := by
  intro tokens e rest hrun
  obtain ⟨test, rest₁, htest, hrest⟩ := exists_of_follow_run hrun
  obtain ⟨w₁, d₁, rfl, h₁⟩ := h.operations htest
  rcases hrest with hr | ⟨mark, rest', q, rfl, hstep, hread⟩
  · cases hr
    exact ⟨w₁, d₁, rfl, .unconditional h₁⟩
  · split at hstep
    · next hmark =>
        cases hstep
        obtain ⟨consequent, rest₂, hconsequent, hrest₂⟩ := bind_run_eq_ok.mp hread
        obtain ⟨w₂, d₂, rfl, h₂⟩ := h.conditional hconsequent
        obtain ⟨span, rest₃, hcolon, hrest₃⟩ := bind_run_eq_ok.mp hrest₂
        obtain ⟨colon, rfl, hpunct, -⟩ := expect_run_eq_ok.mp hcolon
        obtain ⟨alternate, halternate, hbounded⟩ := build_run_eq_ok.mp hrest₃
        obtain ⟨w₃, d₃, rfl, h₃⟩ := h.conditional halternate
        cases eq_of_bounded hbounded
        exact ⟨w₁ ++ mark :: (w₂ ++ colon :: w₃), max d₁ (max d₂ d₃), by simp,
          .choice h₁ hmark h₂ hpunct h₃⟩
    · contradiction

/-- A filter behind its bar is a name alone, or a name and a list of further arguments. -/
theorem filterCall {call : FilterCall} {tokens rest : List Token}
    (hrun : (Levels.filterCall inner).run tokens = .ok (call, rest)) :
    ∃ name, name.kind = .identifier ∧
      ((tokens = name :: rest ∧ call = ⟨name, [], name.span⟩) ∨
        ∃ opener ws es stop d, tokens = name :: opener :: (ws ++ rest) ∧
          opener.isPunctuation "(" ∧ Derives (.items .part ")") ws (es, stop) d ∧
          call = ⟨name, es, stop⟩) := by
  obtain ⟨call', rest', hfirst, hrest⟩ := exists_of_follow_run hrun
  obtain ⟨name, hname, rfl⟩ := map_run_eq_ok.mp hfirst
  obtain ⟨rfl, hkind⟩ := name_run_eq_ok hname
  refine ⟨name, hkind, ?_⟩
  rcases hrest with hr | ⟨opener, rest'', q, rfl, hstep, hread⟩
  · cases hr
    exact .inl ⟨rfl, rfl⟩
  · split at hstep
    · next hopen =>
        cases hstep
        obtain ⟨⟨es, stop⟩, harguments, rfl⟩ := map_run_eq_ok.mp hread
        obtain ⟨ws, d, rfl, hes⟩ := h.filters.items harguments
        exact .inr ⟨opener, ws, es, stop, d, rfl, hopen, hes, rfl⟩
    · contradiction

/-- A filter behind its bar extends an expression with filters. The expression in front becomes the
first argument. -/
theorem filter : Symbol.Sound.Extends .filters (Levels.filter inner) := by
  intro input bar q w d hq hinput tokens e rest hrun
  rw [Levels.filter] at hq
  split at hq
  · next hbar =>
      cases hq
      obtain ⟨call, hread, hbounded⟩ := build_run_eq_ok.mp hrun
      cases eq_of_bounded hbounded
      obtain ⟨name, hkind, ⟨rfl, rfl⟩ | ⟨opener, ws, es, stop, d', rfl, hopen, hes, rfl⟩⟩ :=
        h.filterCall hread
      · exact ⟨[name], d, rfl, .filter hinput hbar hkind⟩
      · exact ⟨name :: opener :: ws, max d d', rfl, .filterCall hinput hbar hkind hopen hes⟩
  · contradiction

/-- An expression with any number of filters is one form, in which each filter has the ones in front
of it as its input. -/
theorem filterChain : Symbol.filters.Sound (Levels.filterChain inner) := by
  refine Symbol.Sound.chain ?_ h.filter
  intro tokens e rest hrun
  obtain ⟨w, d, rfl, he⟩ := h.conditionals hrun
  exact ⟨w, d, rfl, .unfiltered he⟩

end Levels.Sound

/-! ## All levels -/

/-- A form that is read one level deeper has a derivation that is one level deeper, of the same
tokens and with the same value. -/
theorem Symbol.Sound.nested {s : Symbol} {p : Parser s.Value} (hp : s.Sound p) :
    (Symbol.nested s).Sound p := by
  intro tokens v rest hrun
  obtain ⟨w, d, rfl, hv⟩ := hp hrun
  exact ⟨w, d + 1, rfl, .nested hv⟩

theorem Symbol.Sound.refuse (s : Symbol) (fault : Fault) :
    s.Sound (Parser.refuse fault) :=
  fun _ _ _ hrun => absurd hrun refuse_run_ne_ok

/-- At every depth the readers of the grammar are sound. The induction is on the levels that are
left; with none left nothing is read. -/
theorem Levels.sound_ofDepth (depth : Nat) : (Levels.ofDepth depth).Sound := by
  induction depth with
  | zero => exact ⟨.refuse _ _, .refuse _ _, .refuse _ _⟩
  | succ depth ih => exact ⟨ih.filterChain.nested, ih.conditionals.nested, ih.unaries.nested⟩

/-- A list without brackets consists of expressions with commas between them. -/
theorem DerivesList.of_separatedFrom {p : Parser Expr} (hp : Symbol.part.Sound p)
    {done es : List Expr} {tokens : List Token} (h : separatedFrom p done tokens = .ok es) :
    ∃ es' d, es = done.reverse ++ es' ∧ DerivesList tokens es' d := by
  fun_induction separatedFrom p done tokens with
  | case1 => contradiction
  | case2 done tokens e hrun =>
      cases h
      obtain ⟨w, d, rfl, he⟩ := hp hrun
      exact ⟨[e], d, by simp, by simpa using DerivesList.one he⟩
  | case3 done tokens e token rest hrun hcomma ih =>
      obtain ⟨w, d, rfl, he⟩ := hp hrun
      obtain ⟨es', d', rfl, hes⟩ := ih h
      exact ⟨e :: es', max d d', by simp, .more he hcomma hes⟩
  | case4 => contradiction

/-- Whatever a list of tokens is read as, there is a derivation of it. -/
theorem DerivesSource.of_ofTokens {tokens : List Token} {es : List Expr}
    (h : Expr.ofTokens tokens = .ok es) : ∃ d, DerivesSource tokens es d := by
  cases tokens with
  | nil =>
      cases h
      exact ⟨0, .empty⟩
  | cons token tokens =>
      have hsound := (Levels.sound_ofDepth nestingLimit).filters
      obtain ⟨es', d, rfl, hes⟩ := DerivesList.of_separatedFrom hsound h
      exact ⟨d, .list hes⟩

end ReactiveTemplate
