import ReactiveTemplate.Proofs.Expr.Completeness
import ReactiveTemplate.Proofs.Expr.Soundness

/-!
# The grammar is what is read

The two directions together: a source is read exactly when it has a derivation within the limits of
nesting, and it is read as the trees of its derivation.
-/

namespace ReactiveTemplate

open ReactiveTemplate.Expr

/-- Tokens with a derivation that keeps to both bounds are read as the trees of that derivation.
This is completeness, up to the bounds. -/
theorem DerivesSource.ofTokens_eq_ok {tokens : List Token} {es : List Expr} {d : Nat}
    (h : DerivesSource tokens es d) (hd : d ≤ nestingLimit)
    (hes : ∀ e ∈ es, e.height ≤ nestingLimit) : Expr.ofTokens tokens = .ok es :=
  h.gives.1 ⟨hd, hes⟩

/-- A source that is read keeps to the limits of nesting. -/
theorem DerivesSource.bounds_of_ofTokens {tokens : List Token} {es es' : List Expr} {d : Nat}
    (h : DerivesSource tokens es d) (hok : Expr.ofTokens tokens = .ok es') :
    es' = es ∧ d ≤ nestingLimit ∧ ∀ e ∈ es, e.height ≤ nestingLimit := by
  by_cases hfits : d ≤ nestingLimit ∧ ∀ e ∈ es, e.height ≤ nestingLimit
  · rw [h.gives.1 hfits] at hok
    cases hok
    exact ⟨rfl, hfits⟩
  · obtain ⟨place, herror⟩ := h.gives.2 hfits
    rw [herror] at hok
    contradiction

/-- Tokens without a derivation are refused. Those that have one are read as its trees, as long as
no tree is too high and not too many parts are open at once; otherwise they are refused for being
nested too deeply. -/
theorem Expr.ofTokens_recognizes (tokens : List Token) :
    ((¬∃ es d, DerivesSource tokens es d) →
      ∃ refusal, Expr.ofTokens tokens = .error refusal) ∧
    ∀ es d, DerivesSource tokens es d →
      (d ≤ nestingLimit ∧ (∀ e ∈ es, e.height ≤ nestingLimit) → Expr.ofTokens tokens = .ok es) ∧
      (¬(d ≤ nestingLimit ∧ ∀ e ∈ es, e.height ≤ nestingLimit) →
        ∃ place, Expr.ofTokens tokens = .error ⟨.nestingTooDeep, place⟩) := by
  refine ⟨fun hnone => ?_, fun es d h => h.gives⟩
  cases hread : Expr.ofTokens tokens with
  | error refusal => exact ⟨refusal, rfl⟩
  | ok es =>
      obtain ⟨d, h⟩ := DerivesSource.of_ofTokens hread
      exact absurd ⟨es, d, h⟩ hnone

/-- A closing bracket on its own is no source, and `-a` is one that is read. -/
theorem Expr.ofTokens_recognizes_minus :
    (∃ refusal, Expr.ofTokens [⟨.punctuation, ")", ⟨0, 1⟩⟩] = .error refusal) ∧
    Expr.ofTokens [⟨.operator, "-", ⟨0, 1⟩⟩, ⟨.identifier, "a", ⟨1, 2⟩⟩] =
      .ok [.unary ⟨⟨0, 2⟩, none⟩ .minus true (.identifier ⟨⟨1, 2⟩, none⟩ "a")] := by
  constructor
  · apply (Expr.ofTokens_recognizes _).1
    rintro ⟨es, d, ⟨⟩ | ⟨hlist⟩⟩
    obtain ⟨token, rest, htokens, hopens⟩ := hlist.opens
    cases htokens
    exact hopens.1 ")" (by simp) rfl
  · have hname : Derives .postfixes [⟨.identifier, "a", ⟨1, 2⟩⟩]
        (.identifier ⟨⟨1, 2⟩, none⟩ "a") 0 := .plain (.name rfl rfl)
    have hminus : (⟨.operator, "-", ⟨0, 1⟩⟩ : Token).isOperator UnaryOp.minus.text := rfl
    have hunary := Derives.unary hminus (.nested (.unsigned hname))
    have hsource : DerivesSource [⟨.operator, "-", ⟨0, 1⟩⟩, ⟨.identifier, "a", ⟨1, 2⟩⟩]
        [.unary ⟨⟨0, 2⟩, none⟩ .minus true (.identifier ⟨⟨1, 2⟩, none⟩ "a")] 2 :=
      .list (.one (.nested (.unfiltered (.unconditional (.tighter (.tighter (.tighter
        (.tighter (.tighter (.tighter (.operand hunary)))))))))))
    refine ((Expr.ofTokens_recognizes _).2 _ _ hsource).1 ⟨by decide, ?_⟩
    intro e he
    rw [List.mem_singleton.mp he]
    decide

end ReactiveTemplate
