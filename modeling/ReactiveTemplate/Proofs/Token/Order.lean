import ReactiveTemplate.Proofs.Text.Extent
import ReactiveTemplate.Proofs.Token.Lexing

/-!
# The order of tokens

The tokens of a source stand one behind the other. None of them is empty, and no two of them share
a byte.
-/

namespace ReactiveTemplate

namespace Span

/-- Two spans share no byte. -/
def Disjoint (a b : Span) : Prop :=
  a.stop ≤ b.start ∨ b.stop ≤ a.start

theorem Disjoint.symm {a b : Span} (h : a.Disjoint b) : b.Disjoint a :=
  Or.symm h

/-- Spans of which none is empty stand one behind the other between two bytes. -/
def InOrder (start stop : Nat) : List Span → Prop
  | [] => start ≤ stop
  | span :: spans => start ≤ span.start ∧ span.start < span.stop ∧ InOrder span.stop stop spans

namespace InOrder

variable {start middle stop : Nat} {spans spans' : List Span}

theorem le (h : InOrder start stop spans) : start ≤ stop := by
  induction spans generalizing start with
  | nil => exact h
  | cons span spans ih =>
      have htail := ih h.2.2
      have hhead := h.2.1
      have hstart := h.1
      omega

/-- Spans in order between two bounds are in order between bounds further apart, as is needed where
parts lie inside a whole. -/
theorem widen {start' stop' : Nat} (h : InOrder start stop spans) (hstart : start' ≤ start)
    (hstop : stop ≤ stop') : InOrder start' stop' spans := by
  induction spans generalizing start start' with
  | nil => exact Nat.le_trans hstart (Nat.le_trans h hstop)
  | cons span spans ih => exact ⟨Nat.le_trans hstart h.1, h.2.1, ih h.2.2 (Nat.le_refl _)⟩

theorem tail {span : Span} (h : InOrder start stop (span :: spans)) : InOrder start stop spans :=
  h.2.2.widen (Nat.le_trans h.1 (Nat.le_of_lt h.2.1)) (Nat.le_refl _)

/-- Spans in order up to some place, and others from that place on, are in order one after the
other. -/
theorem append (h : InOrder start middle spans) (h' : InOrder middle stop spans') :
    InOrder start stop (spans ++ spans') := by
  induction spans generalizing start with
  | nil => exact h'.widen h (Nat.le_refl _)
  | cons span spans ih => exact ⟨h.1, h.2.1, ih h.2.2⟩

/-- Between two parts of a list there is a byte where the first ends and the second may start. -/
theorem split (h : InOrder start stop (spans ++ spans')) :
    ∃ middle, InOrder start middle spans ∧ InOrder middle stop spans' := by
  induction spans generalizing start with
  | nil => exact ⟨start, Nat.le_refl _, h⟩
  | cons span spans ih =>
      obtain ⟨middle, hspans, hspans'⟩ := ih h.2.2
      exact ⟨middle, ⟨h.1, h.2.1, hspans⟩, hspans'⟩

theorem bounds_of_mem {span : Span} (h : InOrder start stop spans) (hspan : span ∈ spans) :
    start ≤ span.start ∧ span.start < span.stop ∧ span.stop ≤ stop := by
  induction spans generalizing start with
  | nil => contradiction
  | cons first spans ih =>
      rcases List.mem_cons.mp hspan with rfl | hspan
      · exact ⟨h.1, h.2.1, h.2.2.le⟩
      · have hbounds := ih h.2.2 hspan
        have hfirst := h.2.1
        have hstart := h.1
        omega

/-- Any two spans of a row are in order, not only neighbours: the earlier one ends where the later
one begins, or before. -/
theorem pairwise (h : InOrder start stop spans) :
    spans.Pairwise fun a b => a.stop ≤ b.start := by
  induction spans generalizing start with
  | nil => exact .nil
  | cons span spans ih => exact .cons (fun b hb => (h.2.2.bounds_of_mem hb).1) (ih h.2.2)

/-- Spans at two places of the list share no byte. -/
theorem disjoint_of_ne {a b : Span} {i j : Nat} (h : InOrder start stop spans)
    (ha : spans[i]? = some a) (hb : spans[j]? = some b) (hne : i ≠ j) : a.Disjoint b := by
  obtain ⟨hi, rfl⟩ := List.getElem?_eq_some_iff.mp ha
  obtain ⟨hj, rfl⟩ := List.getElem?_eq_some_iff.mp hb
  rcases Nat.lt_or_gt_of_ne hne with hlt | hlt
  · exact .inl (List.pairwise_iff_getElem.mp h.pairwise i j hi hj hlt)
  · exact .inr (List.pairwise_iff_getElem.mp h.pairwise j i hj hi hlt)

end InOrder

end Span

/-! ## Tokens of a source -/

theorem Tokenizes.inOrder {before cs : List Char} {tokens : List Token}
    (h : Tokenizes before cs tokens) :
    Span.InOrder (byteWidth before) (byteWidth (before ++ cs)) (tokens.map Token.span) := by
  induction h with
  | nil => simp [Span.InOrder]
  | @blank before cs c tokens hc h ih =>
      rw [List.append_assoc, List.singleton_append] at ih
      refine ih.widen ?_ (Nat.le_refl _)
      simp
  | @lexeme before cs rest c lexeme tokens hc hread h ih =>
      have hpos := byteWidth_pos (readLexeme_ne_nil hread)
      rw [List.append_assoc, append_readLexeme hread] at ih
      refine ⟨Nat.le_refl _, ?_, ?_⟩
      · simpa [Lexeme.token] using hpos
      · simpa [Lexeme.token] using ih

/-- The tokens of a source are in order, none of them is empty, and all lie in the source. -/
theorem inOrder_of_tokenize {source : String} {tokens : List Token}
    (h : tokenize source = .ok tokens) :
    Span.InOrder 0 (byteWidth source.toList) (tokens.map Token.span) :=
  (tokenize_eq_ok_iff.mp h).inOrder

end ReactiveTemplate
