import Mathlib.Data.List.MinMax
import Mathlib.Order.Nat
import ReactiveTemplate.Proofs.Expr.Height

/-!
# Nesting of printed text

Printing puts operands into parentheses, each of which is a nested part of its own. How many parts
are open at once in the printed text of a tree can be told from the tree. There are less than two
for each level of it: parentheses, and the part that stands in them or behind a prefix operator.
-/

namespace ReactiveTemplate.Expr

/-- How deep an operand is nested, parentheses included, whose text alone has the given depth. -/
def operandDepth (e : Expr) (depth : Nat) : Nat :=
  if e.isCompound then depth + 1 else depth

/-- How deep is nested what is called or whose member is taken. -/
def operatedDepth (e : Expr) (depth : Nat) : Nat :=
  if e.isNumber then depth + 1 else operandDepth e depth

/-- How deep a property is nested with the given depths of its key and value. -/
def propertyDepth (computed shorthand : Bool) (key value : Nat) : Nat :=
  if shorthand then 0 else if computed then max (key + 1) (value + 1) else value + 1

mutual

/-- How many nested parts are open at once in the printed text of a tree. -/
def printedDepth : Expr → Nat
  | identifier .. | literal .. => 0
  | member _ base property computed =>
      max (operatedDepth base base.printedDepth) (if computed then property.printedDepth + 1 else 0)
  | call _ callee arguments filter =>
      match filter, arguments with
      | true, input :: rest => max input.printedDepth (deepest rest)
      | _, arguments => max (operatedDepth callee callee.printedDepth) (deepest arguments)
  | conditional _ test consequent alternate =>
      max (operandDepth test test.printedDepth)
        (max (operandDepth consequent consequent.printedDepth + 1)
          (operandDepth alternate alternate.printedDepth + 1))
  | object _ properties => deepestProperty properties
  | array _ elements => deepest elements
  | unary _ _ _ argument => operandDepth argument argument.printedDepth + 1
  | binary _ _ left right =>
      max (operandDepth left left.printedDepth) (operandDepth right right.printedDepth)

/-- How many parts are open at once in a list, each expression of which is such a part. -/
def deepest : List Expr → Nat
  | [] => 0
  | e :: es => max (e.printedDepth + 1) (deepest es)

/-- How many parts are open at once in a list of properties. -/
def deepestProperty : List Property → Nat
  | [] => 0
  | ⟨key, value, computed, shorthand⟩ :: ps =>
      max (propertyDepth computed shorthand key.printedDepth value.printedDepth)
        (deepestProperty ps)

end

/-- How many parts are open at once in the printed text of a property. -/
def printedPropertyDepth (p : Property) : Nat :=
  propertyDepth p.computed p.shorthand p.key.printedDepth p.value.printedDepth

/-- The depth of a printed list is the greatest of its expressions', each of which is one level
down. -/
theorem deepest_eq (es : List Expr) :
    deepest es = (es.map fun e => e.printedDepth + 1).foldr max 0 := by
  induction es with
  | nil => rfl
  | cons e es ih => rw [deepest, ih, List.map_cons, List.foldr_cons]

theorem deepestProperty_eq (ps : List Property) :
    deepestProperty ps = (ps.map printedPropertyDepth).foldr max 0 := by
  induction ps with
  | nil => rfl
  | cons p ps ih =>
      obtain ⟨key, value, computed, shorthand⟩ := p
      rw [deepestProperty, ih, List.map_cons, List.foldr_cons]
      rfl

theorem deepest_le {es : List Expr} {bound : Nat} (h : ∀ e ∈ es, e.printedDepth + 1 ≤ bound) :
    deepest es ≤ bound := by
  rw [deepest_eq]
  exact List.max_le_of_forall_le _ bound (List.forall_mem_map.mpr h)

theorem deepestProperty_le {ps : List Property} {bound : Nat}
    (h : ∀ p ∈ ps, printedPropertyDepth p ≤ bound) : deepestProperty ps ≤ bound := by
  rw [deepestProperty_eq]
  exact List.max_le_of_forall_le _ bound (List.forall_mem_map.mpr h)

/-- Parentheses around an operand cost at most one level, and they are printed only around compound
expressions. -/
theorem operandDepth_le (e : Expr) (depth : Nat) : operandDepth e depth ≤ depth + 1 := by
  unfold operandDepth
  split <;> omega

theorem operatedDepth_le (e : Expr) (depth : Nat) : operatedDepth e depth ≤ depth + 1 := by
  unfold operatedDepth
  split
  · exact Nat.le_refl _
  · exact operandDepth_le e depth

/-- A tree opens two parts more than its evaluated parts at most. -/
theorem printedDepth_le_of_children {e : Expr} {bound : Nat}
    (h : ∀ part ∈ e.children, part.printedDepth + 2 ≤ bound) : e.printedDepth ≤ bound := by
  cases e with
  | identifier | literal => exact Nat.zero_le bound
  | member note base property computed =>
      have hbase := operatedDepth_le base base.printedDepth
      cases computed
      all_goals
        simp only [children, Bool.false_eq_true, if_true, if_false, List.mem_cons,
          List.not_mem_nil, or_false, forall_eq_or_imp, forall_eq] at h
        simp only [printedDepth, Bool.false_eq_true, if_true, if_false]
        omega
  | call note callee arguments filter =>
      have hcallee := operatedDepth_le callee callee.printedDepth
      cases filter <;> cases arguments
      all_goals
        simp only [children, List.forall_mem_cons] at h
        simp only [printedDepth, Nat.max_le]
      · exact ⟨by omega, Nat.zero_le bound⟩
      · refine ⟨by omega, deepest_le (List.forall_mem_cons.mpr ⟨by omega, fun e he => ?_⟩)⟩
        have hpart := h.2.2 e he
        omega
      · exact ⟨by omega, Nat.zero_le bound⟩
      · refine ⟨by omega, deepest_le fun e he => ?_⟩
        have hpart := h.2.2 e he
        omega
  | conditional note test consequent alternate =>
      have htest := operandDepth_le test test.printedDepth
      have hconsequent := operandDepth_le consequent consequent.printedDepth
      have halternate := operandDepth_le alternate alternate.printedDepth
      simp only [children, List.forall_mem_cons] at h
      simp only [printedDepth]
      omega
  | object note properties =>
      refine deepestProperty_le fun p hp => ?_
      have hvalue := h p.value (value_mem_children hp)
      unfold printedPropertyDepth propertyDepth
      split
      · exact Nat.zero_le bound
      · split
        · next hcomputed =>
            have hkey := h p.key (key_mem_children hp hcomputed)
            omega
        · omega
  | array note elements =>
      refine deepest_le fun e he => ?_
      have hpart := h e he
      omega
  | unary note operator before argument =>
      have hargument := operandDepth_le argument argument.printedDepth
      simp only [children, List.forall_mem_cons] at h
      simp only [printedDepth]
      omega
  | binary note operator left right =>
      have hleft := operandDepth_le left left.printedDepth
      have hright := operandDepth_le right right.printedDepth
      simp only [children, List.forall_mem_cons] at h
      simp only [printedDepth]
      omega

/-- Each level of a tree costs at most two levels of nesting in its text: one for the part itself
and one for parentheses around it. -/
theorem printedDepth_add_two_le {e : Expr} {bound : Nat} (h : e.height ≤ bound) :
    e.printedDepth + 2 ≤ 2 * bound := by
  induction bound generalizing e with
  | zero =>
      have hpos := e.height_pos
      omega
  | succ bound ih =>
      have hparts := printedDepth_le_of_children fun part hpart =>
        ih (height_le_succ_iff.mp h part hpart)
      omega

/-- In a list, too, each level opens two parts at most. -/
theorem deepest_le_tallest (es : List Expr) : deepest es ≤ 2 * tallest 0 es - 1 := by
  obtain ⟨-, hheight⟩ := tallest_le_iff.mp (Nat.le_refl (tallest 0 es))
  refine deepest_le fun e he => ?_
  have hdepth := printedDepth_add_two_le (hheight e he)
  omega

end ReactiveTemplate.Expr
