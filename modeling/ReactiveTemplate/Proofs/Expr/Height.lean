import ReactiveTemplate.Expr.Basic

/-!
# Heights of trees

A tree is one level higher than the highest of its evaluated parts.
-/

namespace ReactiveTemplate.Expr

/-- A list keeps to a bound exactly if each of its trees does, besides the height that the recursion
starts from. -/
theorem tallest_le_iff {most bound : Nat} {es : List Expr} :
    tallest most es ≤ bound ↔ most ≤ bound ∧ ∀ e ∈ es, e.height ≤ bound := by
  induction es generalizing most with
  | nil => simp [tallest]
  | cons e es ih =>
      rw [tallest, ih, Nat.max_le]
      simp [and_assoc]

/-- For properties the values count, and those keys that are computed. A plain key adds nothing to
the height of its object. -/
theorem tallestProperty_le_iff {most bound : Nat} {ps : List Property} :
    tallestProperty most ps ≤ bound ↔
      most ≤ bound ∧ ∀ p ∈ ps, (p.computed → p.key.height ≤ bound) ∧ p.value.height ≤ bound := by
  induction ps generalizing most with
  | nil => simp [tallestProperty]
  | cons p ps ih =>
      obtain ⟨key, value, computed, shorthand⟩ := p
      rw [tallestProperty, ih, Nat.max_le]
      cases computed with
      | false => simp [and_assoc]
      | true =>
          rw [if_pos rfl, Nat.max_le]
          simp [and_assoc]

/-- A tree keeps to a bound when its evaluated parts keep to the next smaller one. -/
theorem height_le_succ_iff {e : Expr} {bound : Nat} :
    e.height ≤ bound + 1 ↔ ∀ part ∈ e.children, part.height ≤ bound := by
  cases e with
  | identifier | literal => simp [height, children]
  | member note base property computed =>
      cases computed with
      | false => simp [height, children, Nat.add_comm 1]
      | true =>
          rw [height, if_pos rfl, Nat.add_comm, Nat.add_le_add_iff_right, Nat.max_le]
          simp [children]
  | call note callee arguments filter =>
      rw [height, Nat.add_comm, Nat.add_le_add_iff_right, tallest_le_iff]
      cases filter <;> cases arguments <;> simp [children, and_left_comm]
  | conditional =>
      rw [height, Nat.add_comm, Nat.add_le_add_iff_right, Nat.max_le, Nat.max_le]
      simp [children]
  | object note properties =>
      rw [height, Nat.add_comm, Nat.add_le_add_iff_right, tallestProperty_le_iff]
      simp only [Nat.zero_le, true_and, children, List.mem_flatMap]
      constructor
      · rintro h part ⟨p, hp, hpart⟩
        cases hcomputed : p.computed <;> simp [hcomputed] at hpart
        · exact hpart ▸ (h p hp).2
        · rcases hpart with rfl | rfl
          · exact (h p hp).1 hcomputed
          · exact (h p hp).2
      · intro h p hp
        refine ⟨fun hcomputed => h p.key ⟨p, hp, by simp [hcomputed]⟩, h p.value ⟨p, hp, ?_⟩⟩
        split <;> simp
  | array note elements =>
      rw [height, Nat.add_comm, Nat.add_le_add_iff_right, tallest_le_iff]
      simp [children]
  | unary => simp [height, children, Nat.add_comm 1]
  | binary =>
      rw [height, Nat.add_comm, Nat.add_le_add_iff_right, Nat.max_le]
      simp [children]

/-- A part of a tree keeps to every bound that the tree keeps to. It is even lower, but this is what
is needed most. -/
theorem height_le_of_mem_children {e part : Expr} {bound : Nat} (hpart : part ∈ e.children)
    (h : e.height ≤ bound) : part.height ≤ bound :=
  height_le_succ_iff.mp (Nat.le_succ_of_le h) part hpart

theorem value_mem_children {note : Note} {ps : List Property} {p : Property} (hp : p ∈ ps) :
    p.value ∈ (object note ps).children := by
  rw [children, List.mem_flatMap]
  refine ⟨p, hp, ?_⟩
  split <;> simp

theorem key_mem_children {note : Note} {ps : List Property} {p : Property} (hp : p ∈ ps)
    (hcomputed : p.computed) : p.key ∈ (object note ps).children := by
  rw [children, List.mem_flatMap]
  exact ⟨p, hp, by simp [hcomputed]⟩

theorem height_pos (e : Expr) : 0 < e.height := by
  cases e <;> rw [height] <;> omega

end ReactiveTemplate.Expr
