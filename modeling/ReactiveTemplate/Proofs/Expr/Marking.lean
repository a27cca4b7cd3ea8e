import ReactiveTemplate.Expr.Watch

/-!
# Marked trees

A marked tree has the form of the tree that it was made of: its parts are the marked parts, in the
same order, and its spans are the same.
-/

namespace ReactiveTemplate

/-- The parts of a property that are evaluated. -/
def Property.parts (p : Property) : List Expr :=
  if p.computed then [p.key, p.value] else [p.value]

namespace Expr

theorem children_object (note : Note) (ps : List Property) :
    (object note ps).children = ps.flatMap Property.parts :=
  rfl

/-! ## Lists and properties -/

/-- A property with its evaluated parts marked. -/
def markProperty (p : Property) : Property :=
  ⟨if p.computed then p.key.mark else p.key.markKey, p.value.mark, p.computed, p.shorthand⟩

/-- A marked property has its parts marked, in the same order. A plain key is no part and is flagged
on its own. -/
theorem parts_markProperty (p : Property) : (markProperty p).parts = p.parts.map mark := by
  unfold markProperty Property.parts
  cases p.computed <;> rfl

/-- Marking a list marks each of its trees. The list so far is kept newest first, as the recursion
has it. -/
theorem markAll_eq (done es : List Expr) : markAll done es = done.reverse ++ es.map mark := by
  induction es generalizing done with
  | nil => simp [markAll]
  | cons e es ih => simp [markAll, ih]

theorem markProperties_eq (done ps : List Property) :
    markProperties done ps = done.reverse ++ ps.map markProperty := by
  induction ps generalizing done with
  | nil => simp [markProperties]
  | cons p ps ih =>
      obtain ⟨key, value, computed, shorthand⟩ := p
      simp [markProperties, markProperty, ih]

/-! ## Trees -/

@[simp]
theorem span_mark (e : Expr) : e.mark.span = e.span := by
  cases e with
  | member note base property computed => cases computed <;> rfl
  | _ => rfl

/-- The evaluated parts of a marked tree are the marked parts of the tree, so that sites lead to the
same nodes in both. -/
@[simp]
theorem children_mark (e : Expr) : e.mark.children = e.children.map mark := by
  cases e with
  | member note base property computed => cases computed <;> rfl
  | call note callee arguments filter =>
      simp only [mark, markAll_eq, List.reverse_nil, List.nil_append]
      cases filter <;> cases arguments <;> rfl
  | object note ps =>
      simp only [mark, markProperties_eq, List.reverse_nil, List.nil_append, children_object,
        List.flatMap_map, List.map_flatMap, parts_markProperty]
  | array note es => simp [mark, markAll_eq, children]
  | _ => rfl

end Expr

end ReactiveTemplate
