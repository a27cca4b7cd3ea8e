import ReactiveTemplate.Proofs.Expr.Height
import ReactiveTemplate.Proofs.Expr.Watching

/-!
# What is constant

A part of an expression is constant unless a variable or an object with a computed key is in it. The
flags say exactly this once a tree has been marked, whatever they said before, and nothing but the
flags is written. So a marked tree stays as it is when it is marked again.
-/

namespace ReactiveTemplate

/-- The note as it is before anything has been found out about the value. -/
def Note.unmark (note : Note) : Note :=
  { note with constant := none }

@[simp]
theorem Note.unmark_mark (note : Note) (constant : Bool) :
    (note.mark constant).unmark = note.unmark :=
  rfl

@[simp]
theorem Note.mark_unmark (note : Note) (constant : Bool) :
    note.unmark.mark constant = note.mark constant :=
  rfl

namespace Expr

/-! ## Flags -/

/-- A plain key without its flag, which only a literal has. -/
def unmarkedKey (key : Expr) : Expr :=
  if key.isLiteral then key.withNote key.note.unmark else key

mutual

/-- A tree without the flags of its evaluated parts and of its plain literal keys. -/
def unmarked : Expr → Expr
  | identifier note name => identifier note.unmark name
  | literal note value raw => literal note.unmark value raw
  | member note base property computed =>
      member note.unmark base.unmarked (if computed then property.unmarked else property) computed
  | call note callee arguments filter =>
      call note.unmark callee.unmarked (unmarkedAll arguments) filter
  | conditional note test consequent alternate =>
      conditional note.unmark test.unmarked consequent.unmarked alternate.unmarked
  | object note properties => object note.unmark (unmarkedProperties properties)
  | array note elements => array note.unmark (unmarkedAll elements)
  | unary note operator before argument => unary note.unmark operator before argument.unmarked
  | binary note operator left right => binary note.unmark operator left.unmarked right.unmarked

/-- Expressions without their flags. -/
def unmarkedAll : List Expr → List Expr
  | [] => []
  | e :: es => e.unmarked :: unmarkedAll es

/-- Properties without their flags. -/
def unmarkedProperties : List Property → List Property
  | [] => []
  | ⟨key, value, computed, shorthand⟩ :: ps =>
      ⟨if computed then key.unmarked else key.unmarkedKey, value.unmarked, computed, shorthand⟩ ::
        unmarkedProperties ps

end

theorem unmarkedKey_markKey (key : Expr) : key.markKey.unmarkedKey = key.unmarkedKey := by
  cases key <;> rfl

theorem markKey_unmarkedKey (key : Expr) : key.unmarkedKey.markKey = key.markKey := by
  cases key <;> rfl

mutual

/-- Nothing but flags is written. -/
theorem unmarked_mark : (e : Expr) → e.mark.unmarked = e.unmarked
  | identifier .. => rfl
  | literal .. => rfl
  | member note base property computed => by
      cases computed with
      | true => simp [mark, unmarked, unmarked_mark base, unmarked_mark property]
      | false => simp [mark, unmarked, unmarked_mark base]
  | call note callee arguments filter => by
      simp [mark, unmarked, markAll_eq, unmarked_mark callee, unmarkedAll_mark arguments]
  | conditional note test consequent alternate => by
      simp [mark, unmarked, unmarked_mark test, unmarked_mark consequent, unmarked_mark alternate]
  | object note ps => by
      simp [mark, unmarked, markProperties_eq, unmarkedProperties_mark ps]
  | array note es => by simp [mark, unmarked, markAll_eq, unmarkedAll_mark es]
  | unary note operator before argument => by simp [mark, unmarked, unmarked_mark argument]
  | binary note operator left right => by
      simp [mark, unmarked, unmarked_mark left, unmarked_mark right]

theorem unmarkedAll_mark : (es : List Expr) → unmarkedAll (es.map mark) = unmarkedAll es
  | [] => rfl
  | e :: es => by
      rw [List.map_cons, unmarkedAll, unmarked_mark e, unmarkedAll_mark es, unmarkedAll]

theorem unmarkedProperties_mark :
    (ps : List Property) → unmarkedProperties (ps.map markProperty) = unmarkedProperties ps
  | [] => rfl
  | ⟨key, value, computed, shorthand⟩ :: ps => by
      have hkey : (if computed then (if computed then key.mark else key.markKey).unmarked
          else (if computed then key.mark else key.markKey).unmarkedKey) =
            if computed then key.unmarked else key.unmarkedKey := by
        cases computed with
        | true => exact unmarked_mark key
        | false => exact unmarkedKey_markKey key
      rw [List.map_cons, markProperty, unmarkedProperties, hkey, unmarked_mark value,
        unmarkedProperties_mark ps, unmarkedProperties]

end

mutual

/-- Flags that were there before are not looked at. -/
theorem mark_unmarked : (e : Expr) → e.unmarked.mark = e.mark
  | identifier .. => rfl
  | literal .. => rfl
  | member note base property computed => by
      cases computed with
      | true => simp [mark, unmarked, mark_unmarked base, mark_unmarked property]
      | false => simp [mark, unmarked, mark_unmarked base]
  | call note callee arguments filter => by
      simp [mark, unmarked, markAll_eq, mark_unmarked callee, mark_unmarkedAll arguments]
  | conditional note test consequent alternate => by
      simp [mark, unmarked, mark_unmarked test, mark_unmarked consequent, mark_unmarked alternate]
  | object note ps => by
      simp [mark, unmarked, markProperties_eq, mark_unmarkedProperties ps]
  | array note es => by simp [mark, unmarked, markAll_eq, mark_unmarkedAll es]
  | unary note operator before argument => by simp [mark, unmarked, mark_unmarked argument]
  | binary note operator left right => by
      simp [mark, unmarked, mark_unmarked left, mark_unmarked right]

theorem mark_unmarkedAll : (es : List Expr) → (unmarkedAll es).map mark = es.map mark
  | [] => rfl
  | e :: es => by
      rw [unmarkedAll, List.map_cons, List.map_cons, mark_unmarked e, mark_unmarkedAll es]

theorem mark_unmarkedProperties :
    (ps : List Property) → (unmarkedProperties ps).map markProperty = ps.map markProperty
  | [] => rfl
  | ⟨key, value, computed, shorthand⟩ :: ps => by
      have hkey : (if computed then (if computed then key.unmarked else key.unmarkedKey).mark
          else (if computed then key.unmarked else key.unmarkedKey).markKey) =
            if computed then key.mark else key.markKey := by
        cases computed with
        | true => exact mark_unmarked key
        | false => exact markKey_unmarkedKey key
      rw [unmarkedProperties, List.map_cons, List.map_cons, markProperty, hkey,
        mark_unmarked value, mark_unmarkedProperties ps, markProperty]

end

/-- Trees that differ in their flags only are marked alike. -/
theorem mark_congr {e e' : Expr} (h : e.unmarked = e'.unmarked) : e.mark = e'.mark :=
  calc
    e.mark = e.unmarked.mark := (mark_unmarked e).symm
    _ = e'.unmarked.mark := congrArg mark h
    _ = e'.mark := mark_unmarked e'

/-- Marking a marked tree changes nothing. -/
theorem mark_mark (e : Expr) : e.mark.mark = e.mark :=
  mark_congr (unmarked_mark e)

/-! ## Parts of marked trees -/

/-- Marking moves no node: at each site of the marked tree stands the marked node that stood
there. -/
theorem below?_mark (e : Expr) (site : Site) :
    e.mark.below? site = (e.below? site).map mark := by
  induction site generalizing e with
  | nil => rfl
  | cons i site ih =>
      rw [below?, below?, children_mark, List.getElem?_map]
      cases e.children[i]? with
      | none => rfl
      | some part => exact ih part

theorem height_mark_le_iff {e : Expr} {bound : Nat} :
    e.mark.height ≤ bound ↔ e.height ≤ bound := by
  induction bound generalizing e with
  | zero =>
      have hpos := e.height_pos
      have hpos' := e.mark.height_pos
      omega
  | succ bound ih =>
      rw [height_le_succ_iff, height_le_succ_iff, children_mark, List.forall_mem_map]
      exact forall₂_congr fun part _ => ih

/-- Flags add nothing to the height of a tree, so that a marked tree is within the bound if the tree
is. -/
@[simp]
theorem height_mark (e : Expr) : e.mark.height = e.height :=
  Nat.le_antisymm (height_mark_le_iff.mpr (Nat.le_refl _)) (height_mark_le_iff.mp (Nat.le_refl _))

/-- What goes up from the evaluated parts of a node to the node holds of every tree. -/
@[elab_as_elim]
theorem children_induction {P : Expr → Prop}
    (node : ∀ e, (∀ part ∈ e.children, P part) → P e) (e : Expr) : P e := by
  have hbound : ∀ bound e, e.height ≤ bound → P e := by
    intro bound
    induction bound with
    | zero =>
        intro e he
        have hpos := e.height_pos
        omega
    | succ bound ih =>
        intro e he
        exact node e fun part hpart => ih part (height_le_succ_iff.mp he part hpart)
  exact hbound e.height e (Nat.le_refl _)

/-! ## Constant parts -/

/-- A node that is no variable and has no computed keys. -/
def Steady : Expr → Prop
  | identifier .. => False
  | object _ ps => ∀ p ∈ ps, ¬p.computed
  | _ => True

/-- A tree in which nothing that is evaluated is a variable or an object with a computed key. -/
def Unvarying (e : Expr) : Prop :=
  ∀ site part, e.below? site = some part → part.Steady

/-- Whether a node makes its tree vary by itself is not a matter of flags, whatever they said
before. -/
theorem steady_mark_iff {e : Expr} : e.mark.Steady ↔ e.Steady := by
  cases e with
  | member note base property computed => cases computed <;> rfl
  | object note ps => simp [mark, markProperties_eq, Steady, markProperty]
  | _ => rfl

/-- A tree does not vary if its root does not make it vary, and none of its parts varies. This is
the recursion that marking follows. -/
theorem unvarying_iff {e : Expr} :
    e.Unvarying ↔ e.Steady ∧ ∀ part ∈ e.children, part.Unvarying := by
  constructor
  · intro h
    refine ⟨h [] e rfl, ?_⟩
    intro part hpart site part' hbelow
    obtain ⟨i, hi⟩ := List.mem_iff_getElem?.mp hpart
    apply h (i :: site)
    rw [below?, hi]
    exact hbelow
  · rintro ⟨hsteady, hparts⟩ site part hbelow
    cases site with
    | nil =>
        cases hbelow
        exact hsteady
    | cons i site =>
        obtain ⟨child, hchild, hbelow⟩ := Option.bind_eq_some_iff.mp hbelow
        exact hparts child (List.mem_of_getElem? hchild) site part hbelow

/-- Whether a tree varies can be told from the marked tree as well, since nothing but flags is
changed. -/
theorem unvarying_mark_iff {e : Expr} : e.mark.Unvarying ↔ e.Unvarying := by
  induction e using children_induction with
  | node e ih =>
      rw [unvarying_iff, unvarying_iff, steady_mark_iff, children_mark, List.forall_mem_map]
      exact and_congr_right fun _ => forall₂_congr ih

theorem exists_note_mark (e : Expr) : ∃ constant, e.mark.note = e.note.mark constant := by
  cases e with
  | member note base property computed => cases computed <;> exact ⟨_, rfl⟩
  | _ => exact ⟨_, rfl⟩

theorem isConstant_of_note {e : Expr} (note : Note) {constant : Bool}
    (h : e.note = note.mark constant) : e.isConstant = constant := by
  rw [isConstant, h]
  cases constant <;> rfl

/-- A marked node is constant if it is steady and its parts are constant. -/
theorem isConstant_mark_iff (e : Expr) :
    e.mark.isConstant ↔ e.Steady ∧ ∀ part ∈ e.children, part.mark.isConstant := by
  cases e with
  | identifier note name =>
      rw [isConstant_of_note note rfl]
      simp [Steady]
  | literal note value raw =>
      rw [isConstant_of_note note rfl]
      simp [Steady, children]
  | member note base property computed =>
      cases computed <;> rw [isConstant_of_note note rfl] <;> simp [Steady, children]
  | call note callee arguments filter =>
      rw [isConstant_of_note note rfl, markAll_eq]
      cases filter <;> cases arguments <;> simp [Steady, children, and_left_comm]
  | conditional note test consequent alternate =>
      rw [isConstant_of_note note rfl]
      simp [Steady, children, and_assoc, and_comm (a := consequent.mark.isConstant = true)]
  | object note ps =>
      have hflag : (object note ps).mark.isConstant ↔
          ∀ p ∈ ps, p.computed = false ∧ p.value.mark.isConstant := by
        rw [isConstant_of_note note rfl, markProperties_eq]
        simp [markProperty]
      rw [hflag, children_object]
      constructor
      · intro h
        refine ⟨fun p hp => by simp [(h p hp).1], ?_⟩
        intro part hpart
        obtain ⟨p, hp, hpart⟩ := List.mem_flatMap.mp hpart
        obtain ⟨hplain, hvalue⟩ := h p hp
        have hpart : part = p.value := by simpa [Property.parts, hplain] using hpart
        exact hpart ▸ hvalue
      · rintro ⟨hsteady, hparts⟩ p hp
        have hplain : p.computed = false := by simpa using hsteady p hp
        refine ⟨hplain, hparts p.value (List.mem_flatMap_of_mem hp ?_)⟩
        simp [Property.parts, hplain]
  | array note es =>
      rw [isConstant_of_note note rfl, markAll_eq]
      simp [Steady, children]
  | unary note operator before argument =>
      rw [isConstant_of_note note rfl]
      simp [Steady, children]
  | binary note operator left right =>
      rw [isConstant_of_note note rfl]
      simp [Steady, children]

/-- After marking, the flag at the root tells whether the tree varies. The induction is on the
parts, whose flags the root's is made of. -/
theorem isConstant_mark (e : Expr) : e.mark.isConstant ↔ e.Unvarying := by
  induction e using children_induction with
  | node e ih =>
      rw [isConstant_mark_iff, unvarying_iff]
      exact and_congr_right fun _ => forall₂_congr ih

/-- The flag of a marked node says whether nothing below the node varies. -/
theorem exists_constant_mark (e : Expr) :
    ∃ constant, e.mark.note.constant = some constant ∧ (constant = true ↔ e.mark.Unvarying) := by
  obtain ⟨constant, hnote⟩ := exists_note_mark e
  refine ⟨constant, by rw [hnote]; rfl, ?_⟩
  rw [unvarying_mark_iff, ← isConstant_mark, isConstant_of_note _ hnote]

/-- A plain key that is a literal is marked as constant. -/
theorem constant_key_mark {e : Expr} {note : Note} {ps : List Property}
    (h : e.mark = object note ps) {p : Property} (hp : p ∈ ps) (hplain : ¬p.computed)
    (hliteral : p.key.isLiteral) : p.key.note.constant = some true := by
  cases e with
  | object note' qs =>
      rw [mark, markProperties_eq] at h
      cases h
      obtain ⟨q, -, rfl⟩ := List.mem_map.mp hp
      obtain ⟨key, value, computed, shorthand⟩ := q
      have hcomputed : computed = false := by simpa [markProperty] using hplain
      subst hcomputed
      cases key with
      | literal => rfl
      | _ => contradiction
  | member note base property computed => cases computed <;> contradiction
  | _ => contradiction

end Expr

open ReactiveTemplate.Expr

/-- Whatever its flags say before, a marked tree has a flag on each of its parts, which tells
whether a variable or an object with a computed key is in that part, and the flag of a constant on
each plain literal key. Nothing else is written. Hence a tree that is marked twice is the same as
after the first time, and its targets are found again, in the same order, behind all that has been
found before. -/
theorem mark_exact (e : Expr) :
    (∀ site part, e.mark.below? site = some part →
      ∃ constant, part.note.constant = some constant ∧ (constant = true ↔ part.Unvarying)) ∧
    (∀ site note ps, e.mark.below? site = some (object note ps) →
      ∀ p ∈ ps, ¬p.computed → p.key.isLiteral → p.key.note.constant = some true) ∧
    e.mark.unmarked = e.unmarked ∧
    (∀ site, (e.mark.below? site).map height = (e.below? site).map height) ∧
    (∀ e' : Expr, e'.unmarked = e.unmarked → e'.mark = e.mark) ∧
    e.mark.mark = e.mark ∧
    ∀ nested, ∃ new, ∀ found, e.mark.watch nested found = new ++ found ∧
      e.mark.mark.watch nested found = new ++ found := by
  refine ⟨?_, ?_, unmarked_mark e, ?_, fun e' h => mark_congr h, mark_mark e, ?_⟩
  · intro site part hbelow
    rw [below?_mark, Option.map_eq_some_iff] at hbelow
    obtain ⟨part, -, rfl⟩ := hbelow
    exact exists_constant_mark part
  · intro site note ps hbelow p hp hplain hliteral
    rw [below?_mark, Option.map_eq_some_iff] at hbelow
    obtain ⟨part, -, hpart⟩ := hbelow
    exact constant_key_mark hpart hp hplain hliteral
  · intro site
    rw [below?_mark, Option.map_map]
    exact congrArg (Option.map · _) (funext height_mark)
  · intro nested
    refine ⟨e.mark.watch nested [], fun found => ?_⟩
    have hfound := watch_eq nested found e.mark
    exact ⟨hfound, (congrArg (watch nested found) (mark_mark e)).trans hfound⟩

end ReactiveTemplate
