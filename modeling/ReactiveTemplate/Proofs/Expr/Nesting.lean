import ReactiveTemplate.Proofs.Expr.Height
import ReactiveTemplate.Proofs.Expr.Layout
import ReactiveTemplate.Proofs.Expr.Mirroring
import ReactiveTemplate.Proofs.Expr.Separation

/-!
# How deep trees are

The height of a node counts the levels of its evaluated parts. In a tree that has been read it
counts all of its levels: what is not evaluated is a name or a literal, beside something that is
evaluated.
-/

namespace ReactiveTemplate

open ReactiveTemplate.Expr

namespace Expr

/-- The parts of a node, evaluated or not. -/
def components : Expr → List Expr
  | identifier .. | literal .. => []
  | member _ base property _ => [base, property]
  | call _ callee arguments _ => callee :: arguments
  | conditional _ test consequent alternate => [test, consequent, alternate]
  | object _ properties => properties.flatMap fun p => [p.key, p.value]
  | array _ elements => elements
  | unary _ _ _ argument => [argument]
  | binary _ _ left right => [left, right]

/-- `e.Nests n node` says that `node` is `n` levels inside of `e`, counted through all parts. -/
inductive Nests : Expr → Nat → Expr → Prop where
  | here {e : Expr} : Nests e 0 e
  | part {e part node : Expr} {n : Nat} (hpart : part ∈ e.components) (h : Nests part n node) :
      Nests e (n + 1) node

/-- The parts of a node that are not evaluated have no parts. -/
def Labelled (e : Expr) : Prop :=
  ∀ part ∈ e.components, part ∈ e.children ∨ part.components = []

/-! ## Parts -/

/-- An evaluated part is lower than its tree, so that going down through parts comes to an end. -/
theorem height_lt_of_mem_children {e part : Expr} (hpart : part ∈ e.children) :
    part.height < e.height := by
  obtain ⟨height, hheight⟩ := Nat.exists_eq_succ_of_ne_zero (Nat.ne_of_gt e.height_pos)
  have hle := height_le_succ_iff.mp (Nat.le_of_eq hheight) part hpart
  omega

/-- A node is one level higher than the highest of its evaluated parts. -/
theorem height_eq (e : Expr) : e.height = 1 + (e.children.map height).max?.getD 0 := by
  apply Nat.le_antisymm
  · rw [Nat.add_comm, height_le_succ_iff]
    exact fun part hpart => List.le_max?_getD_of_mem (List.mem_map_of_mem hpart)
  · cases hmax : (e.children.map height).max? with
    | none => exact e.height_pos
    | some most =>
        obtain ⟨part, hpart, rfl⟩ := List.mem_map.mp (List.max?_mem hmax)
        have hlt := height_lt_of_mem_children hpart
        rwa [Option.getD_some, Nat.add_comm, Nat.add_one_le_iff]

/-- The evaluated parts are among all the parts of a node. What is left out are names behind points
and plain keys. -/
theorem children_subset_components (e : Expr) : e.children ⊆ e.components := by
  intro part hpart
  cases e with
  | member note base property computed => cases computed <;> simp_all [children, components]
  | call note callee arguments filter =>
      cases filter <;> cases arguments <;> simp_all [children, components, or_left_comm]
  | object note properties =>
      obtain ⟨p, hp, hpart⟩ := List.mem_flatMap.mp hpart
      refine List.mem_flatMap.mpr ⟨p, hp, ?_⟩
      split at hpart
      · exact hpart
      · exact List.mem_cons_of_mem _ hpart
  | _ => exact hpart

/-- Where there are parts, one of them is evaluated. -/
theorem exists_child {e part : Expr} (hpart : part ∈ e.components) :
    ∃ child, child ∈ e.children := by
  cases e with
  | identifier | literal => contradiction
  | member note base property computed => exact ⟨base, by cases computed <;> simp [children]⟩
  | call note callee arguments filter =>
      exact ⟨callee, by cases filter <;> cases arguments <;> simp [children]⟩
  | object note properties =>
      obtain ⟨p, hp, -⟩ := List.mem_flatMap.mp hpart
      exact ⟨p.value, value_mem_children hp⟩
  | _ => exact ⟨part, hpart⟩

theorem children_eq_nil {e : Expr} (h : e.components = []) : e.children = [] :=
  List.subset_nil.mp (h ▸ e.children_subset_components)

/-- A node without parts has nothing that could be unlabelled below it. Names and literals are
such. -/
theorem everywhere_of_leaf {e : Expr} (h : e.components = []) : e.Everywhere Labelled := by
  refine .node ?_ ?_
  · rw [Labelled, h]
    exact List.forall_mem_nil _
  · rw [children_eq_nil h]
    exact List.forall_mem_nil _

theorem height_of_leaf {e : Expr} (h : e.components = []) : e.height = 1 := by
  rw [height_eq, children_eq_nil h]
  rfl

/-- A node is as much lower as it is further inside. -/
theorem Nests.add_height_le {e node : Expr} {n : Nat} (h : e.Nests n node)
    (he : e.Everywhere Labelled) : node.Everywhere Labelled ∧ n + node.height ≤ e.height := by
  induction h with
  | here => exact ⟨he, Nat.le_of_eq (Nat.zero_add _)⟩
  | @part e part node n hpart h ih =>
      cases he with
      | node hlabelled hparts =>
          rcases hlabelled part hpart with hchild | hleaf
          · obtain ⟨hnode, hle⟩ := ih (hparts part hchild)
            have hlt := height_lt_of_mem_children hchild
            exact ⟨hnode, by omega⟩
          · -- Beside a part that is not evaluated there is one that is, and it is as high at least.
            obtain ⟨hnode, hle⟩ := ih (everywhere_of_leaf hleaf)
            obtain ⟨child, hchild⟩ := exists_child hpart
            have hlt := height_lt_of_mem_children hchild
            have hpos := child.height_pos
            have hone := height_of_leaf hleaf
            exact ⟨hnode, by omega⟩

/-! ## Nodes of derivations -/

/-- A node all of whose parts are evaluated needs no labels among them, as is the case for every
operation. -/
theorem labelled_of_subset {e : Expr} (h : e.components ⊆ e.children) : e.Labelled :=
  fun _ hpart => .inl (h hpart)

/-- The callee of a filter is the one part of a call that is not evaluated, and it is a name. -/
theorem labelled_call {note : Note} {callee : Expr} {arguments : List Expr} {filter : Bool} :
    (call note callee arguments filter).Labelled := by
  apply labelled_of_subset
  intro part hpart
  cases filter <;> cases arguments <;> simp_all [children, components, or_left_comm]

/-- A member access by a name has a leaf for its property. Its base is all that has to be looked
into. -/
theorem everywhere_member {note : Note} {base property : Expr} (hbase : base.Everywhere Labelled)
    (hproperty : property.components = []) :
    (member note base property false).Everywhere Labelled := by
  refine .node ?_ (List.forall_mem_singleton.mpr hbase)
  exact List.forall_mem_cons.mpr
    ⟨.inl List.mem_cons_self, List.forall_mem_singleton.mpr (.inr hproperty)⟩

end Expr

/-- A property of which the key has no parts unless it is computed. -/
structure Property.Settled (p : Property) : Prop where
  key : p.key.components = [] ∨ p.computed
  parts : ∀ e ∈ p.parts, e.Everywhere Labelled

/-- The keys that are not computed are leaves, and all else in an object is evaluated, if its
properties are settled. -/
theorem Expr.everywhere_object {note : Note} {ps : List Property} (h : ∀ p ∈ ps, p.Settled) :
    (object note ps).Everywhere Labelled := by
  constructor
  · intro part hpart
    obtain ⟨p, hp, hpart⟩ := List.mem_flatMap.mp hpart
    rcases List.mem_cons.mp hpart with rfl | hpart
    · exact (h p hp).key.symm.imp_left (key_mem_children hp)
    · rw [List.mem_singleton.mp hpart]
      exact .inl (value_mem_children hp)
  · intro part hpart
    obtain ⟨p, hp, hpart⟩ := List.mem_flatMap.mp hpart
    exact (h p hp).parts part hpart

/-- Every node of what a form stands for is labelled. -/
def Symbol.Settled : (s : Symbol) → s.Value → Prop
  | filters, e | conditional, e | operation _, e | unary, e | postfixes, e | primary, e =>
      e.Everywhere Labelled
  | property, p => p.Settled
  | items item _, (vs, _) => ∀ v ∈ vs, item.Settled v
  | nested part, v => part.Settled v

/-- Every tree of the grammar has leaves only among its parts that are not evaluated, by induction
on derivations. -/
theorem Derives.settled {s : Symbol} {w : List Token} {v : s.Value} {d : Nat}
    (h : Derives s w v d) : s.Settled v := by
  induction h with
  | nested _ ih | unfiltered _ ih | unconditional _ ih | tighter _ ih | operand _ ih
  | unsigned _ ih | plain _ ih => exact ih
  | filter _ _ _ ih =>
      refine .node labelled_call (List.forall_mem_cons.mpr ⟨ih, ?_⟩)
      exact List.forall_mem_singleton.mpr (everywhere_of_leaf rfl)
  | filterCall _ _ _ _ _ ih ihs =>
      refine .node labelled_call (List.forall_mem_cons.mpr ⟨ih, ?_⟩)
      exact List.forall_mem_cons.mpr ⟨everywhere_of_leaf rfl, ihs⟩
  | choice _ _ _ _ _ ih₁ ih₂ ih₃ =>
      refine .node (labelled_of_subset fun _ => id) (List.forall_mem_cons.mpr ⟨ih₁, ?_⟩)
      exact List.forall_mem_cons.mpr ⟨ih₂, List.forall_mem_singleton.mpr ih₃⟩
  | binary _ _ _ ih ih' =>
      refine .node (labelled_of_subset fun _ => id) (List.forall_mem_cons.mpr ⟨ih, ?_⟩)
      exact List.forall_mem_singleton.mpr ih'
  | unary _ _ ih =>
      exact .node (labelled_of_subset fun _ => id) (List.forall_mem_singleton.mpr ih)
  | call _ _ _ ih ihs => exact .node labelled_call (List.forall_mem_cons.mpr ⟨ih, ihs⟩)
  | element _ _ _ _ ih ih' =>
      refine .node (labelled_of_subset fun _ => id) (List.forall_mem_cons.mpr ⟨ih, ?_⟩)
      exact List.forall_mem_singleton.mpr ih'
  | member _ _ _ ih => exact everywhere_member ih rfl
  | group _ _ _ ih => exact ih
  | array _ _ ihs => exact .node (labelled_of_subset fun _ => id) ihs
  | object _ _ ihs => exact everywhere_object ihs
  | literal | keyword | name => exact everywhere_of_leaf rfl
  | shorthand => exact ⟨.inl rfl, List.forall_mem_singleton.mpr (everywhere_of_leaf rfl)⟩
  | nameKey _ _ _ ih | literalKey _ _ _ ih =>
      exact ⟨.inl rfl, List.forall_mem_singleton.mpr ih⟩
  | computedKey _ _ _ _ _ ih ih' =>
      exact ⟨.inr rfl, List.forall_mem_cons.mpr ⟨ih, List.forall_mem_singleton.mpr ih'⟩⟩
  | close => exact List.forall_mem_nil _
  | last _ _ ih => exact List.forall_mem_singleton.mpr ih
  | more _ _ _ ih ihs => exact List.forall_mem_cons.mpr ⟨ih, ihs⟩

/-- The trees of a list are labelled throughout, since each of them comes from a derivation of its
own. -/
theorem DerivesList.labelled {w : List Token} {es : List Expr} {d : Nat} (h : DerivesList w es d) :
    ∀ e ∈ es, e.Everywhere Labelled := by
  induction h with
  | one h => exact List.forall_mem_singleton.mpr h.settled
  | more h _ _ ih => exact List.forall_mem_cons.mpr ⟨h.settled, ih⟩

/-- In what is read of a source, no node has more levels inside of it than its height says. -/
theorem bounds_of_nests {source : String} {es : List Expr} (h : parse source = .ok es) {e : Expr}
    (he : e ∈ es) {n : Nat} {node : Expr} (hnode : e.Nests n node) :
    node.height ≤ nestingLimit ∧ ∀ m part, node.Nests m part → m + 1 ≤ node.height := by
  obtain ⟨tokens, -, hread⟩ := parse_eq_ok_iff.mp h
  obtain ⟨d, hlist, -, hheight⟩ := exists_derivesList hread (List.ne_nil_of_mem he)
  obtain ⟨hlabelled, hle⟩ := hnode.add_height_le (hlist.labelled e he)
  have hlimit := hheight e he
  refine ⟨by omega, fun m part hpart => ?_⟩
  have hinner := (hpart.add_height_le hlabelled).2
  have hpos := part.height_pos
  omega

/-- However many tokens there are, the counter of nested parts keeps to its limit, every nested call
brings it back, and every loop that goes on has fewer tokens left; what is read is what is read
without a counter. In what is read of a source, the heights of the nodes keep to the limit, and
count all levels of the tree. -/
theorem nesting_bounded :
    (∀ tokens fuel, nestingLimit < fuel →
      (buildAll fuel tokens).1 = Expr.ofTokens tokens ∧
      (buildAll fuel tokens).2.depth = 0 ∧
      (∀ before inside after, .nested before inside after ∈ (buildAll fuel tokens).2.log →
        inside ≤ nestingLimit ∧ after = before) ∧
      ∀ loop before after, .again loop before after ∈ (buildAll fuel tokens).2.log →
        after < before) ∧
    ∀ source es, parse source = .ok es → ∀ e ∈ es, ∀ n node, e.Nests n node →
      node.height = 1 + (node.children.map Expr.height).max?.getD 0 ∧
      node.height ≤ nestingLimit ∧
      ∀ m part, node.Nests m part → m + 1 ≤ node.height := by
  constructor
  · intro tokens fuel hfuel
    obtain ⟨hsame, hdepth, events, hlog, hevents⟩ := completes_buildAll hfuel tokens
    rw [List.append_nil] at hlog
    rw [hlog]
    exact ⟨hsame, hdepth, fun before inside after => hevents (.nested before inside after),
      fun loop before after => hevents (.again loop before after)⟩
  · exact fun source es h e he n node hnode => ⟨node.height_eq, bounds_of_nests h he hnode⟩

theorem log_of_call :
    ∃ tokens, tokenize "-f(a, {k: b.c})" = .ok tokens ∧
      (buildAll 65 tokens).2.log =
        [.nested 0 1 0, .nested 1 2 1, .again .postfixes 11 0, .nested 2 3 2, .nested 3 4 3,
          .again .postfixes 4 2, .again .list 10 8, .nested 2 3 2] :=
  exists_eq_ok_of_toOption (by decide +kernel)

/-- An operator, a call and an object each take the counter up, and a member is one level more. -/
theorem nesting_bounded_call :
    ∃ tokens e, tokenize "-f(a, {k: b.c})" = .ok tokens ∧
      (buildAll 65 tokens).1 = Expr.ofTokens tokens ∧ (buildAll 65 tokens).2.depth = 0 ∧
      .nested 3 4 3 ∈ (buildAll 65 tokens).2.log ∧ (4 ≤ nestingLimit ∧ 3 = 3) ∧
      .again .list 10 8 ∈ (buildAll 65 tokens).2.log ∧ 8 < 10 ∧
      parse "-f(a, {k: b.c})" = .ok [e] ∧ e.height = 5 ∧
      e.height = 1 + (e.children.map Expr.height).max?.getD 0 ∧ e.height ≤ nestingLimit ∧
      ∀ m part, e.Nests m part → m + 1 ≤ e.height := by
  obtain ⟨tokens, htokens, hlog⟩ := log_of_call
  obtain ⟨es, hparse, hheights⟩ :
      ∃ es, parse "-f(a, {k: b.c})" = .ok es ∧ es.map Expr.height = [5] :=
    exists_eq_ok_of_toOption (by decide +kernel)
  obtain ⟨e, rfl, hheight⟩ := List.map_eq_singleton_iff.mp hheights
  obtain ⟨hsame, hdepth, hnested, hagain⟩ := nesting_bounded.1 tokens 65 (by decide)
  have hcall : .nested 3 4 3 ∈ (buildAll 65 tokens).2.log := by
    rw [hlog]
    decide
  have hround : .again .list 10 8 ∈ (buildAll 65 tokens).2.log := by
    rw [hlog]
    decide
  have hnode := nesting_bounded.2 _ _ hparse e List.mem_cons_self 0 e .here
  exact ⟨tokens, e, htokens, hsame, hdepth, hcall, hnested _ _ _ hcall, hround, hagain _ _ _ hround,
    hparse, hheight, hnode⟩

end ReactiveTemplate
