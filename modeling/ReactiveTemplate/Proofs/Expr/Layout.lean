import ReactiveTemplate.Proofs.Expr.Marking
import ReactiveTemplate.Proofs.Expr.Site
import ReactiveTemplate.Proofs.Expr.Soundness
import ReactiveTemplate.Proofs.Token.Order

/-!
# The layout of trees

In a tree that is read from a source, the parts of a node stand one behind the other inside of the
node, and none of them is empty. A plain member names its property, and a filter has a name and an
input.
-/

namespace ReactiveTemplate

open ReactiveTemplate.Expr

namespace Expr

/-- A property is named unless it is computed, and a filter is a name that takes an input. -/
def WellFormed : Expr → Prop
  | member _ _ property false => ∃ note name, property = identifier note name
  | call _ callee arguments true => (∃ note name, callee = identifier note name) ∧ arguments ≠ []
  | _ => True

/-- A node whose parts stand one behind the other inside of it. -/
structure Regular (e : Expr) : Prop where
  nonempty : e.span.start < e.span.stop
  parts : Span.InOrder e.span.start e.span.stop (e.children.map span)
  formed : e.WellFormed

/-- Something holds of a node and of whatever is below it. -/
inductive Everywhere (P : Expr → Prop) : Expr → Prop where
  | node {e : Expr} (h : P e) (hparts : ∀ part ∈ e.children, Everywhere P part) : Everywhere P e

theorem Everywhere.root {P : Expr → Prop} {e : Expr} (h : e.Everywhere P) : P e := by
  cases h with
  | node hnode => exact hnode

/-- What holds everywhere in a tree holds everywhere in each of its parts, along the indexes that
lead there. -/
theorem Everywhere.below? {P : Expr → Prop} {e part : Expr} {site : Site} (h : e.Everywhere P)
    (hbelow : e.below? site = some part) : part.Everywhere P := by
  induction site generalizing e with
  | nil =>
      cases hbelow
      exact h
  | cons i site ih =>
      obtain ⟨child, hchild, hbelow⟩ := Option.bind_eq_some_iff.mp hbelow
      cases h with
      | node _ hparts => exact ih (hparts child (List.mem_of_getElem? hchild)) hbelow

/-- Whatever is below a node stands inside of it. -/
theorem Everywhere.span_below {e part : Expr} {site : Site} (h : e.Everywhere Regular)
    (hbelow : e.below? site = some part) :
    e.span.start ≤ part.span.start ∧ part.span.start < part.span.stop ∧
      part.span.stop ≤ e.span.stop := by
  induction site generalizing e with
  | nil =>
      cases hbelow
      cases h with
      | node hnode => exact ⟨Nat.le_refl _, hnode.nonempty, Nat.le_refl _⟩
  | cons i site ih =>
      obtain ⟨child, hchild, hbelow⟩ := Option.bind_eq_some_iff.mp hbelow
      have hmem := List.mem_of_getElem? hchild
      cases h with
      | node hnode hparts =>
          have hinside := ih (hparts child hmem) hbelow
          have hbounds := hnode.parts.bounds_of_mem (List.mem_map_of_mem hmem)
          omega

/-- Regular trees that stand one behind the other between two bytes. -/
structure LaidOut (start stop : Nat) (es : List Expr) : Prop where
  order : Span.InOrder start stop (es.map span)
  regular : ∀ e ∈ es, e.Everywhere Regular

namespace LaidOut

variable {start middle middle' stop : Nat} {es es' : List Expr}

theorem nil (h : start ≤ stop) : LaidOut start stop [] :=
  ⟨h, by simp⟩

/-- Trees that are laid out side by side are laid out together. This puts lists together from their
items. -/
theorem append (h : LaidOut start middle es) (h' : LaidOut middle stop es') :
    LaidOut start stop (es ++ es') := by
  refine ⟨?_, List.forall_mem_append.mpr ⟨h.regular, h'.regular⟩⟩
  rw [List.map_append]
  exact h.order.append h'.order

theorem widen {start' stop' : Nat} (h : LaidOut start stop es) (hstart : start' ≤ start)
    (hstop : stop ≤ stop') : LaidOut start' stop' es :=
  ⟨h.order.widen hstart hstop, h.regular⟩

theorem bounds {e : Expr} (h : LaidOut start stop [e]) :
    start ≤ e.span.start ∧ e.span.start < e.span.stop ∧ e.span.stop ≤ stop :=
  h.order

/-- The last tree may reach up to the end. -/
theorem narrow {e : Expr} (h : LaidOut start stop [e]) : LaidOut start e.span.stop [e] :=
  ⟨⟨h.bounds.1, h.bounds.2.1, Nat.le_refl _⟩, h.regular⟩

/-- A node from the start of one span to the end of another is laid out if its parts are. -/
theorem node {e : Expr} {first last : Span} (hspan : e.span = first.join last)
    (hparts : LaidOut first.start last.stop e.children) (hformed : e.WellFormed)
    (hstart : start ≤ first.start) (hfirst : first.start < first.stop)
    (hlast : first.stop ≤ last.stop) (hle : first.start ≤ last.start)
    (hstop : last.stop ≤ stop) : LaidOut start stop [e] := by
  have hbounds : e.span.start = first.start ∧ e.span.stop = last.stop := by
    rw [hspan]
    exact ⟨Nat.min_eq_left hle, Nat.max_eq_right hlast⟩
  obtain ⟨hstart', hstop'⟩ := hbounds
  have hpos : e.span.start < e.span.stop := by omega
  have hend : e.span.stop ≤ stop := by omega
  refine ⟨⟨by omega, hpos, hend⟩, ?_⟩
  intro e' he'
  rw [List.mem_singleton.mp he']
  refine .node ⟨hpos, ?_, hformed⟩ hparts.regular
  rw [hstart', hstop']
  exact hparts.order

/-- A node that starts with its first part is laid out if its parts are. -/
theorem headed {e first : Expr} {more : List Expr} {last : Span}
    (h : LaidOut start middle [first]) (hmore : LaidOut middle last.stop more)
    (hspan : e.span = first.span.join last) (hchildren : e.children = first :: more)
    (hformed : e.WellFormed) (hlast : middle ≤ last.start) (hstop : last.stop ≤ stop) :
    LaidOut start stop [e] := by
  obtain ⟨hstart, hpos, hmiddle⟩ := h.bounds
  have hle := hmore.order.le
  refine .node hspan ?_ hformed hstart hpos (by omega) (by omega) hstop
  rw [hchildren]
  have hfirst : LaidOut first.span.start middle [first] :=
    ⟨⟨Nat.le_refl _, hpos, hmiddle⟩, h.regular⟩
  exact hfirst.append hmore

end LaidOut

/-- A tree without parts is laid out as soon as its span lies between the bounds. Nothing has to be
ordered inside it. -/
theorem laidOut_leaf {e : Expr} {start stop : Nat} (hchildren : e.children = [])
    (hformed : e.WellFormed) (h : Span.InOrder start stop [e.span]) : LaidOut start stop [e] := by
  obtain ⟨hstart, hpos, hstop⟩ := h
  have hspan : e.span = e.span.join e.span := by
    cases e.span
    simp [Span.join]
  refine .node hspan ?_ hformed hstart hpos (Nat.le_refl _) (Nat.le_refl _) hstop
  rw [hchildren]
  exact .nil (Nat.le_of_lt hpos)

theorem laidOut_ofName {token : Token} {start stop : Nat}
    (h : Span.InOrder start stop [token.span]) : LaidOut start stop [ofName token] :=
  laidOut_leaf rfl trivial h

theorem laidOut_ofValue {token : Token} {value : Value} {start stop : Nat}
    (h : Span.InOrder start stop [token.span]) : LaidOut start stop [ofValue token value] :=
  laidOut_leaf rfl trivial h

end Expr

/-! ## Derivations -/

namespace Symbol

/-- The trees that a form stands for. -/
def parts : (s : Symbol) → s.Value → List Expr
  | filters, e | conditional, e | operation _, e | unary, e | postfixes, e | primary, e => [e]
  | property, p => p.parts
  | items item _, (vs, _) => vs.flatMap item.parts
  | nested part, v => part.parts v

/-- The trees that a form stands for are laid out. Those of a bracketed list stand in front of the
closing bracket. -/
def Laid (start stop : Nat) : (s : Symbol) → s.Value → Prop
  | items item _, (vs, close) =>
      LaidOut start close.start (vs.flatMap item.parts) ∧ close.start < close.stop ∧
        close.stop ≤ stop
  | nested part, v => part.Laid start stop v
  | filters, e | conditional, e | operation _, e | unary, e | postfixes, e | primary, e =>
      LaidOut start stop [e]
  | property, p => LaidOut start stop p.parts

/-- Whatever a form gives, be it a tree, a property or a list, the trees in it are laid out between
the same bounds. -/
theorem Laid.parts {s : Symbol} {v : s.Value} {start stop : Nat} (h : s.Laid start stop v) :
    LaidOut start stop (s.parts v) := by
  induction s with
  | items item close =>
      obtain ⟨hitems, hclose, hstop⟩ := h
      exact hitems.widen (Nat.le_refl _) (by omega)
  | nested part ih => exact ih h
  | _ => exact h

theorem parts_items_part (es : List Expr) : es.flatMap part.parts = es :=
  List.flatMap_singleton' es

end Symbol

/-- Trees are laid out where the tokens of their derivation are, by induction on the derivation.
Brackets are why a tree may lie further inside. -/
theorem Derives.laid {s : Symbol} {w : List Token} {v : s.Value} {d : Nat}
    (h : Derives s w v d) {start stop : Nat}
    (hw : Span.InOrder start stop (w.map Token.span)) : s.Laid start stop v := by
  induction h generalizing start stop with
  | nested _ ih | unfiltered _ ih | unconditional _ ih | tighter _ ih | operand _ ih
  | unsigned _ ih | plain _ ih => exact ih hw
  | filter _ _ _ ih =>
      rw [List.map_append] at hw
      obtain ⟨middle, hinput, hrest⟩ := hw.split
      have hname := laidOut_ofName hrest.tail
      exact (ih hinput).headed hname.narrow rfl rfl ⟨⟨_, _, rfl⟩, List.cons_ne_nil _ _⟩
        hname.bounds.1 hname.bounds.2.2
  | filterCall _ _ _ _ _ ih ihs =>
      rw [List.map_append] at hw
      obtain ⟨middle, hinput, hrest⟩ := hw.split
      obtain ⟨hname, hname', hopen⟩ := hrest.tail
      obtain ⟨hes, hclose, hstop⟩ := ihs hopen.tail
      rw [Symbol.parts_items_part] at hes
      have hcallee := laidOut_ofName ⟨hname, hname', Nat.le_refl _⟩
      have hmore := hcallee.append (hes.widen (Nat.le_refl _) (Nat.le_of_lt hclose))
      have hle := hes.order.le
      exact (ih hinput).headed hmore rfl rfl ⟨⟨_, _, rfl⟩, List.cons_ne_nil _ _⟩ (by omega) hstop
  | choice _ _ _ _ _ ih₁ ih₂ ih₃ =>
      rw [List.map_append, List.map_cons, List.map_append] at hw
      obtain ⟨middle, htest, hrest⟩ := hw.split
      obtain ⟨middle', hconsequent, hrest'⟩ := hrest.tail.split
      have halternate := ih₃ hrest'.tail
      have hmore := (ih₂ hconsequent).append halternate.narrow
      have hle := hconsequent.le
      have hbounds := halternate.bounds
      exact (ih₁ htest).headed hmore rfl rfl trivial (by omega) hbounds.2.2
  | binary _ _ _ ih ih' =>
      rw [List.map_append] at hw
      obtain ⟨middle, hleft, hrest⟩ := hw.split
      have hright := ih' hrest.tail
      exact (ih hleft).headed hright.narrow rfl rfl trivial hright.bounds.1 hright.bounds.2.2
  | unary _ _ ih =>
      obtain ⟨htoken, htoken', hrest⟩ := hw
      have hargument := ih hrest
      have hbounds := hargument.bounds
      refine .node rfl (hargument.narrow.widen (Nat.le_of_lt htoken') (Nat.le_refl _)) trivial
        htoken htoken' ?_ ?_ hbounds.2.2 <;> omega
  | call _ _ _ ih ihs =>
      rw [List.map_append] at hw
      obtain ⟨middle, hcallee, hrest⟩ := hw.split
      obtain ⟨hes, hclose, hstop⟩ := ihs hrest.tail
      rw [Symbol.parts_items_part] at hes
      exact (ih hcallee).headed (hes.widen (Nat.le_refl _) (Nat.le_of_lt hclose)) rfl rfl trivial
        hes.order.le hstop
  | element _ _ _ _ ih ih' =>
      simp only [List.map_append, List.map_cons, List.map_nil] at hw
      obtain ⟨middle, hbase, hrest⟩ := hw.split
      obtain ⟨middle', hindex, hclose⟩ := hrest.tail.split
      have hbounds := hclose.bounds_of_mem List.mem_cons_self
      have hle := hindex.le
      exact (ih hbase).headed ((ih' hindex).widen (Nat.le_refl _) (by omega)) rfl rfl trivial
        (by omega) hbounds.2.2
  | member _ _ _ ih =>
      rw [List.map_append] at hw
      obtain ⟨middle, hbase, hrest⟩ := hw.split
      obtain ⟨hname, hname', hstop⟩ := hrest.tail
      refine (ih hbase).headed (.nil ?_) rfl rfl ⟨_, _, rfl⟩ hname hstop
      omega
  | group _ _ _ ih =>
      rw [List.map_cons, List.map_append] at hw
      obtain ⟨middle, hinner, hclose⟩ := hw.tail.split
      exact (ih hinner).widen (Nat.le_refl _) hclose.le
  | array _ _ ihs =>
      obtain ⟨hopen, hopen', hrest⟩ := hw
      obtain ⟨hes, hclose, hstop⟩ := ihs hrest
      rw [Symbol.parts_items_part] at hes
      have hle := hes.order.le
      refine .node rfl (hes.widen (Nat.le_of_lt hopen') (Nat.le_of_lt hclose)) trivial hopen hopen'
        ?_ ?_ hstop <;> omega
  | object _ _ ihs =>
      obtain ⟨hopen, hopen', hrest⟩ := hw
      obtain ⟨hps, hclose, hstop⟩ := ihs hrest
      have hle := hps.order.le
      refine .node rfl (hps.widen (Nat.le_of_lt hopen') (Nat.le_of_lt hclose)) trivial hopen hopen'
        ?_ ?_ hstop <;> omega
  | literal | keyword => exact laidOut_ofValue hw
  | name | shorthand => exact laidOut_ofName hw
  | nameKey _ _ _ ih | literalKey _ _ _ ih => exact ih hw.tail.tail
  | computedKey _ _ _ _ _ ih ih' =>
      simp only [List.map_append, List.map_cons] at hw
      obtain ⟨middle, hkey, hrest⟩ := hw.tail.split
      exact LaidOut.append (ih hkey) (ih' hrest.tail.tail)
  | close => exact ⟨.nil hw.1, hw.2.1, hw.2.2⟩
  | last _ _ ih =>
      rw [List.map_append] at hw
      obtain ⟨middle, hitem, hclose, hclose', hstop⟩ := hw.split
      refine ⟨?_, hclose', hstop⟩
      simpa using (ih hitem).parts.widen (Nat.le_refl _) hclose
  | more _ _ _ ih ihs =>
      rw [List.map_append] at hw
      obtain ⟨middle, hitem, hrest⟩ := hw.split
      obtain ⟨hitems, hclose, hstop⟩ := ihs hrest.tail
      exact ⟨(ih hitem).parts.append hitems, hclose, hstop⟩

/-- The trees of a list follow each other in the order of their tokens, with at least a comma
between them. -/
theorem DerivesList.laidOut {w : List Token} {es : List Expr} {d : Nat} (h : DerivesList w es d)
    {start stop : Nat} (hw : Span.InOrder start stop (w.map Token.span)) :
    LaidOut start stop es := by
  induction h generalizing start stop with
  | one h => exact h.laid hw
  | more h _ _ ih =>
      rw [List.map_append] at hw
      obtain ⟨middle, hfirst, hrest⟩ := hw.split
      exact LaidOut.append (h.laid hfirst) (ih hrest.tail)

/-- The expressions of a source stand one behind the other in it, and so do the parts of each. -/
theorem laidOut_of_parse {source : String} {es : List Expr} (h : parse source = .ok es) :
    LaidOut 0 (byteWidth source.toList) es := by
  obtain ⟨tokens, htokens, hread⟩ := parse_eq_ok_iff.mp h
  have horder := inOrder_of_tokenize htokens
  obtain ⟨d, hderives⟩ := DerivesSource.of_ofTokens hread
  cases hderives with
  | empty => exact .nil horder
  | list h => exact h.laidOut horder

/-! ## Marked trees -/

namespace Expr

theorem WellFormed.mark {e : Expr} (h : e.WellFormed) : e.mark.WellFormed := by
  cases e with
  | member note base property computed =>
      cases computed with
      | true => trivial
      | false => exact h
  | call note callee arguments filter =>
      cases filter with
      | false => trivial
      | true =>
          obtain ⟨⟨note', name, rfl⟩, harguments⟩ := h
          refine ⟨⟨_, _, rfl⟩, ?_⟩
          simpa [markAll_eq] using harguments
  | _ => trivial

theorem Everywhere.mark {e : Expr} (h : e.Everywhere Regular) : e.mark.Everywhere Regular := by
  induction h with
  | @node e h hparts ih =>
      have hspans : e.mark.children.map span = e.children.map span := by
        simp [Function.comp_def]
      refine .node ⟨?_, ?_, h.formed.mark⟩ ?_
      · rw [span_mark]
        exact h.nonempty
      · rw [span_mark, hspans]
        exact h.parts
      · rw [children_mark, List.forall_mem_map]
        exact ih

/-- Marked trees are laid out as the trees that they come from. Flags are no part of the layout. -/
theorem LaidOut.mark {es : List Expr} {start stop : Nat} (h : LaidOut start stop es) :
    LaidOut start stop (es.map mark) := by
  refine ⟨?_, ?_⟩
  · rw [List.map_map]
    simpa [Function.comp_def] using h.order
  · rw [List.forall_mem_map]
    exact fun e he => (h.regular e he).mark

end Expr

end ReactiveTemplate
