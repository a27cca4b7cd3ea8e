import ReactiveTemplate.Proofs.Expr.Watching

/-!
# Paths in front of longer paths

A chain is watched as a whole: what it is made of is no target. This goes for each chain alone. A
variable that is read on its own besides a longer chain on it is watched, too, so that the path of
one target may be the start of the path of another.
-/

namespace ReactiveTemplate

namespace Expr

/-! ## Parts of a chain -/

theorem path?_ne_nil {e : Expr} {path : List String} (h : e.path? = some path) : path ≠ [] := by
  unfold path? at h
  split at h
  · cases h
    simp
  · obtain ⟨front, -, rfl⟩ := Option.map_eq_some_iff.mp h
    simp
  · contradiction

/-- The start of a path is the path of a part. -/
theorem exists_below_of_front {e : Expr} {path front : List String} (h : e.path? = some path)
    (hfront : front ≠ []) (hstart : front <+: path) :
    ∃ site part, e.below? site = some part ∧ part.path? = some front := by
  fun_induction path? e generalizing path with
  | case1 note name =>
      cases h
      rcases List.prefix_cons_iff.mp hstart with hnil | ⟨names, rfl, hnames⟩
      · exact absurd hnil hfront
      · rw [List.prefix_nil.mp hnames]
        exact ⟨[], _, rfl, rfl⟩
  | case2 note base note' name ih =>
      obtain ⟨path, hbase, rfl⟩ := Option.map_eq_some_iff.mp h
      rcases List.prefix_concat_iff.mp hstart with rfl | hstart
      · refine ⟨[], _, rfl, ?_⟩
        rw [path?, hbase]
        rfl
      · obtain ⟨site, part, hbelow, hpart⟩ := ih hbase hstart
        exact ⟨0 :: site, part, hbelow, hpart⟩
  | case3 => contradiction

/-! ## Targets and their parts -/

/-- The expression of a target is a part of the tree, at some site in it. It need not be an
evaluated part of the root. -/
theorem exists_below_of_mem_watched {e : Expr} (hregular : e.Everywhere Regular) {t : Target}
    (ht : t ∈ e.watched) : ∃ site, e.below? site = some t.expression := by
  induction hregular with
  | @node e hnode hparts ih =>
      by_cases hwatch : e.isWatchable
      · obtain ⟨path, -, hwatched⟩ := watched_of_isWatchable (.node hnode hparts) hwatch
        rw [hwatched, List.mem_singleton] at ht
        rw [ht]
        exact ⟨[], rfl⟩
      · rw [watched_of_not_isWatchable hwatch, List.mem_flatMap] at ht
        obtain ⟨x, hx, ht⟩ := ht
        have hpart := (isWalk_walk e).getElem? hx
        obtain ⟨site, hsite⟩ := ih x.1 (List.mem_of_getElem? hpart) ht
        refine ⟨x.2 :: site, ?_⟩
        rw [Expr.below?, hpart]
        exact hsite

namespace LaidOut

variable {start stop : Nat} {es : List Expr} {t u : Target}

theorem regular_of_mem_targets (h : LaidOut start stop es) (ht : t ∈ targets es) :
    t.expression.Everywhere Regular := by
  rw [targets, reverse_watchAll, List.mem_flatMap] at ht
  obtain ⟨e, he, ht⟩ := ht
  have hregular := h.regular e he
  obtain ⟨site, hsite⟩ := exists_below_of_mem_watched hregular ht
  exact hregular.below? hsite

theorem disjoint_of_ne (h : LaidOut start stop es) (ht : t ∈ targets es) (hu : u ∈ targets es)
    (hne : t.path ≠ u.path) : t.expression.span.Disjoint u.expression.span := by
  have hpairwise := List.pairwise_iff_getElem.mp h.disjoint_targets
  obtain ⟨i, hi, rfl⟩ := List.mem_iff_getElem.mp ht
  obtain ⟨j, hj, rfl⟩ := List.mem_iff_getElem.mp hu
  rcases Nat.lt_trichotomy i j with hlt | rfl | hlt
  · exact hpairwise i j hi hj hlt
  · contradiction
  · exact (hpairwise j i hj hi hlt).symm

/-- A part of a target with a shorter path is no target. -/
theorem expression_ne_of_below (h : LaidOut start stop es) (ht : t ∈ targets es)
    (hu : u ∈ targets es) {site : Site} {part : Expr}
    (hbelow : u.expression.below? site = some part) (hpath : part.path? ≠ some u.path) :
    t.expression ≠ part := by
  rintro rfl
  rw [h.path?_of_mem_targets ht, ne_eq, Option.some.injEq] at hpath
  have hinside := (h.regular_of_mem_targets hu).span_below hbelow
  have hdisjoint := h.disjoint_of_ne ht hu hpath
  unfold Span.Disjoint at hdisjoint
  omega

end LaidOut

end Expr

open ReactiveTemplate.Expr

/-- Where the path of a target goes on to a longer path that is watched, the longer chain has a part
with that path, which is no target. The target stands elsewhere and shares no byte with the
chain. -/
theorem target_apart_of_longer {source : String} {es : List Expr} (h : parse source = .ok es)
    {t u : Target} (ht : t ∈ targets (es.map mark)) (hu : u ∈ targets (es.map mark))
    (hstart : t.path <+: u.path) (hne : t.path ≠ u.path) :
    (∃ site part, u.expression.below? site = some part ∧ part.path? = some t.path ∧
      ∀ v ∈ targets (es.map mark), v.expression ≠ part) ∧
    t.expression.span.Disjoint u.expression.span := by
  have hlaid := (laidOut_of_parse h).mark
  have hnil := path?_ne_nil (hlaid.path?_of_mem_targets ht)
  obtain ⟨site, part, hbelow, hpart⟩ :=
    exists_below_of_front (hlaid.path?_of_mem_targets hu) hnil hstart
  refine ⟨⟨site, part, hbelow, hpart, fun v hv => ?_⟩, hlaid.disjoint_of_ne ht hu hne⟩
  refine hlaid.expression_ne_of_below hv hu hbelow ?_
  rw [hpart]
  exact fun hpath => hne (Option.some.inj hpath)

/-- A variable that is read on its own, and then in a chain. -/
theorem targets_of_sum :
    ∃ es t u, parse "foo + foo.bar" = .ok es ∧ targets (es.map mark) = [t, u] ∧
      t.path = ["foo"] ∧ u.path = ["foo", "bar"] := by
  obtain ⟨es, hparse, hpaths⟩ :
      ∃ es, parse "foo + foo.bar" = .ok es ∧
        (targets (es.map mark)).map Target.path = [["foo"], ["foo", "bar"]] :=
    exists_eq_ok_of_toOption (by decide +kernel)
  obtain ⟨t, us, htargets, ht, hus⟩ := List.map_eq_cons_iff.mp hpaths
  obtain ⟨u, rest, rfl, hu, hrest⟩ := List.map_eq_cons_iff.mp hus
  rw [List.map_eq_nil_iff] at hrest
  exact ⟨es, t, u, hparse, hrest ▸ htargets, ht, hu⟩

/-- In `foo + foo.bar` both paths are watched. The part `foo` of the longer chain is no target, but
the operand in front of it is one. -/
theorem target_apart_of_longer_sum :
    ∃ es t u, parse "foo + foo.bar" = .ok es ∧ t ∈ targets (es.map mark) ∧
      u ∈ targets (es.map mark) ∧ t.path = ["foo"] ∧ u.path = ["foo", "bar"] ∧
      (∃ site part, u.expression.below? site = some part ∧ part.path? = some t.path ∧
        ∀ v ∈ targets (es.map mark), v.expression ≠ part) ∧
      t.expression.span.Disjoint u.expression.span := by
  obtain ⟨es, t, u, hparse, htargets, ht, hu⟩ := targets_of_sum
  have htmem : t ∈ targets (es.map mark) := by simp [htargets]
  have humem : u ∈ targets (es.map mark) := by simp [htargets]
  refine ⟨es, t, u, hparse, htmem, humem, ht, hu, target_apart_of_longer hparse htmem humem ?_ ?_⟩
  · rw [ht, hu]
    exact ⟨["bar"], rfl⟩
  · rw [ht, hu]
    decide

/-- The path of a target may be the start of the path of another. -/
theorem not_targets_incomparable :
    ¬∀ source es, parse source = .ok es →
      ∀ t ∈ targets (es.map mark), ∀ u ∈ targets (es.map mark),
        ¬(t.path <+: u.path ∧ t.path ≠ u.path) := by
  intro hall
  obtain ⟨es, t, u, hparse, htargets, ht, hu⟩ := targets_of_sum
  refine hall _ es hparse t (by simp [htargets]) u (by simp [htargets]) ⟨?_, ?_⟩
  · rw [ht, hu]
    exact ⟨["bar"], rfl⟩
  · rw [ht, hu]
    decide

end ReactiveTemplate
