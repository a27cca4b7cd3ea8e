import ReactiveTemplate.Proofs.Expr.Layout
import ReactiveTemplate.Proofs.Expr.Site

/-!
# What is watched

Every variable of a source that is read is watched, and it is watched once: as the largest chain of
plain member accesses on it. The targets come in the order of the walk, and no two of them share a
byte of the source.
-/

namespace ReactiveTemplate

namespace Expr

/-! ## Targets already found -/

theorem watchWhole_eq (nested : Bool) (e : Expr) (found : List Target) :
    watchWhole nested e found = watchWhole nested e [] ++ found := by
  unfold watchWhole
  split
  · split <;> rfl
  · rfl

mutual

/-- What is found in a tree stands in front of what has been found before, which is not looked at.
The cases follow the recursion of the walk. -/
theorem watch_eq (nested : Bool) (found : List Target) :
    (e : Expr) → e.watch nested found = e.watch nested [] ++ found
  | identifier note name => watchWhole_eq nested (identifier note name) found
  | literal .. => rfl
  | member note base property computed => by
      rw [watch, watch]
      split
      · rw [watch_eq false _ property, watch_eq false found base,
          watch_eq false (base.watch false []) property, List.append_assoc]
      · rw [watchWhole_eq nested _ (base.watch true found), watch_eq true found base,
          watchWhole_eq nested _ (base.watch true []), List.append_assoc]
  | call _ callee arguments _ => by
      rw [watch, watch, watchAll_eq _ arguments, watch_eq false found callee,
        watchAll_eq (callee.watch false []) arguments, List.append_assoc]
  | conditional _ test consequent alternate => by
      rw [watch, watch, watch_eq false _ consequent, watch_eq false _ alternate,
        watch_eq false found test, watch_eq false (watch _ _ alternate) consequent,
        watch_eq false (watch _ _ test) alternate, List.append_assoc, List.append_assoc]
  | object _ ps => watchProperties_eq found ps
  | array _ es => watchAll_eq found es
  | unary _ _ _ argument => watch_eq false found argument
  | binary _ _ left right => by
      rw [watch, watch, watch_eq false _ right, watch_eq false found left,
        watch_eq false (left.watch false []) right, List.append_assoc]

theorem watchAll_eq (found : List Target) :
    (es : List Expr) → watchAll found es = watchAll [] es ++ found
  | [] => rfl
  | e :: es => by
      rw [watchAll, watchAll, watchAll_eq _ es, watch_eq false found e,
        watchAll_eq (e.watch false []) es, List.append_assoc]

theorem watchProperties_eq (found : List Target) :
    (ps : List Property) → watchProperties found ps = watchProperties [] ps ++ found
  | [] => rfl
  | ⟨key, value, computed, shorthand⟩ :: ps => by
      have hkey : (if computed then key.watch false found else found) =
          (if computed then key.watch false [] else []) ++ found := by
        split
        · exact watch_eq false found key
        · rfl
      rw [watchProperties, watchProperties, hkey]
      generalize (if computed then key.watch false [] else []) = keys
      rw [watchProperties_eq _ ps, watch_eq false (keys ++ found) value,
        watchProperties_eq (value.watch false keys) ps, watch_eq false keys value]
      simp only [List.append_assoc]

end

/-! ## Targets of the parts -/

/-- The targets of an expression, in the order of the walk. -/
def watched (e : Expr) : List Target :=
  (e.watch false []).reverse

/-- In the order in which they are found, the targets of a list are those of its trees, one after
another. -/
theorem reverse_watchAll (es : List Expr) : (watchAll [] es).reverse = es.flatMap watched := by
  induction es with
  | nil => rfl
  | cons e es ih =>
      rw [watchAll, watchAll_eq, List.reverse_append, ih]
      rfl

theorem reverse_watchProperties (ps : List Property) :
    (watchProperties [] ps).reverse = (ps.flatMap Property.parts).flatMap watched := by
  induction ps with
  | nil => rfl
  | cons p ps ih =>
      obtain ⟨key, value, computed, shorthand⟩ := p
      rw [watchProperties, watchProperties_eq, watch_eq, List.flatMap_cons, List.flatMap_append,
        List.reverse_append, List.reverse_append, ih]
      cases computed <;> simp [Property.parts, watched]

/-- Only a path of plain member accesses is a target as a whole. -/
theorem watch_of_not_isWatchable {e : Expr} (h : ¬e.isWatchable) (nested : Bool)
    (found : List Target) : e.watch nested found = e.watch false found := by
  cases e with
  | identifier => exact absurd rfl h
  | member note base property computed =>
      cases computed with
      | true => rfl
      | false => simp [watch, watchWhole, h]
  | _ => rfl

theorem flatMap_zipIdx {α β : Type} (f : α → List β) (as : List α) (start : Nat) :
    ((as.zipIdx start).flatMap fun x => f x.1) = as.flatMap f :=
  calc
    _ = ((as.zipIdx start).map Prod.fst).flatMap f := (List.flatMap_map ..).symm
    _ = as.flatMap f := by rw [List.zipIdx_map_fst]

/-- The targets of an expression that is no target as a whole are those of its parts. -/
theorem watched_of_not_isWatchable {e : Expr} (h : ¬e.isWatchable) :
    e.watched = e.walk.flatMap fun x => x.1.watched := by
  cases e with
  | identifier => exact absurd rfl h
  | literal => rfl
  | member note base property computed =>
      refine Eq.trans ?_ (flatMap_zipIdx watched _ 0).symm
      cases computed with
      | true => simp [watched, watch, watch_eq false (base.watch false []), children]
      | false =>
          have hbase : ¬base.isWatchable := h
          simp [watched, watch, watchWhole, h, watch_of_not_isWatchable hbase true, children]
  | call note callee arguments filter =>
      have hcall : (call note callee arguments filter).watched =
          callee.watched ++ arguments.flatMap watched := by
        rw [watched, watch, watchAll_eq, List.reverse_append, reverse_watchAll]
        rfl
      rw [hcall]
      cases arguments with
      | nil => cases filter <;> rfl
      | cons input arguments =>
          cases filter with
          | false => exact (flatMap_zipIdx watched (callee :: input :: arguments) 0).symm
          | true => simp [walk, flatMap_zipIdx]
  | conditional note test consequent alternate =>
      rw [watched, watch, watch_eq false (alternate.watch _ _) consequent,
        watch_eq false (test.watch _ _) alternate]
      simp [walk, watched]
  | object note ps =>
      exact (reverse_watchProperties ps).trans (flatMap_zipIdx watched _ 0).symm
  | array note es => exact (reverse_watchAll es).trans (flatMap_zipIdx watched _ 0).symm
  | unary note operator before argument => simp [watched, watch, walk, children]
  | binary note operator left right =>
      simp [watched, watch, watch_eq false (left.watch _ _), walk, children]

/-! ## Targets as a whole -/

/-- A path leaves it to the member access around it to be a target. -/
theorem watch_nested : (e : Expr) → e.isWatchable → e.watch true [] = []
  | identifier .., _ => rfl
  | member note base property false, h => by
      have hbase : base.isWatchable := h
      simp [watch, watchWhole, watch_nested base hbase]

/-- Everything that can be watched has a path, as long as the properties behind points are names, as
in every tree that is read. -/
theorem exists_path {e : Expr} (hregular : e.Everywhere Regular) (h : e.isWatchable) :
    ∃ path, e.path? = some path := by
  induction hregular with
  | @node e hnode hparts ih =>
      cases e with
      | identifier note name => exact ⟨[name], rfl⟩
      | member note base property computed =>
          cases computed with
          | true => contradiction
          | false =>
              obtain ⟨note', name, rfl⟩ := hnode.formed
              obtain ⟨path, hpath⟩ := ih base List.mem_cons_self h
              exact ⟨path ++ [name], by rw [path?, hpath]; rfl⟩
      | _ => contradiction

/-- A chain that can be watched as a whole has itself as its only target. What it is made of is not
watched besides. -/
theorem watched_of_isWatchable {e : Expr} (hregular : e.Everywhere Regular)
    (h : e.isWatchable) : ∃ path, e.path? = some path ∧ e.watched = [⟨path, e⟩] := by
  obtain ⟨path, hpath⟩ := exists_path hregular h
  refine ⟨path, hpath, ?_⟩
  cases e with
  | identifier note name => simp [watched, watch, watchWhole, h, hpath]
  | member note base property computed =>
      cases computed with
      | true => contradiction
      | false =>
          have hbase : base.isWatchable := h
          simp [watched, watch, watchWhole, h, hpath, watch_nested base hbase]
  | _ => contradiction

/-- Each target has the path of its expression, by induction on the tree: it is found where a chain
is watched as a whole. -/
theorem path?_of_mem_watched {e : Expr} (hregular : e.Everywhere Regular) {t : Target}
    (ht : t ∈ e.watched) : t.expression.path? = some t.path := by
  induction hregular with
  | @node e hnode hparts ih =>
      by_cases hwatch : e.isWatchable
      · obtain ⟨path, hpath, hwatched⟩ := watched_of_isWatchable (.node hnode hparts) hwatch
        rw [hwatched, List.mem_singleton] at ht
        rw [ht]
        exact hpath
      · rw [watched_of_not_isWatchable hwatch, List.mem_flatMap] at ht
        obtain ⟨x, hx, ht⟩ := ht
        exact ih x.1 (List.mem_of_getElem? ((isWalk_walk e).getElem? hx)) ht

/-! ## Spans of targets -/

/-- The targets of an expression stand inside of it and share no byte with each other. -/
structure Parted (e : Expr) : Prop where
  inside : ∀ t ∈ e.watched, e.span.start ≤ t.expression.span.start ∧
    t.expression.span.stop ≤ e.span.stop
  disjoint : e.watched.Pairwise fun t u => t.expression.span.Disjoint u.expression.span

/-- The targets of expressions that stand one behind the other share no byte. -/
theorem IsWalk.disjoint {turn : Nat → Nat} {es : List Expr} {walk : List (Expr × Nat)}
    (h : IsWalk turn es walk) {start stop : Nat} (horder : Span.InOrder start stop (es.map span))
    (hparted : ∀ e ∈ es, e.Parted) :
    (walk.flatMap fun x => x.1.watched).Pairwise fun t u =>
      t.expression.span.Disjoint u.expression.span := by
  have hmem : ∀ x ∈ walk, x.1 ∈ es := fun x hx => List.mem_of_getElem? (h.getElem? hx)
  refine List.pairwise_flatMap.mpr ⟨fun x hx => (hparted _ (hmem x hx)).disjoint, ?_⟩
  refine h.order.imp_of_mem fun {x y} hx hy hturn t ht u hu => ?_
  have hne : x.2 ≠ y.2 := by
    intro heq
    rw [heq] at hturn
    exact Nat.lt_irrefl _ hturn
  have hspan : ∀ x ∈ walk, (es.map span)[x.2]? = some x.1.span := by
    intro x hx
    rw [List.getElem?_map, h.getElem? hx]
    rfl
  have hdisjoint := horder.disjoint_of_ne (hspan x hx) (hspan y hy) hne
  have hinside := (hparted _ (hmem x hx)).inside t ht
  have hinside' := (hparted _ (hmem y hy)).inside u hu
  unfold Span.Disjoint at hdisjoint ⊢
  omega

/-- The targets of a regular tree lie inside it and are disjoint, because those of different parts
lie in different parts. -/
theorem Everywhere.parted {e : Expr} (h : e.Everywhere Regular) : e.Parted := by
  induction h with
  | @node e hnode hparts ih =>
      by_cases hwatch : e.isWatchable
      · obtain ⟨path, -, hwatched⟩ := watched_of_isWatchable (.node hnode hparts) hwatch
        constructor <;> rw [hwatched] <;> simp
      · have hwatched := watched_of_not_isWatchable hwatch
        refine ⟨?_, ?_⟩
        · intro t ht
          rw [hwatched, List.mem_flatMap] at ht
          obtain ⟨x, hx, ht⟩ := ht
          have hpart := List.mem_of_getElem? ((isWalk_walk e).getElem? hx)
          have hinside := (ih _ hpart).inside t ht
          have hbounds := hnode.parts.bounds_of_mem (List.mem_map_of_mem hpart)
          omega
        · rw [hwatched]
          exact (isWalk_walk e).disjoint hnode.parts ih

/-! ## Sites of targets -/

/-- The readings of variables from `e` on, with the targets that they belong to, in the order of the
walk. -/
structure Tracks (e : Expr) (reads : List (Site × Target)) : Prop where
  targets : reads.map Prod.snd = e.watched
  complete : ∀ site, site ∈ reads.map Prod.fst ↔
    ∃ note name, e.below? site = some (identifier note name)
  order : (reads.map Prod.fst).Pairwise (Precedes e.turn e.children)
  largest : ∀ r ∈ reads, ∀ es i, es[i]? = some e → LargestChain es (i :: r.1) r.2.expression

/-- The readings of variables among `es`, as far as `walk` goes over them. -/
structure TracksAlong (turn : Nat → Nat) (es : List Expr) (walk : List (Expr × Nat))
    (reads : List (Site × Target)) : Prop where
  targets : reads.map Prod.snd = walk.flatMap fun x => x.1.watched
  complete : ∀ site, site ∈ reads.map Prod.fst ↔
    ∃ x ∈ walk, ∃ rest, site = x.2 :: rest ∧
      ∃ note name, x.1.below? rest = some (identifier note name)
  order : (reads.map Prod.fst).Pairwise (Precedes turn es)
  largest : ∀ r ∈ reads, LargestChain es r.1 r.2.expression

/-- If each tree of a walk has its reads tracked, so does the walk: the sites get the index of the
tree in front, and the order of the walk comes first. -/
theorem exists_tracksAlong {turn : Nat → Nat} {es : List Expr} {walk : List (Expr × Nat)}
    (hwalk : ∀ x ∈ walk, es[x.2]? = some x.1)
    (horder : walk.Pairwise fun a b => turn a.2 < turn b.2)
    (hparts : ∀ x ∈ walk, ∃ reads, x.1.Tracks reads) : ∃ reads, TracksAlong turn es walk reads := by
  induction walk with
  | nil => exact ⟨[], rfl, by simp, .nil, by simp⟩
  | cons x walk ih =>
      rw [List.forall_mem_cons] at hwalk hparts
      rw [List.pairwise_cons] at horder
      obtain ⟨first, hfirst⟩ := hparts.1
      obtain ⟨more, hmore⟩ := ih hwalk.2 horder.2 hparts.2
      have hsites : (first.map fun r => (x.2 :: r.1, r.2)).map Prod.fst =
          (first.map Prod.fst).map (x.2 :: ·) := by
        simp
      refine ⟨first.map (fun r => (x.2 :: r.1, r.2)) ++ more, ?_, ?_, ?_, ?_⟩
      · rw [List.map_append, hmore.targets, List.flatMap_cons, ← hfirst.targets]
        simp
      · intro site
        rw [List.map_append, List.mem_append, hmore.complete, hsites]
        simp only [List.mem_cons, exists_eq_or_imp]
        refine or_congr ⟨?_, ?_⟩ Iff.rfl
        · intro hsite
          obtain ⟨rest, hrest, rfl⟩ := List.mem_map.mp hsite
          exact ⟨rest, rfl, (hfirst.complete rest).mp hrest⟩
        · rintro ⟨rest, rfl, hrest⟩
          exact List.mem_map_of_mem ((hfirst.complete rest).mpr hrest)
      · rw [List.map_append, hsites, List.pairwise_append, List.pairwise_map]
        refine ⟨hfirst.order.imp (.within hwalk.1), hmore.order, ?_⟩
        intro site hsite site' hsite'
        obtain ⟨rest, -, rfl⟩ := List.mem_map.mp hsite
        obtain ⟨y, hy, rest', rfl, -⟩ := (hmore.complete site').mp hsite'
        exact .apart (horder.1 y hy)
      · rintro r hr
        rcases List.mem_append.mp hr with hr | hr
        · obtain ⟨r', hr', rfl⟩ := List.mem_map.mp hr
          exact hfirst.largest r' hr' es x.2 hwalk.1
        · exact hmore.largest r hr

/-- What is the largest chain among the parts of a node is so around the node, too, unless the node
makes the chain longer. -/
theorem LargestChain.lift {es : List Expr} {i : Nat} {e chain : Expr} {site : Site}
    (h : LargestChain e.children site chain) (he : es[i]? = some e) (hwatch : ¬e.isWatchable) :
    LargestChain es (i :: site) chain := by
  obtain ⟨top, rest, rfl, htop, hchain, hlargest⟩ := h
  refine ⟨i :: top, rest, rfl, ?_, hchain, ?_⟩
  · rw [at?_cons he, below?_of_ne_nil (ne_nil_of_at? htop)]
    exact htop
  · intro top' rest' chain' hsite htop' hchain'
    obtain ⟨j, top', rfl⟩ := List.exists_cons_of_ne_nil (ne_nil_of_at? htop')
    rw [List.cons_append, List.cons.injEq] at hsite
    obtain ⟨rfl, hsite⟩ := hsite
    rw [at?_cons he] at htop'
    by_cases hnil : top' = []
    · -- The node itself would be a chain.
      subst hnil
      cases htop'
      exact absurd (isWatchable_of_isChain hchain') hwatch
    · rw [below?_of_ne_nil hnil] at htop'
      exact hlargest top' rest' chain' hsite htop' hchain'

/-- A chain among the members of `es` is the largest, since nothing is around it. -/
theorem IsChain.largest {es : List Expr} {i : Nat} {e : Expr} {site : Site} (h : e.IsChain site)
    (he : es[i]? = some e) : LargestChain es (i :: site) e := by
  refine ⟨[i], site, rfl, at?_cons he [], h, ?_⟩
  intro top' rest' chain' hsite htop' _
  obtain ⟨j, top', rfl⟩ := List.exists_cons_of_ne_nil (ne_nil_of_at? htop')
  rw [List.cons_append, List.cons.injEq] at hsite
  rw [hsite.2, List.length_append]
  exact Nat.le_add_left _ _

/-- Each target of a regular tree belongs to the site of one variable that is read. The induction is
on the tree; a chain is the base case. -/
theorem Everywhere.exists_tracks {e : Expr} (h : e.Everywhere Regular) :
    ∃ reads, e.Tracks reads := by
  induction h with
  | @node e hnode hparts ih =>
      by_cases hwatch : e.isWatchable
      · obtain ⟨path, -, hwatched⟩ := watched_of_isWatchable (.node hnode hparts) hwatch
        obtain ⟨site, hchain⟩ := exists_isChain e hwatch
        refine ⟨[(site, ⟨path, e⟩)], hwatched.symm, ?_, .cons (by simp) .nil, ?_⟩
        · intro site'
          rw [hchain.below?_iff]
          simp
        · intro r hr es i he
          rw [List.mem_singleton.mp hr]
          exact hchain.largest he
      · have hwalk := isWalk_walk e
        obtain ⟨reads, hreads⟩ := exists_tracksAlong (fun x hx => hwalk.getElem? hx) hwalk.order
          fun x hx => ih x.1 (List.mem_of_getElem? (hwalk.getElem? hx))
        refine ⟨reads, ?_, ?_, hreads.order, ?_⟩
        · rw [hreads.targets, watched_of_not_isWatchable hwatch]
        · intro site
          rw [hreads.complete, ← hwalk.readsAt_iff]
          cases site with
          | cons => rfl
          | nil =>
              -- The node is no variable, since it would be watchable then.
              refine ⟨fun hreads => absurd rfl (ne_nil_of_at? hreads.choose_spec.choose_spec), ?_⟩
              rintro ⟨note, name, hbelow⟩
              cases hbelow
              exact absurd rfl hwatch
        · intro r hr es i he
          exact (hreads.largest r hr).lift he hwatch

/-! ## Sources -/

/-- The targets of a list are those of its trees in order, each tree with its index in front of its
sites. -/
theorem targets_eq_flatMap (es : List Expr) :
    targets es = es.zipIdx.flatMap fun x => x.1.watched := by
  rw [targets, reverse_watchAll, flatMap_zipIdx]

/-- No two targets of trees that are laid out share a byte, whether they come from one tree or from
two. -/
theorem LaidOut.disjoint_targets {start stop : Nat} {es : List Expr} (h : LaidOut start stop es) :
    (targets es).Pairwise fun t u => t.expression.span.Disjoint u.expression.span := by
  rw [targets_eq_flatMap]
  exact (isWalk_zipIdx es).disjoint h.order fun e he => (h.regular e he).parted

theorem LaidOut.path?_of_mem_targets {start stop : Nat} {es : List Expr}
    (h : LaidOut start stop es) {t : Target} (ht : t ∈ targets es) :
    t.expression.path? = some t.path := by
  rw [targets, reverse_watchAll, List.mem_flatMap] at ht
  obtain ⟨e, he, ht⟩ := ht
  exact path?_of_mem_watched (h.regular e he) ht

/-- Trees that are laid out have all their reads tracked, in the order of the walk. This is what is
said of targets, but for their spans. -/
theorem LaidOut.exists_tracksAlong {start stop : Nat} {es : List Expr}
    (h : LaidOut start stop es) : ∃ reads, TracksAlong id es es.zipIdx reads := by
  have hwalk := isWalk_zipIdx es
  refine Expr.exists_tracksAlong (fun x hx => hwalk.getElem? hx) hwalk.order fun x hx => ?_
  exact (h.regular x.1 (List.mem_of_getElem? (hwalk.getElem? hx))).exists_tracks

end Expr

open ReactiveTemplate.Expr

/-- Every variable that a source reads has exactly one target: the largest chain of plain member
accesses on it, as it stands among the marked expressions. The targets are in the order of the walk,
each has the path of its chain, and no two of them share a byte of the source. -/
theorem targets_of_parse {source : String} {es : List Expr} (h : parse source = .ok es) :
    ∃ reads : List (Site × Target),
      reads.map Prod.snd = targets (es.map mark) ∧
      (∀ site, site ∈ reads.map Prod.fst ↔ ReadsAt (es.map mark) site) ∧
      (reads.map Prod.fst).Nodup ∧
      (reads.map Prod.fst).Pairwise (Precedes id (es.map mark)) ∧
      (∀ r ∈ reads, LargestChain (es.map mark) r.1 r.2.expression ∧
        r.2.expression.path? = some r.2.path) ∧
      (targets (es.map mark)).Pairwise fun t u =>
        t.expression.span.Disjoint u.expression.span := by
  have hlaid := (laidOut_of_parse h).mark
  obtain ⟨reads, hreads⟩ := hlaid.exists_tracksAlong
  have htargets : reads.map Prod.snd = targets (es.map mark) := by
    rw [hreads.targets, targets_eq_flatMap]
  refine ⟨reads, htargets, ?_, ?_, hreads.order, ?_, hlaid.disjoint_targets⟩
  · intro site
    rw [hreads.complete, (isWalk_zipIdx _).readsAt_iff]
  · refine hreads.order.imp ?_
    rintro site site' hprecedes rfl
    exact not_precedes_self _ _ _ hprecedes
  · intro r hr
    refine ⟨hreads.largest r hr, hlaid.path?_of_mem_targets ?_⟩
    rw [← htargets]
    exact List.mem_map_of_mem hr

/-- The filter comes before its input, and the alternate of the conditional before the
consequent. -/
theorem targets_of_parse_filter :
    ∃ es, parse "x.y | f(z ? u : v)" = .ok es ∧
      (targets (es.map mark)).map Target.text = ["f", "x.y", "z", "v", "u"] ∧
      ∃ reads : List (Site × Target),
        reads.map Prod.snd = targets (es.map mark) ∧
        (∀ site, site ∈ reads.map Prod.fst ↔ ReadsAt (es.map mark) site) ∧
        (reads.map Prod.fst).Nodup ∧
        (reads.map Prod.fst).Pairwise (Precedes id (es.map mark)) ∧
        (∀ r ∈ reads, LargestChain (es.map mark) r.1 r.2.expression ∧
          r.2.expression.path? = some r.2.path) ∧
        (targets (es.map mark)).Pairwise fun t u =>
          t.expression.span.Disjoint u.expression.span := by
  obtain ⟨es, hparse, htexts⟩ :
      ∃ es, parse "x.y | f(z ? u : v)" = .ok es ∧
        (targets (es.map mark)).map Target.text = ["f", "x.y", "z", "v", "u"] :=
    exists_eq_ok_of_toOption (by decide +kernel)
  exact ⟨es, hparse, htexts, targets_of_parse hparse⟩

end ReactiveTemplate
