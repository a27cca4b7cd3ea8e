import ReactiveTemplate.Expr.Watch

/-!
# Sites of nodes

A site says where a node stands among the expressions of a source, so that a variable that is read
twice has two sites. The walk over the expressions puts the sites in an order, and at each variable
a chain of plain member accesses starts.
-/

namespace ReactiveTemplate

/-- The way to a node: which of the expressions it is in, and which part to go to at each node. -/
abbrev Site :=
  List Nat

namespace Expr

/-- The node at the end of a way from `e` on. -/
def below? (e : Expr) : Site → Option Expr
  | [] => some e
  | i :: site => e.children[i]?.bind fun part => part.below? site

/-- The node at a site among `es`. -/
def at? (es : List Expr) : Site → Option Expr
  | [] => none
  | i :: site => es[i]?.bind fun e => e.below? site

/-- A variable stands at a site. -/
def ReadsAt (es : List Expr) (site : Site) : Prop :=
  ∃ note name, at? es site = some (identifier note name)

variable {es : List Expr} {e : Expr} {i : Nat} {site : Site}

theorem at?_cons (he : es[i]? = some e) (site : Site) : at? es (i :: site) = e.below? site := by
  rw [at?, he]
  rfl

theorem below?_of_ne_nil (h : site ≠ []) : e.below? site = at? e.children site := by
  cases site with
  | nil => contradiction
  | cons i site => rfl

theorem ne_nil_of_at? (h : at? es site = some e) : site ≠ [] := by
  rintro rfl
  contradiction

/-- A variable is read in the trees of a list exactly if it is read in the tree that the first index
names. -/
theorem readsAt_cons (he : es[i]? = some e) (site : Site) :
    ReadsAt es (i :: site) ↔ ∃ note name, e.below? site = some (identifier note name) := by
  rw [ReadsAt, at?_cons he]

/-! ## The walk -/

/-- The turn that a part of a node has when the node is walked through. Parts have their turns in
the order of the source, but for two kinds of node: a filter comes before its input, and the
alternate of a conditional comes before the consequent. -/
def turn : Expr → Nat → Nat
  | call _ _ _ true, 0 => 1
  | call _ _ _ true, 1 => 0
  | conditional .., 1 => 2
  | conditional .., 2 => 1
  | _, i => i

/-- One site comes before another in the walk over `es`, whose members have the given turns. -/
inductive Precedes : (Nat → Nat) → List Expr → Site → Site → Prop where
  | apart {turn : Nat → Nat} {es : List Expr} {i j : Nat} {site site' : Site}
      (h : turn i < turn j) : Precedes turn es (i :: site) (j :: site')
  | within {turn : Nat → Nat} {es : List Expr} {i : Nat} {e : Expr} {site site' : Site}
      (he : es[i]? = some e) (h : Precedes e.turn e.children site site') :
      Precedes turn es (i :: site) (i :: site')

/-- No site comes before itself, whatever turn the parts of each node take. Hence a walk names each
site once. -/
theorem not_precedes_self (turn : Nat → Nat) (es : List Expr) (site : Site) :
    ¬Precedes turn es site site := by
  induction site generalizing turn es with
  | nil => rintro ⟨⟩
  | cons i site ih =>
      rintro (h | ⟨-, h⟩)
      · exact Nat.lt_irrefl _ h
      · exact ih _ _ h

/-- `walk` goes over `es`, with the positions of its members, in the order of their turns. -/
structure IsWalk (turn : Nat → Nat) (es : List Expr) (walk : List (Expr × Nat)) : Prop where
  mem_iff : ∀ {e i}, (e, i) ∈ walk ↔ es[i]? = some e
  order : walk.Pairwise fun a b => turn a.2 < turn b.2

theorem IsWalk.getElem? {turn : Nat → Nat} {walk : List (Expr × Nat)} (h : IsWalk turn es walk)
    {x : Expr × Nat} (hx : x ∈ walk) : es[x.2]? = some x.1 :=
  h.mem_iff.mp hx

/-- A variable that is read is met on the walk. -/
theorem IsWalk.readsAt_iff {turn : Nat → Nat} {walk : List (Expr × Nat)}
    (h : IsWalk turn es walk) (site : Site) :
    ReadsAt es site ↔
      ∃ x ∈ walk, ∃ rest, site = x.2 :: rest ∧
        ∃ note name, x.1.below? rest = some (identifier note name) := by
  constructor
  · intro hreads
    obtain ⟨note, name, hat⟩ := hreads
    obtain ⟨i, rest, rfl⟩ := List.exists_cons_of_ne_nil (ne_nil_of_at? hat)
    obtain ⟨e, he, hbelow⟩ := Option.bind_eq_some_iff.mp hat
    exact ⟨(e, i), h.mem_iff.mpr he, rest, rfl, note, name, hbelow⟩
  · rintro ⟨x, hx, rest, rfl, hbelow⟩
    exact (readsAt_cons (h.getElem? hx) rest).mpr hbelow

/-- The parts of a node with their positions, in the order of the walk. -/
def walk : Expr → List (Expr × Nat)
  | call _ callee (input :: arguments) true => (callee, 1) :: (input, 0) :: arguments.zipIdx 2
  | conditional _ test consequent alternate => [(test, 0), (alternate, 2), (consequent, 1)]
  | e => e.children.zipIdx

theorem pairwise_zipIdx (es : List Expr) (start : Nat) :
    (es.zipIdx start).Pairwise fun a b => a.2 < b.2 := by
  have hrange := List.pairwise_lt_range' (s := start) (n := es.length)
  rwa [← List.zipIdx_map_snd, List.pairwise_map] at hrange

/-- Behind its input, the arguments of a filter have their turns in the order of the source. -/
theorem turn_filter {note : Note} {callee : Expr} {arguments : List Expr} {i : Nat} (hi : 2 ≤ i) :
    (call note callee arguments true).turn i = i := by
  rcases i with _ | _ | i
  · contradiction
  · contradiction
  · rfl

/-- Every part has a turn of its own. -/
theorem pairwise_walk (e : Expr) : e.walk.Pairwise fun a b => e.turn a.2 < e.turn b.2 := by
  cases e with
  | call note callee arguments filter =>
      cases arguments with
      | nil => cases filter <;> exact .cons (by simp) .nil
      | cons input arguments =>
          cases filter with
          | false => exact pairwise_zipIdx _ 0
          | true =>
              have hlater : ∀ x ∈ arguments.zipIdx 2, 2 ≤ x.2 :=
                fun x hx => List.le_snd_of_mem_zipIdx hx
              refine .cons ?_ (.cons ?_ ?_)
              · intro x hx
                rcases List.mem_cons.mp hx with rfl | hx
                · exact Nat.zero_lt_one
                · rw [turn_filter (hlater x hx)]
                  exact Nat.lt_of_lt_of_le Nat.zero_lt_two (hlater x hx)
              · intro x hx
                rw [turn_filter (hlater x hx)]
                exact hlater x hx
              · refine (pairwise_zipIdx arguments 2).imp_of_mem fun ha hb hlt => ?_
                rwa [turn_filter (hlater _ ha), turn_filter (hlater _ hb)]
  | conditional note test consequent alternate => simp [walk, turn]
  | _ => exact pairwise_zipIdx _ 0

/-- A walk meets every evaluated part of a node, each with its index, and nothing else. Only the
order is its own. -/
theorem mem_walk_iff {e part : Expr} {i : Nat} :
    (part, i) ∈ e.walk ↔ e.children[i]? = some part := by
  cases e with
  | call note callee arguments filter =>
      cases arguments with
      | nil => exact List.mk_mem_zipIdx_iff_getElem?
      | cons input arguments =>
          cases filter with
          | false => exact List.mk_mem_zipIdx_iff_getElem?
          | true =>
              rcases i with _ | _ | i <;>
                simp [walk, children, List.mk_mem_zipIdx_iff_le_and_getElem?_sub, eq_comm]
  | conditional note test consequent alternate =>
      rcases i with _ | _ | _ | i <;> simp [walk, children, eq_comm]
  | _ => exact List.mk_mem_zipIdx_iff_getElem?

/-- The parts of each node are gone through in the order of their turns, which is what the order of
sites asks for. -/
theorem isWalk_walk (e : Expr) : IsWalk e.turn e.children e.walk :=
  ⟨mem_walk_iff, pairwise_walk e⟩

/-- The expressions of a source are walked through from the first to the last. -/
theorem isWalk_zipIdx (es : List Expr) : IsWalk id es es.zipIdx :=
  ⟨List.mk_mem_zipIdx_iff_getElem?, pairwise_zipIdx es 0⟩

/-! ## Chains -/

/-- `e.IsChain site` says that `e` is a chain of plain member accesses on the variable at `site`
below it. -/
inductive IsChain : Expr → Site → Prop where
  | root {note : Note} {name : String} : IsChain (identifier note name) []
  | access {note : Note} {base property : Expr} {site : Site} (h : base.IsChain site) :
      IsChain (member note base property false) (0 :: site)

/-- The largest chain on the variable at a site. -/
def LargestChain (es : List Expr) (site : Site) (chain : Expr) : Prop :=
  ∃ top rest, site = top ++ rest ∧ at? es top = some chain ∧ chain.IsChain rest ∧
    ∀ top' rest' chain', site = top' ++ rest' → at? es top' = some chain' →
      chain'.IsChain rest' → rest'.length ≤ rest.length

/-- A chain of accesses down to a variable is a whole that can be watched, whether its properties
are names or computed. -/
theorem isWatchable_of_isChain (h : e.IsChain site) : e.isWatchable := by
  induction h with
  | root => rfl
  | access h ih => exact ih

/-- Everything that can be watched is a chain, and going down its bases leads to the variable at its
root. -/
theorem exists_isChain : (e : Expr) → e.isWatchable → ∃ site, e.IsChain site
  | identifier .., _ => ⟨[], .root⟩
  | member _ base _ false, h =>
      have ⟨site, hchain⟩ := exists_isChain base h
      ⟨0 :: site, .access hchain⟩

/-- A chain holds a single variable. -/
theorem IsChain.below?_iff (h : e.IsChain site) (site' : Site) :
    (∃ note name, e.below? site' = some (identifier note name)) ↔ site' = site := by
  induction h generalizing site' with
  | root =>
      cases site' with
      | nil => simp [below?]
      | cons i site' => simp [below?, children]
  | access h ih =>
      cases site' with
      | nil => simp [below?]
      | cons i site' =>
          cases i with
          | zero => simp [below?, children, ih]
          | succ i => simp [below?, children]

end Expr

end ReactiveTemplate
