import Mathlib.Order.MinMax
import ReactiveTemplate.Proofs.Expr.Layout
import ReactiveTemplate.Proofs.Expr.Spans

/-!
# Borders of trees

The spans of trees and of refusals are joined from the spans of tokens. So each of them starts where
some token starts and stops where some token stops.
-/

namespace ReactiveTemplate

open ReactiveTemplate.Expr ReactiveTemplate.Spanned

/-! ## Spans made of tokens -/

/-- A change of spans that can be made before spans are joined or after. -/
def RespectsJoin (f : Span → Span) : Prop :=
  ∀ a b : Span, f (a.join b) = (f a).join (f b)

/-- Where bytes start and where they stop may be changed apart from each other. -/
theorem respectsJoin_of_monotone {p q : Nat → Nat} (hp : Monotone p) (hq : Monotone q) :
    RespectsJoin fun span => ⟨p span.start, q span.stop⟩ := by
  intro a b
  simp only [Span.join, hp.map_min, hq.map_max]

/-- The offset `n` is moved by one byte, and no other is. -/
def bump (n a : Nat) : Nat :=
  if a = n then n + 1 else a

/-- Moving one offset to the next changes no order, which makes it a change of spans that parsing
respects. -/
theorem monotone_bump (n : Nat) : Monotone (bump n) := by
  intro a b hle
  unfold bump
  split <;> split <;> omega

/-- Exactly one offset is moved. Hence a span that is made of tokens tells whether one of them
begins there. -/
theorem bump_eq_self_iff {n a : Nat} : bump n a = a ↔ a ≠ n := by
  unfold bump
  split <;> omega

namespace Span

variable {tokens : List Token} {span : Span}

/-- A span is made of tokens if changes that are the same on the tokens are the same on it. -/
def MadeOf (tokens : List Token) (span : Span) : Prop :=
  ∀ f g : Span → Span, RespectsJoin f → RespectsJoin g →
    (∀ token ∈ tokens, f token.span = g token.span) → f span = g span

/-- A span from the start of one token up to the end of another. -/
structure Bordered (tokens : List Token) (span : Span) : Prop where
  first : ∃ token ∈ tokens, token.span.start = span.start
  last : ∃ token ∈ tokens, token.span.stop = span.stop

namespace MadeOf

-- Whoever moves a border of the span by a byte has moved the border of some token.
/-- What is made of tokens begins where one begins and ends where one ends. Otherwise moving that
offset alone would change it, but none of the tokens. -/
theorem bordered (h : span.MadeOf tokens) : span.Bordered tokens := by
  refine ⟨?_, ?_⟩
  · by_contra hnone
    have hagree : ∀ token ∈ tokens,
        (⟨bump span.start token.span.start, token.span.stop⟩ : Span) = token.span := by
      intro token htoken
      rw [bump_eq_self_iff.mpr fun heq => hnone ⟨token, htoken, heq⟩]
    have hmoved := h _ id (respectsJoin_of_monotone (monotone_bump span.start) monotone_id)
      (fun _ _ => rfl) hagree
    exact bump_eq_self_iff.mp (congrArg Span.start hmoved) rfl
  · by_contra hnone
    have hagree : ∀ token ∈ tokens,
        (⟨token.span.start, bump span.stop token.span.stop⟩ : Span) = token.span := by
      intro token htoken
      rw [bump_eq_self_iff.mpr fun heq => hnone ⟨token, htoken, heq⟩]
    have hmoved := h _ id (respectsJoin_of_monotone monotone_id (monotone_bump span.stop))
      (fun _ _ => rfl) hagree
    exact bump_eq_self_iff.mp (congrArg Span.stop hmoved) rfl

/-- A span that is made of tokens that are not empty is not empty either. -/
theorem nonempty (h : span.MadeOf tokens)
    (htokens : ∀ token ∈ tokens, token.span.start < token.span.stop) : span.start < span.stop := by
  -- Each token has a byte in front of this offset or behind it, and so has what they make up.
  let reach (span' : Span) : Span :=
    if span'.start < span.start ∨ span.start < span'.stop then point 0 else ⟨1, 0⟩
  have hreach : RespectsJoin reach := by
    intro a b
    simp only [reach, join, lt_max_iff, min_lt_iff]
    split <;> split <;> split <;> first | rfl | omega
  have hagree : ∀ token ∈ tokens, reach token.span = point 0 := by
    intro token htoken
    have hpos := htokens token htoken
    exact if_pos (by omega)
  have hspan := h reach (fun _ => point 0) hreach (fun _ _ => rfl) hagree
  by_contra hempty
  rw [show reach span = ⟨1, 0⟩ from if_neg (by omega)] at hspan
  contradiction

end MadeOf

end Span

/-! ## Spans of trees -/

/-- The parts of a node with changed spans are the parts with changed spans. -/
@[simp]
theorem Expr.children_mapSpans {f : Span → Span} (e : Expr) :
    (mapSpans f e).children = mapSpans f e.children := by
  cases e with
  | identifier note name => rfl
  | literal note value raw => rfl
  | member note base property computed => cases computed <;> rfl
  | call note callee arguments filter =>
      rw [mapSpans_call]
      cases filter <;> cases arguments <;> rfl
  | conditional note test consequent alternate => rfl
  | object note properties =>
      have hparts (p : Property) : (mapSpans f p).parts = mapSpans f p.parts := by
        unfold Property.parts
        cases p with
        | mk key value computed shorthand => cases computed <;> rfl
      rw [mapSpans_object, children_object, children_object, mapSpans_eq_map, mapSpans_eq_map,
        List.flatMap_map, List.map_flatMap]
      simp only [hparts, mapSpans_eq_map]
  | array note elements =>
      rw [mapSpans_array]
      rfl
  | unary note operator before argument => rfl
  | binary note operator left right => rfl

namespace Expr

variable {f : Span → Span}

theorem below?_mapSpans (e : Expr) (site : Site) :
    (mapSpans f e).below? site = (e.below? site).map (mapSpans f) := by
  induction site generalizing e with
  | nil => rfl
  | cons i site ih =>
      rw [below?, below?, children_mapSpans, mapSpans_eq_map, List.getElem?_map]
      cases e.children[i]? with
      | none => rfl
      | some part => exact ih part

/-- Changing spans moves no node: at each site stands the node that stood there, with its span
changed. -/
theorem at?_mapSpans (es : List Expr) (site : Site) :
    at? (mapSpans f es) site = (at? es site).map (mapSpans f) := by
  cases site with
  | nil => rfl
  | cons i site =>
      rw [at?, at?, mapSpans_eq_map, List.getElem?_map]
      cases es[i]? with
      | none => rfl
      | some e => exact below?_mapSpans e site

end Expr

/-! ## Reading tokens -/

/-- Changes that are the same on the tokens are the same on what the tokens are read as. -/
theorem mapSpans_ofTokens_congr {tokens : List Token} {f g : Span → Span} (hf : RespectsJoin f)
    (hg : RespectsJoin g) (h : ∀ token ∈ tokens, f token.span = g token.span) :
    mapSpans f (Expr.ofTokens tokens) = mapSpans g (Expr.ofTokens tokens) := by
  have htokens : mapSpans f tokens = mapSpans g tokens := by
    refine List.map_congr_left fun token htoken => ?_
    exact congrArg (fun span => { token with span }) (h token htoken)
  rw [← ofTokens_mapSpans hf, htokens, ofTokens_mapSpans hg]

/-- The span of a node, wherever it is, is made of tokens. -/
theorem madeOf_of_at? {tokens : List Token} {es : List Expr} (h : Expr.ofTokens tokens = .ok es)
    {site : Site} {e : Expr} (hat : at? es site = some e) : e.span.MadeOf tokens := by
  intro f g hf hg hagree
  have hes := mapSpans_ofTokens_congr hf hg hagree
  rw [h] at hes
  have hsite : mapSpans f e = mapSpans g e := by
    have hsites := congrArg (at? · site) (Except.ok.inj hes)
    simpa only [at?_mapSpans, hat, Option.map_some, Option.some.injEq] using hsites
  have hspan := congrArg span hsite
  rwa [span_mapSpans, span_mapSpans] at hspan

/-- So is the place of a refusal, unless the tokens have run out. -/
theorem madeOf_of_refusal {tokens : List Token} {refusal : Refusal}
    (h : Expr.ofTokens tokens = .error refusal) {span : Span} (hplace : refusal.place = some span) :
    span.MadeOf tokens := by
  intro f g hf hg hagree
  have hrefusal := mapSpans_ofTokens_congr hf hg hagree
  rw [h] at hrefusal
  have hspan := congrArg Refusal.place (Except.error.inj hrefusal)
  change refusal.place.map f = refusal.place.map g at hspan
  rw [hplace] at hspan
  exact Option.some.inj hspan

/-! ## Sources -/

/-- A node that lies around its parts in a source of `size` bytes. -/
structure Expr.Nested (tokens : List Token) (size : Nat) (e : Expr) : Prop where
  nonempty : e.span.start < e.span.stop
  inside : e.span.stop ≤ size
  /-- It starts where a token starts and stops where a token stops. -/
  bordered : e.span.Bordered tokens
  parts : ∀ part ∈ e.children, e.span.start ≤ part.span.start ∧ part.span.stop ≤ e.span.stop
  /-- Each part stops before the next one starts. -/
  order : e.children.Pairwise fun a b => a.span.stop ≤ b.span.start
  /-- A filter has its input in front of its name. -/
  filter : ∀ note callee arguments, e = call note callee arguments true →
    ∃ input more, arguments = input :: more ∧ input.span.stop ≤ callee.span.start

/-- Every node of trees that are laid out is regular and ends within the bounds, however deep it
stands. -/
theorem Expr.LaidOut.regular_at {start stop : Nat} {es : List Expr} (h : LaidOut start stop es)
    {site : Site} {e : Expr} (hat : at? es site = some e) : e.Regular ∧ e.span.stop ≤ stop := by
  cases site with
  | nil => contradiction
  | cons i site =>
      obtain ⟨top, htop, hbelow⟩ := Option.bind_eq_some_iff.mp hat
      have hmem := List.mem_of_getElem? htop
      have hbounds := h.order.bounds_of_mem (List.mem_map_of_mem hmem)
      have hinside := (h.regular top hmem).span_below hbelow
      exact ⟨((h.regular top hmem).below? hbelow).root, by omega⟩

/-- A regular node between borders of tokens has all that is said of nodes: the order of its parts,
and where it begins and ends. -/
theorem Expr.Regular.nested {tokens : List Token} {size : Nat} {e : Expr} (h : e.Regular)
    (hinside : e.span.stop ≤ size) (hbordered : e.span.Bordered tokens) : e.Nested tokens size where
  nonempty := h.nonempty
  inside := hinside
  bordered := hbordered
  parts part hpart := by
    have hbounds := h.parts.bounds_of_mem (List.mem_map_of_mem hpart)
    exact ⟨hbounds.1, hbounds.2.2⟩
  order := List.pairwise_map.mp h.parts.pairwise
  filter := by
    rintro note callee arguments rfl
    obtain ⟨-, harguments⟩ := h.formed
    obtain ⟨input, more, rfl⟩ := List.exists_cons_of_ne_nil harguments
    have horder := List.pairwise_map.mp h.parts.pairwise
    exact ⟨input, more, rfl, List.rel_of_pairwise_cons horder List.mem_cons_self⟩

/-- The expressions of a source stand one behind the other, each node lies around its parts, and all
of them start and stop at borders of tokens. -/
theorem nested_of_parse {source : String} {es : List Expr} (h : parse source = .ok es) :
    ∃ tokens, tokenize source = .ok tokens ∧
      es.Pairwise (fun a b => a.span.stop ≤ b.span.start) ∧
      ∀ site e, at? es site = some e → e.Nested tokens (byteWidth source.toList) := by
  have hlaid := laidOut_of_parse h
  rw [parse] at h
  split at h
  · contradiction
  · next tokens htokens =>
      refine ⟨tokens, htokens, List.pairwise_map.mp hlaid.order.pairwise, ?_⟩
      split at h
      · next hread =>
          cases h
          intro site e hat
          obtain ⟨hregular, hinside⟩ := hlaid.regular_at hat
          exact hregular.nested hinside (madeOf_of_at? hread hat).bordered
      · contradiction

/-- A filter with an argument; the parentheses around its input are left out of the tree. -/
theorem nested_of_parse_filter :
    ∃ es tokens, parse "(ü + 1) | f(x,), y" = .ok es ∧ es.map span = [⟨1, 16⟩, ⟨18, 19⟩] ∧
      tokenize "(ü + 1) | f(x,), y" = .ok tokens ∧
      ∀ site e, at? es site = some e →
        e.Nested tokens (byteWidth "(ü + 1) | f(x,), y".toList) := by
  obtain ⟨es, hes, hspans⟩ :
      ∃ es, parse "(ü + 1) | f(x,), y" = .ok es ∧ es.map span = [⟨1, 16⟩, ⟨18, 19⟩] :=
    exists_eq_ok_of_toOption (by decide +kernel)
  obtain ⟨tokens, htokens, -, hnested⟩ := nested_of_parse hes
  exact ⟨es, tokens, hes, hspans, htokens, hnested⟩

end ReactiveTemplate
