import ReactiveTemplate.Expr.Grammar
import ReactiveTemplate.Proofs.Expr.ParserLaws

/-!
# Parsing does not look at spans

Spans are carried along from tokens to trees and to refusals, but nothing depends on them. So a
change of the spans of the tokens, such as a shift or the loss of all of them, is the same change of
the spans of the result.
-/

namespace ReactiveTemplate

/-- Data in which spans occur. -/
class Spanned (α : Type) where
  /-- The same data with every span changed. -/
  mapSpans : (Span → Span) → α → α

open Spanned

instance : Spanned Span :=
  ⟨fun f => f⟩

instance : Spanned Token :=
  ⟨fun f token => { token with span := f token.span }⟩

instance : Spanned Refusal :=
  ⟨fun f refusal => { refusal with place := refusal.place.map f }⟩

instance {α : Type} [Spanned α] : Spanned (List α) :=
  ⟨fun f => List.map (mapSpans f)⟩

instance {α β : Type} [Spanned α] [Spanned β] : Spanned (α × β) :=
  ⟨fun f => Prod.map (mapSpans f) (mapSpans f)⟩

instance {ε α : Type} [Spanned ε] [Spanned α] : Spanned (Except ε α) where
  mapSpans f
    | .ok a => .ok (mapSpans f a)
    | .error e => .error (mapSpans f e)

/-! ## Trees -/

/-- The note with another span. -/
def Note.mapSpan (f : Span → Span) (note : Note) : Note :=
  { note with span := f note.span }

namespace Expr

mutual

/-- A tree with every span changed. -/
def respan (f : Span → Span) : Expr → Expr
  | identifier note name => identifier (note.mapSpan f) name
  | literal note value raw => literal (note.mapSpan f) value raw
  | member note base property computed =>
      member (note.mapSpan f) (base.respan f) (property.respan f) computed
  | call note callee arguments filter =>
      call (note.mapSpan f) (callee.respan f) (respanAll f arguments) filter
  | conditional note test consequent alternate =>
      conditional (note.mapSpan f) (test.respan f) (consequent.respan f) (alternate.respan f)
  | object note properties => object (note.mapSpan f) (respanProperties f properties)
  | array note elements => array (note.mapSpan f) (respanAll f elements)
  | unary note operator before argument =>
      unary (note.mapSpan f) operator before (argument.respan f)
  | binary note operator left right =>
      binary (note.mapSpan f) operator (left.respan f) (right.respan f)

/-- Trees with every span changed. -/
def respanAll (f : Span → Span) : List Expr → List Expr
  | [] => []
  | e :: es => e.respan f :: respanAll f es

/-- Properties with every span changed. -/
def respanProperties (f : Span → Span) : List Property → List Property
  | [] => []
  | ⟨key, value, computed, shorthand⟩ :: ps =>
      ⟨key.respan f, value.respan f, computed, shorthand⟩ :: respanProperties f ps

end

end Expr

instance : Spanned Expr :=
  ⟨Expr.respan⟩

instance : Spanned Property :=
  ⟨fun f p => { p with key := mapSpans f p.key, value := mapSpans f p.value }⟩

instance : Spanned Levels.FilterCall :=
  ⟨fun f call => ⟨mapSpans f call.name, mapSpans f call.arguments, f call.stop⟩⟩

variable {f : Span → Span}

@[simp]
theorem mapSpans_nil {α : Type} [Spanned α] : mapSpans f ([] : List α) = [] :=
  rfl

@[simp]
theorem mapSpans_cons {α : Type} [Spanned α] (a : α) (as : List α) :
    mapSpans f (a :: as) = mapSpans f a :: mapSpans f as :=
  rfl

theorem mapSpans_eq_map {α : Type} [Spanned α] (as : List α) :
    mapSpans f as = as.map (mapSpans f) :=
  rfl

@[simp]
theorem mapSpans_pair {α β : Type} [Spanned α] [Spanned β] (a : α) (b : β) :
    mapSpans f (a, b) = (mapSpans f a, mapSpans f b) :=
  rfl

@[simp]
theorem fst_mapSpans {α β : Type} [Spanned α] [Spanned β] (r : α × β) :
    (mapSpans f r).1 = mapSpans f r.1 :=
  rfl

@[simp]
theorem snd_mapSpans {α β : Type} [Spanned α] [Spanned β] (r : α × β) :
    (mapSpans f r).2 = mapSpans f r.2 :=
  rfl

@[simp]
theorem mapSpans_ok {ε α : Type} [Spanned ε] [Spanned α] (a : α) :
    mapSpans f (.ok a : Except ε α) = .ok (mapSpans f a) :=
  rfl

@[simp]
theorem mapSpans_error {ε α : Type} [Spanned ε] [Spanned α] (e : ε) :
    mapSpans f (.error e : Except ε α) = .error (mapSpans f e) :=
  rfl

@[simp]
theorem mapSpans_span (span : Span) : mapSpans f span = f span :=
  rfl

@[simp]
theorem Note.mapSpan_mk (span : Span) (constant : Option Bool) :
    Note.mapSpan f ⟨span, constant⟩ = ⟨f span, constant⟩ :=
  rfl

@[simp]
theorem Levels.mapSpans_filterCall (name : Token) (arguments : List Expr) (stop : Span) :
    mapSpans f (⟨name, arguments, stop⟩ : FilterCall) =
      ⟨mapSpans f name, mapSpans f arguments, f stop⟩ :=
  rfl

namespace Token

variable (token : Token) (text : String)

@[simp]
theorem kind_mapSpans : (mapSpans f token).kind = token.kind :=
  rfl

@[simp]
theorem text_mapSpans : (mapSpans f token).text = token.text :=
  rfl

@[simp]
theorem span_mapSpans : (mapSpans f token).span = f token.span :=
  rfl

@[simp]
theorem isPunctuation_mapSpans : (mapSpans f token).isPunctuation text = token.isPunctuation text :=
  rfl

@[simp]
theorem isOperator_mapSpans : (mapSpans f token).isOperator text = token.isOperator text :=
  rfl

end Token

namespace Expr

theorem respanAll_eq (es : List Expr) : respanAll f es = mapSpans f es := by
  induction es with
  | nil => rfl
  | cons e es ih =>
      rw [respanAll, ih]
      rfl

theorem respanProperties_eq (ps : List Property) : respanProperties f ps = mapSpans f ps := by
  induction ps with
  | nil => rfl
  | cons p ps ih =>
      obtain ⟨key, value, computed, shorthand⟩ := p
      rw [respanProperties, ih]
      rfl

variable {note : Note}

@[simp]
theorem mapSpans_identifier (name : String) :
    mapSpans f (identifier note name) = identifier (note.mapSpan f) name :=
  rfl

@[simp]
theorem mapSpans_literal (value : Value) (raw : String) :
    mapSpans f (literal note value raw) = literal (note.mapSpan f) value raw :=
  rfl

@[simp]
theorem mapSpans_member (base property : Expr) (computed : Bool) :
    mapSpans f (member note base property computed) =
      member (note.mapSpan f) (mapSpans f base) (mapSpans f property) computed :=
  rfl

@[simp]
theorem mapSpans_call (callee : Expr) (arguments : List Expr) (filter : Bool) :
    mapSpans f (call note callee arguments filter) =
      call (note.mapSpan f) (mapSpans f callee) (mapSpans f arguments) filter :=
  congrArg (call _ _ · filter) (respanAll_eq arguments)

@[simp]
theorem mapSpans_conditional (test consequent alternate : Expr) :
    mapSpans f (conditional note test consequent alternate) =
      conditional (note.mapSpan f) (mapSpans f test) (mapSpans f consequent)
        (mapSpans f alternate) :=
  rfl

@[simp]
theorem mapSpans_object (properties : List Property) :
    mapSpans f (object note properties) = object (note.mapSpan f) (mapSpans f properties) :=
  congrArg (object _) (respanProperties_eq properties)

@[simp]
theorem mapSpans_array (elements : List Expr) :
    mapSpans f (array note elements) = array (note.mapSpan f) (mapSpans f elements) :=
  congrArg (array _) (respanAll_eq elements)

@[simp]
theorem mapSpans_unary (operator : UnaryOp) (before : Bool) (argument : Expr) :
    mapSpans f (unary note operator before argument) =
      unary (note.mapSpan f) operator before (mapSpans f argument) :=
  rfl

@[simp]
theorem mapSpans_binary (operator : BinaryOp) (left right : Expr) :
    mapSpans f (binary note operator left right) =
      binary (note.mapSpan f) operator (mapSpans f left) (mapSpans f right) :=
  rfl

@[simp]
theorem mapSpans_ofName (token : Token) :
    mapSpans f (ofName token) = ofName (mapSpans f token) :=
  rfl

@[simp]
theorem mapSpans_ofValue (token : Token) (value : Value) :
    mapSpans f (ofValue token value) = ofValue (mapSpans f token) value :=
  rfl

@[simp]
theorem span_mapSpans (e : Expr) : (mapSpans f e).span = f e.span := by
  cases e <;> rfl

mutual

/-- Spans play no part in the height of a tree. The proof goes along the three recursions by which
heights are defined. -/
theorem height_respan : ∀ e : Expr, (e.respan f).height = e.height
  | identifier .. | literal .. => rfl
  | member _ base property _ => by
      simp only [respan, height, height_respan base, height_respan property]
  | call _ callee arguments _ => by
      simp only [respan, height, height_respan callee, tallest_respan]
  | conditional _ test consequent alternate => by
      simp only [respan, height, height_respan test, height_respan consequent,
        height_respan alternate]
  | object _ properties => by simp only [respan, height, tallestProperty_respan]
  | array _ elements => by simp only [respan, height, tallest_respan]
  | unary _ _ _ argument => by simp only [respan, height, height_respan argument]
  | binary _ _ left right => by
      simp only [respan, height, height_respan left, height_respan right]

theorem tallest_respan : ∀ (es : List Expr) (most : Nat),
    tallest most (respanAll f es) = tallest most es
  | [], _ => rfl
  | e :: es, _ => by simp only [respanAll, tallest, height_respan e, tallest_respan es]

theorem tallestProperty_respan : ∀ (ps : List Property) (most : Nat),
    tallestProperty most (respanProperties f ps) = tallestProperty most ps
  | [], _ => rfl
  | ⟨key, value, _, _⟩ :: ps, _ => by
      simp only [respanProperties, tallestProperty, height_respan key, height_respan value,
        tallestProperty_respan ps]

end

/-- The height of a tree is the same with other spans, so that the bound on heights refuses the same
trees. -/
@[simp]
theorem height_mapSpans (e : Expr) : (mapSpans f e).height = e.height :=
  height_respan e

/-- The bound on heights does not depend on spans. -/
theorem bounded_eq {e e' : Expr} (h : e' = mapSpans f e) :
    e'.bounded = mapSpans f e.bounded := by
  rw [h, bounded, bounded, height_mapSpans, span_mapSpans]
  split <;> rfl

end Expr

/-! ## Parsers -/

namespace Parser

variable {α β : Type} [Spanned α] [Spanned β]

/-- `q` reads tokens with changed spans as `p` reads them with their own. -/
def Commutes (f : Span → Span) (p q : Parser α) : Prop :=
  ∀ tokens, q.run (mapSpans f tokens) = mapSpans f (p.run tokens)

/-- A step behaves the same way, whether the spans are changed before it or after it. -/
def StepCommutes (f : Span → Span) (step step' : α → Token → Option (Parser α)) : Prop :=
  ∀ a token, (step a token).Rel (Commutes f) (step' (mapSpans f a) (mapSpans f token))

/-- What a token decides does not depend on its span. -/
inductive DecidesAlike (f : Span → Span) : Decision Parser α → Decision Parser α → Prop where
  | finish (a : α) : DecidesAlike f (.finish a) (.finish (mapSpans f a))
  | refuse (fault : Fault) : DecidesAlike f (.refuse fault) (.refuse fault)
  | proceed {p q : Parser α} (h : Commutes f p q) : DecidesAlike f (.proceed p) (.proceed q)

theorem DecidesAlike.ite {c : Prop} [Decidable c] {d₁ d₁' d₂ d₂' : Decision Parser α}
    (h₁ : DecidesAlike f d₁ d₁') (h₂ : DecidesAlike f d₂ d₂') :
    DecidesAlike f (if c then d₁ else d₂) (if c then d₁' else d₂') := by
  split
  · exact h₁
  · exact h₂

variable {p q : Parser α}

theorem commutes_refuse (fault : Fault) : Commutes f (refuse fault : Parser α) (refuse fault) := by
  intro tokens
  cases tokens <;> rfl

/-- A reader that takes one token treats tokens with other spans alike, if what the token decides
does not depend on its span. -/
theorem commutes_first {decide decide' : Token → Decision Parser α}
    (h : ∀ token, DecidesAlike f (decide token) (decide' (mapSpans f token))) :
    Commutes f (first decide) (first decide') := by
  intro tokens
  cases tokens with
  | nil => rfl
  | cons token rest =>
      have hdecide := h token
      simp only [first, mapSpans_cons]
      generalize decide token = d at hdecide ⊢
      generalize decide' (mapSpans f token) = d' at hdecide ⊢
      cases hdecide with
      | finish a => rfl
      | refuse fault => rfl
      | proceed h => exact h rest

/-- A choice between two readers is made without looking at spans if it names readers that do not
look at them, for the same tokens. -/
theorem Commutes.orAfter {choose choose' : Token → Option (Parser α)} (hp : Commutes f p q)
    (h : ∀ token, (choose token).Rel (Commutes f) (choose' (mapSpans f token))) :
    Commutes f (p.orAfter choose) (q.orAfter choose') := by
  intro tokens
  cases tokens with
  | nil => exact hp []
  | cons token rest =>
      have hchoose := h token
      simp only [Parser.orAfter, mapSpans_cons]
      generalize choose token = c at hchoose ⊢
      generalize choose' (mapSpans f token) = c' at hchoose ⊢
      cases hchoose with
      | some h => exact h rest
      | none => exact hp (token :: rest)

theorem Commutes.bind {k k' : α → Parser β} (hp : Commutes f p q)
    (hk : ∀ a, Commutes f (k a) (k' (mapSpans f a))) : Commutes f (p.bind k) (q.bind k') := by
  intro tokens
  simp only [Parser.bind, hp tokens]
  cases p.run tokens with
  | error refusal => rfl
  | ok r => exact hk r.1 r.2

theorem Commutes.build {k k' : α → Except Refusal β} (hp : Commutes f p q)
    (hk : ∀ a, k' (mapSpans f a) = mapSpans f (k a)) : Commutes f (p.build k) (q.build k') := by
  intro tokens
  simp only [Parser.build, hp tokens]
  cases p.run tokens with
  | error refusal => rfl
  | ok r =>
      obtain ⟨a, rest⟩ := r
      simp only [mapSpans_ok, mapSpans_pair, hk a]
      cases k a <;> rfl

theorem Commutes.map {k k' : α → β} (hp : Commutes f p q)
    (hk : ∀ a, k' (mapSpans f a) = mapSpans f (k a)) : Commutes f (p.map k) (q.map k') :=
  hp.build fun a => congrArg Except.ok (hk a)

theorem StepCommutes.of_none {step step' : α → Token → Option (Parser α)}
    (hstep : StepCommutes f step step') {a : α} {token : Token} (h : step a token = none) :
    step' (mapSpans f a) (mapSpans f token) = none := by
  have hnext := hstep a token
  rw [h] at hnext
  generalize step' (mapSpans f a) (mapSpans f token) = next at hnext
  cases hnext
  rfl

theorem StepCommutes.of_some {step step' : α → Token → Option (Parser α)}
    (hstep : StepCommutes f step step') {a : α} {token : Token} (h : step a token = some p) :
    ∃ q, step' (mapSpans f a) (mapSpans f token) = some q ∧ Commutes f p q := by
  have hnext := hstep a token
  rw [h] at hnext
  generalize step' (mapSpans f a) (mapSpans f token) = next at hnext
  cases hnext with
  | some hpq => exact ⟨_, rfl, hpq⟩

theorem Commutes.follow {step step' : α → Token → Option (Parser α)} (hp : Commutes f p q)
    (hstep : StepCommutes f step step') : Commutes f (p.follow step) (q.follow step') := by
  intro tokens
  simp only [Parser.follow, hp tokens]
  rcases p.run tokens with refusal | ⟨a, _ | ⟨token, rest⟩⟩
  · rfl
  · rfl
  · simp only [mapSpans_ok, mapSpans_pair, mapSpans_cons]
    cases hnext : step a token with
    | none =>
        rw [hstep.of_none hnext]
        rfl
    | some next =>
        obtain ⟨next', hnext', hcommutes⟩ := hstep.of_some hnext
        rw [hnext']
        exact hcommutes rest

/-- A repetition takes as many rounds for the tokens with other spans, and comes to the same result
with those spans. -/
theorem repeatFrom_mapSpans {step step' : α → Token → Option (Parser α)}
    (hstep : StepCommutes f step step') (a : α) (tokens : List Token) :
    repeatFrom step' (mapSpans f a) (mapSpans f tokens) =
      mapSpans f (repeatFrom step a tokens) := by
  fun_induction repeatFrom step a tokens with
  | case1 a => exact repeatFrom_of_none (by simp)
  | case2 a token rest hnone =>
      apply repeatFrom_of_none
      intro token' htoken
      cases htoken
      exact hstep.of_none hnone
  | case3 a token rest p hp a' rest' hrun ih =>
      obtain ⟨q, hq, hpq⟩ := hstep.of_some hp
      rw [mapSpans_cons, repeatFrom_cons hq, hpq rest, hrun]
      exact ih
  | case4 a token rest p hp refusal hrun =>
      obtain ⟨q, hq, hpq⟩ := hstep.of_some hp
      rw [mapSpans_cons, repeatFrom_cons hq, hpq rest, hrun]
      rfl

theorem Commutes.chain {step step' : α → Token → Option (Parser α)} (hp : Commutes f p q)
    (hstep : StepCommutes f step step') : Commutes f (p.chain step) (q.chain step') := by
  intro tokens
  simp only [Parser.chain, hp tokens]
  cases p.run tokens with
  | error refusal => rfl
  | ok r => exact repeatFrom_mapSpans hstep r.1 r.2

theorem commutes_expect (text : String) : Commutes f (expect text) (expect text) := by
  apply commutes_first
  intro token
  rw [show (mapSpans f token).isPunctuation text = token.isPunctuation text from rfl]
  split
  · exact .finish token.span
  · exact .refuse _

theorem take?_mapSpans (text : String) (tokens : List Token) :
    take? text (mapSpans f tokens) = (take? text tokens).map (mapSpans f) := by
  cases tokens with
  | nil => rfl
  | cons token rest =>
      rw [mapSpans_cons, take?, take?]
      rw [show (mapSpans f token).isPunctuation text = token.isPunctuation text from rfl]
      split <;> rfl

theorem mapSpans_reverse (as : List α) : mapSpans f as.reverse = (mapSpans f as).reverse :=
  List.map_reverse

/-- A list in brackets is read item by item with other spans. The items that are read so far get
those spans, too. -/
theorem itemsFrom_mapSpans (hp : Commutes f p q) (close : String) (done : List α)
    (tokens : List Token) :
    itemsFrom q close (mapSpans f done) (mapSpans f tokens) =
      mapSpans f (itemsFrom p close done tokens) := by
  fun_induction itemsFrom p close done tokens with
  | case1 done tokens span rest htake =>
      rw [itemsFrom, take?_mapSpans, htake]
      simp only [Option.map_some, mapSpans_ok, mapSpans_pair, mapSpans_reverse]
  | case2 done tokens htake refusal hrun =>
      rw [itemsFrom_of_open (by rw [take?_mapSpans, htake]; rfl), hp tokens, hrun]
      rfl
  | case3 done tokens htake a rest hrun span rest' hcomma ih =>
      rw [itemsFrom_of_open (by rw [take?_mapSpans, htake]; rfl), hp tokens, hrun]
      simp only [mapSpans_ok, mapSpans_pair, take?_mapSpans, hcomma, Option.map_some]
      exact ih
  | case4 done tokens htake a rest hrun hcomma span rest' hclose =>
      rw [itemsFrom_of_open (by rw [take?_mapSpans, htake]; rfl), hp tokens, hrun]
      simp only [mapSpans_ok, mapSpans_pair, take?_mapSpans, hcomma, Option.map_none,
        commutes_expect close rest, hclose, mapSpans_reverse, mapSpans_cons]
  | case5 done tokens htake a rest hrun hcomma refusal hclose =>
      rw [itemsFrom_of_open (by rw [take?_mapSpans, htake]; rfl), hp tokens, hrun]
      simp only [mapSpans_ok, mapSpans_pair, take?_mapSpans, hcomma, Option.map_none,
        commutes_expect close rest, hclose, mapSpans_error]

theorem Commutes.items (hp : Commutes f p q) (close : String) :
    Commutes f (items p close) (items q close) :=
  fun tokens => itemsFrom_mapSpans hp close [] tokens

/-- A list without brackets is read alike with other spans, up to its end or up to the same refusal
at the other span. -/
theorem separatedFrom_mapSpans (hp : Commutes f p q) (done : List α) (tokens : List Token) :
    separatedFrom q (mapSpans f done) (mapSpans f tokens) =
      mapSpans f (separatedFrom p done tokens) := by
  fun_induction separatedFrom p done tokens with
  | case1 done tokens refusal hrun =>
      rw [separatedFrom_eq, hp tokens, hrun]
      rfl
  | case2 done tokens a hrun =>
      rw [separatedFrom_eq, hp tokens, hrun]
      simp only [mapSpans_ok, mapSpans_pair, mapSpans_nil, separatedFromRest, mapSpans_reverse,
        mapSpans_cons]
  | case3 done tokens a token rest hrun hcomma ih =>
      rw [separatedFrom_eq, hp tokens, hrun]
      simp only [mapSpans_ok, mapSpans_pair, mapSpans_cons, separatedFromRest]
      rw [if_pos (show (mapSpans f token).isPunctuation "," from hcomma)]
      exact ih
  | case4 done tokens a token rest hrun hcomma =>
      rw [separatedFrom_eq, hp tokens, hrun]
      simp only [mapSpans_ok, mapSpans_pair, mapSpans_cons, separatedFromRest]
      rw [if_neg (show ¬(mapSpans f token).isPunctuation "," from hcomma)]
      rfl

theorem Commutes.separated (hp : Commutes f p q) (tokens : List Token) :
    separated q (mapSpans f tokens) = mapSpans f (separated p tokens) := by
  cases tokens with
  | nil => rfl
  | cons token rest => exact separatedFrom_mapSpans hp [] (token :: rest)

end Parser

/-! ## The levels of the grammar -/

namespace Levels

open ReactiveTemplate.Expr ReactiveTemplate.Parser

theorem commutes_name : Commutes f name name := by
  apply commutes_first
  intro token
  rw [Token.kind_mapSpans]
  split
  · exact .finish token
  · exact .refuse _

/-- The levels that nested parts start from do not look at spans. -/
structure Unspanned (f : Span → Span) (inner : Levels Parser) : Prop where
  filters : Commutes f inner.filters inner.filters
  conditional : Commutes f inner.conditional inner.conditional
  unary : Commutes f inner.unary inner.unary

namespace Unspanned

variable {inner : Levels Parser} (h : inner.Unspanned f)
include h

/-- The value behind a key is read without a look at spans. The key comes from outside and has its
spans changed as well. -/
theorem keyValue (key : Expr) (computed : Bool) :
    Commutes f (inner.keyValue key computed) (inner.keyValue (mapSpans f key) computed) :=
  (commutes_expect ":").bind fun _ => h.filters.map fun _ => rfl

/-- The way a key is written is told from the kind and the text of its first token, never from its
span. -/
theorem key : Commutes f (Levels.key inner) (Levels.key inner) := by
  apply commutes_first
  intro token
  simp only [Token.kind_mapSpans, Token.isPunctuation_mapSpans, Token.text_mapSpans]
  rcases token.kind with _ | x | x | _ | _
  · dsimp only
    apply DecidesAlike.ite
    · exact .proceed (h.keyValue (ofName token) false)
    · exact .finish (⟨ofName token, ofName token, false, true⟩ : Property)
  · exact .proceed (h.keyValue (ofValue token (.number x)) false)
  · exact .proceed (h.keyValue (ofValue token (.string x)) false)
  all_goals
    apply DecidesAlike.ite
    · exact .proceed (h.filters.bind fun key => (commutes_expect "]").bind
        fun _ => h.keyValue key true)
    · exact .refuse (.invalidKey token.text)

theorem property : Commutes f (Levels.property inner) (Levels.property inner) := by
  refine h.key.follow fun p token => ?_
  rw [Token.isPunctuation_mapSpans, show (mapSpans f p).shorthand = p.shorthand from rfl]
  split
  · exact .some (h.filters.map fun _ => rfl)
  · exact .none

theorem filterCall : Commutes f (Levels.filterCall inner) (Levels.filterCall inner) := by
  have hname : Commutes f
      (Parser.map name fun name => (⟨name, [], name.span⟩ : Levels.FilterCall))
      (Parser.map name fun name => (⟨name, [], name.span⟩ : Levels.FilterCall)) :=
    commutes_name.map fun _ => rfl
  refine hname.follow fun call token => ?_
  rw [Token.isPunctuation_mapSpans]
  split
  · exact .some ((h.filters.items ")").map fun _ => rfl)
  · exact .none

variable (hf : ∀ a b : Span, f (a.join b) = (f a).join (f b))
include hf

/-- Arrays and objects span from their opening to their closing bracket; that joining spans commutes
with the change is needed from here on. -/
theorem primary : Commutes f (Levels.primary inner) (Levels.primary inner) := by
  apply commutes_first
  intro token
  simp only [Token.kind_mapSpans, Token.isPunctuation_mapSpans, Token.text_mapSpans,
    Token.span_mapSpans]
  rcases token.kind with _ | x | x | _ | _
  · dsimp only
    split
    · exact .finish (ofValue token _)
    · exact .finish (ofName token)
  · exact .finish (ofValue token (.number x))
  · exact .finish (ofValue token (.string x))
  all_goals
    refine .ite (.proceed ?_) (.ite (.proceed ?_) (.ite (.proceed ?_) (.refuse _)))
    · exact h.filters.bind fun e => (commutes_expect ")").map fun _ => rfl
    · exact (h.filters.items "]").build fun r => bounded_eq (by simp [hf])
    · exact (h.property.items r"}").build fun r => bounded_eq (by simp [hf])

/-- The span of a call or an access joins the span of what is called or accessed with that of the
last token. -/
theorem suffix : StepCommutes f (Levels.suffix inner) (Levels.suffix inner) := by
  intro e token
  simp only [Levels.suffix, Token.isPunctuation_mapSpans, span_mapSpans]
  split
  · exact .some ((h.filters.items ")").build fun r => bounded_eq (by simp [hf]))
  · split
    · refine .some (h.filters.bind fun index => (commutes_expect "]").build fun close => ?_)
      exact bounded_eq (by simp [hf])
    · split
      · exact .some (commutes_name.build fun name => bounded_eq (by simp [hf]))
      · exact .none

theorem postfixes : Commutes f (Levels.postfixes inner) (Levels.postfixes inner) :=
  (h.primary hf).chain (h.suffix hf)

theorem unaries : Commutes f (Levels.unaries inner) (Levels.unaries inner) := by
  refine (h.postfixes hf).orAfter fun token => ?_
  rw [show unaryOp? (mapSpans f token) = unaryOp? token from rfl]
  cases unaryOp? token with
  | none => exact .none
  | some operator => exact .some (h.unary.build fun argument => bounded_eq (by simp [hf]))

omit h in
/-- Operators of one level are recognized by their texts, and the span of an operation joins those
of its operands. -/
theorem binaries {operand : Parser Expr} (hoperand : Commutes f operand operand)
    (operators : List BinaryOp) :
    Commutes f (Levels.binaries operators operand) (Levels.binaries operators operand) := by
  refine hoperand.chain fun left token => ?_
  rw [Levels.operation, Levels.operation,
    show binaryOp? operators (mapSpans f token) = binaryOp? operators token from rfl]
  cases binaryOp? operators token with
  | none => exact .none
  | some operator => exact .some (hoperand.build fun right => bounded_eq (by simp [hf]))

/-- The levels of operators are gone through one by one, in the order of the list that the grammar
folds over. -/
theorem operations : Commutes f (Levels.operations inner) (Levels.operations inner) := by
  rw [Levels.operations]
  generalize BinaryOp.levels = levels
  induction levels with
  | nil => exact h.unaries hf
  | cons operators levels ih => exact binaries hf ih operators

theorem conditionals : Commutes f (Levels.conditionals inner) (Levels.conditionals inner) := by
  refine (h.operations hf).follow fun test token => ?_
  rw [Token.isPunctuation_mapSpans]
  split
  · refine .some (h.conditional.bind fun consequent => (commutes_expect ":").bind fun _ =>
      h.conditional.build fun alternate => bounded_eq (by simp [hf]))
  · exact .none

theorem filterChain : Commutes f (Levels.filterChain inner) (Levels.filterChain inner) := by
  refine (h.conditionals hf).chain fun input token => ?_
  rw [Levels.filter, Levels.filter, Token.isOperator_mapSpans]
  split
  · refine .some (h.filterCall.build fun call => bounded_eq ?_)
    obtain ⟨name, arguments, stop⟩ := call
    simp [hf]
  · exact .none

end Unspanned

/-- No reader of the grammar looks at spans, at any depth. The induction is on the levels of nesting
that are left. -/
theorem unspanned_ofDepth (hf : ∀ a b : Span, f (a.join b) = (f a).join (f b)) (depth : Nat) :
    (ofDepth depth).Unspanned f := by
  induction depth with
  | zero => exact ⟨commutes_refuse _, commutes_refuse _, commutes_refuse _⟩
  | succ depth ih => exact ⟨ih.filterChain hf, ih.conditionals hf, ih.unaries hf⟩

end Levels

/-- Reading tokens with changed spans changes the spans of the result. -/
theorem ofTokens_mapSpans (hf : ∀ a b : Span, f (a.join b) = (f a).join (f b))
    (tokens : List Token) :
    Expr.ofTokens (mapSpans f tokens) = mapSpans f (Expr.ofTokens tokens) :=
  (Levels.unspanned_ofDepth hf nestingLimit).filters.separated tokens

/-! ## Forgetting spans -/

/-- The same data without regard to spans. -/
def bare {α : Type} [Spanned α] : α → α :=
  mapSpans fun _ => .point 0

@[simp]
theorem span_bare (e : Expr) : (bare e).span = .point 0 :=
  Expr.span_mapSpans e

/-- A bare tree is as high as the tree that it comes from, so that both pass the bound or neither
does. -/
@[simp]
theorem height_bare (e : Expr) : (bare e).height = e.height :=
  Expr.height_mapSpans e

theorem bare_call (span : Span) (callee : Expr) (arguments : List Expr) (filter : Bool) :
    bare (Expr.call ⟨span, none⟩ callee arguments filter) =
      Expr.call ⟨.point 0, none⟩ (bare callee) (bare arguments) filter :=
  Expr.mapSpans_call callee arguments filter

theorem bare_object (span : Span) (properties : List Property) :
    bare (Expr.object ⟨span, none⟩ properties) = Expr.object ⟨.point 0, none⟩ (bare properties) :=
  Expr.mapSpans_object properties

theorem bare_array (span : Span) (elements : List Expr) :
    bare (Expr.array ⟨span, none⟩ elements) = Expr.array ⟨.point 0, none⟩ (bare elements) :=
  Expr.mapSpans_array elements

/-- Tokens that differ in their spans alone are read alike. -/
theorem ofTokens_bare (tokens : List Token) :
    Expr.ofTokens (bare tokens) = bare (Expr.ofTokens tokens) :=
  ofTokens_mapSpans (fun _ _ => rfl) tokens

end ReactiveTemplate
