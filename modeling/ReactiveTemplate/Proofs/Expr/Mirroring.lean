import ReactiveTemplate.Proofs.Expr.Builder
import ReactiveTemplate.Proofs.Expr.ParserLaws

/-!
# The counter and the levels

A reader with a counter does what the parser does that is given as many levels as the counter
leaves. It brings the counter back to where it was, whether it succeeds or fails, and whatever it
notes is in order.
-/

namespace ReactiveTemplate

open ReactiveTemplate.Parser (take?)

/-- The counter keeps to its limit and comes back from a nested call as it was before, and a loop
goes on with fewer tokens than before. -/
def Event.IsOrderly : Event → Prop
  | nested before inside after => inside ≤ nestingLimit ∧ after = before
  | again _ before after => after < before

namespace Reading

/-- The counter is back, and whatever has been noted in between is in order. -/
structure Leads (s s' : Reading) : Prop where
  depth : s'.depth = s.depth
  log : ∃ events, s'.log = events ++ s.log ∧ ∀ event ∈ events, event.IsOrderly

namespace Leads

variable {s s' s'' : Reading}

theorem refl (s : Reading) : s.Leads s :=
  ⟨rfl, [], rfl, List.forall_mem_nil _⟩

/-- Two readings in a row leave the counter where it was and note orderly events only, if each of
them does. -/
theorem trans (h : s.Leads s') (h' : s'.Leads s'') : s.Leads s'' := by
  obtain ⟨events, hlog, hevents⟩ := h.log
  obtain ⟨events', hlog', hevents'⟩ := h'.log
  refine ⟨h'.depth.trans h.depth, events' ++ events, ?_,
    List.forall_mem_append.mpr ⟨hevents', hevents⟩⟩
  rw [hlog', hlog, List.append_assoc]

/-- Which tokens are left does not matter. -/
theorem drop (h : s.Leads s') (tokens : List Token) : s.Leads { s' with tokens } :=
  ⟨h.depth, h.log⟩

/-- An orderly event may be noted at any time. Whether an event is orderly is all that has to be
shown where one is noted. -/
theorem note (h : s.Leads s') {event : Event} (hevent : event.IsOrderly) :
    s.Leads (s'.note event) := by
  obtain ⟨events, hlog, hevents⟩ := h.log
  exact ⟨h.depth, event :: events, congrArg (event :: ·) hlog,
    List.forall_mem_cons.mpr ⟨hevent, hevents⟩⟩

end Leads

end Reading

namespace Builder

variable {α β : Type}

/-- A reading with a counter from `s` on comes out as one without. -/
inductive Agrees (s : Reading) :
    Except Refusal (α × List Token) → Except Refusal α × Reading → Prop where
  | ok {a : α} {s' : Reading} (h : s.Leads s') : Agrees s (.ok (a, s'.tokens)) (.ok a, s')
  | error {refusal : Refusal} {s' : Reading} (h : s.Leads s') :
      Agrees s (.error refusal) (.error refusal, s')

/-- What holds of a reading holds of the whole, with an orderly reading in front of it: the results
are the same, and the log is longer. -/
theorem Agrees.behind {s s' : Reading} {result : Except Refusal (α × List Token)}
    {result' : Except Refusal α × Reading} (h : Agrees s' result result') (hs : s.Leads s') :
    Agrees s result result' := by
  cases h with
  | ok h => exact .ok (hs.trans h)
  | error h => exact .error (hs.trans h)

/-- With the counter at `depth`, `b` reads what `p` reads. -/
def Mirrors (depth : Nat) (b : Builder α) (p : Parser α) : Prop :=
  ∀ s : Reading, s.depth = depth → Agrees s (p.run s.tokens) (b.run s)

/-- A token lets both do the same. -/
inductive DecidesAlike (depth : Nat) : Decision Builder α → Decision Parser α → Prop where
  | finish (a : α) : DecidesAlike depth (.finish a) (.finish a)
  | refuse (fault : Fault) : DecidesAlike depth (.refuse fault) (.refuse fault)
  | proceed {b : Builder α} {p : Parser α} (h : Mirrors depth b p) :
      DecidesAlike depth (.proceed b) (.proceed p)

theorem DecidesAlike.ite {depth : Nat} {c : Prop} [Decidable c] {d₁ d₂ : Decision Builder α}
    {d₁' d₂' : Decision Parser α} (h₁ : DecidesAlike depth d₁ d₁')
    (h₂ : DecidesAlike depth d₂ d₂') :
    DecidesAlike depth (if c then d₁ else d₂) (if c then d₁' else d₂') := by
  split
  · exact h₁
  · exact h₂

/-- A step lets both go on alike. -/
def StepsAlike (depth : Nat) (step : α → Token → Option (Builder α))
    (step' : α → Token → Option (Parser α)) : Prop :=
  ∀ a token, (step a token).Rel (Mirrors depth) (step' a token)

variable {depth : Nat} {b : Builder α} {p : Parser α} {s : Reading}

/-! ## Nested calls -/

/-- At the limit of the counter there is nothing more to read. -/
theorem mirrors_nested_limit (b : Builder α) :
    Mirrors nestingLimit b.nested (Parser.refuse .nestingTooDeep) := by
  intro s hs
  have hlimit : nestingLimit ≤ s.depth := Nat.le_of_eq hs.symm
  simp only [Builder.nested, Parser.refuse, if_pos hlimit]
  exact .error ((Reading.Leads.refl s).note ⟨Nat.le_of_eq hs, rfl⟩)

/-- Inside of a nested call the counter is one higher, and behind it it is what it was before. -/
theorem Mirrors.nested (h : Mirrors (depth + 1) b p) (hdepth : depth < nestingLimit) :
    Mirrors depth b.nested p := by
  intro s hs
  subst hs
  simp only [Builder.nested, if_neg (Nat.not_le_of_lt hdepth)]
  have hinner := h { s with depth := s.depth + 1 } rfl
  generalize b.run { s with depth := s.depth + 1 } = result at hinner ⊢
  dsimp only at hinner
  generalize p.run s.tokens = result' at hinner ⊢
  have hback : ∀ s' : Reading, Reading.Leads { s with depth := s.depth + 1 } s' →
      s.Leads ({ s' with depth := s'.depth - 1 }.note
        (.nested s.depth (s.depth + 1) (s'.depth - 1))) := by
    rintro s' ⟨hcounter, hlog⟩
    have hcounter : s'.depth - 1 = s.depth := by
      rw [hcounter]
      rfl
    rw [hcounter]
    have hleads : s.Leads { s' with depth := s.depth } := ⟨rfl, hlog⟩
    exact hleads.note ⟨hdepth, rfl⟩
  cases hinner with
  | @ok a s' hleads => exact .ok (hback s' hleads)
  | @error refusal s' hleads => exact .error (hback s' hleads)

/-! ## Single readings -/

theorem mirrors_first {decide : Token → Decision Builder α} {decide' : Token → Decision Parser α}
    (h : ∀ token, DecidesAlike depth (decide token) (decide' token)) :
    Mirrors depth (first decide) (Parser.first decide') := by
  rintro ⟨tokens, depth, log⟩ rfl
  cases tokens with
  | nil => exact .error (.refl _)
  | cons token tokens =>
      have hdecide := h token
      simp only [first, Parser.first]
      have hdrop := (Reading.Leads.refl ⟨token :: tokens, depth, log⟩).drop tokens
      generalize decide token = d at hdecide ⊢
      generalize decide' token = d' at hdecide ⊢
      cases hdecide with
      | finish a => exact .ok hdrop
      | refuse fault => exact .error hdrop
      | proceed h =>
          have hnext := h ⟨tokens, depth, log⟩ rfl
          exact hnext.behind hdrop

/-- A choice by the first token mirrors the same choice among parsers. Where nothing is chosen, all
the tokens go to the reader itself. -/
theorem Mirrors.orAfter {choose : Token → Option (Builder α)}
    {choose' : Token → Option (Parser α)} (hb : Mirrors depth b p)
    (h : ∀ token, (choose token).Rel (Mirrors depth) (choose' token)) :
    Mirrors depth (b.orAfter choose) (p.orAfter choose') := by
  rintro ⟨tokens, depth, log⟩ rfl
  cases tokens with
  | nil => exact hb _ rfl
  | cons token tokens =>
      have hchoose := h token
      simp only [Builder.orAfter, Parser.orAfter]
      generalize choose token = c at hchoose ⊢
      generalize choose' token = c' at hchoose ⊢
      cases hchoose with
      | some h =>
          have hnext := h ⟨tokens, depth, log⟩ rfl
          exact hnext.behind ((Reading.Leads.refl ⟨token :: tokens, depth, log⟩).drop tokens)
      | none => exact hb _ rfl

/-- Two readers in a row mirror two parsers in a row, since the first one leaves the counter as the
second one expects it. -/
theorem Mirrors.bind {k : α → Builder β} {k' : α → Parser β} (hb : Mirrors depth b p)
    (hk : ∀ a, Mirrors depth (k a) (k' a)) : Mirrors depth (b.bind k) (p.bind k') := by
  intro s hs
  have hfirst := hb s hs
  simp only [Builder.bind, Parser.bind]
  generalize b.run s = result at hfirst ⊢
  generalize p.run s.tokens = result' at hfirst ⊢
  cases hfirst with
  | ok h => exact (hk _ _ (h.depth.trans hs)).behind h
  | error h => exact .error h

/-- Making something of a result is the same for both kinds of readers, and it touches neither the
tokens nor the counter. -/
theorem Mirrors.build (hb : Mirrors depth b p) (k : α → Except Refusal β) :
    Mirrors depth (b.build k) (p.build k) := by
  intro s hs
  have hfirst := hb s hs
  simp only [Builder.build, Parser.build]
  generalize b.run s = result at hfirst ⊢
  generalize p.run s.tokens = result' at hfirst ⊢
  cases hfirst with
  | @ok a s' h =>
      dsimp only
      cases k a with
      | ok c => exact .ok h
      | error refusal => exact .error h
  | error h => exact .error h

theorem Mirrors.map (hb : Mirrors depth b p) (k : α → β) :
    Mirrors depth (b.map k) (p.map k) :=
  hb.build _

theorem mirrors_expect (text : String) :
    Mirrors depth (expect text) (Parser.expect text) :=
  mirrors_first fun token => .ite (.finish token.span) (.refuse _)

theorem Mirrors.follow {step : α → Token → Option (Builder α)}
    {step' : α → Token → Option (Parser α)} (hb : Mirrors depth b p)
    (hstep : StepsAlike depth step step') : Mirrors depth (b.follow step) (p.follow step') := by
  intro s hs
  have hfirst := hb s hs
  simp only [Builder.follow, Parser.follow]
  generalize b.run s = result at hfirst ⊢
  generalize p.run s.tokens = result' at hfirst ⊢
  cases hfirst with
  | @ok a s' h =>
      obtain ⟨tokens, depth', log⟩ := s'
      cases tokens with
      | nil => exact .ok h
      | cons token tokens =>
          have hnext := hstep a token
          dsimp only
          generalize step a token = c at hnext ⊢
          generalize step' a token = c' at hnext ⊢
          cases hnext with
          | some hnext =>
              have hrest := hnext ⟨tokens, depth', log⟩ (h.depth.trans hs)
              exact hrest.behind (h.drop tokens)
          | none => exact .ok h
  | error h => exact .error h

/-! ## Loops -/

theorem StepsAlike.of_none {step : α → Token → Option (Builder α)}
    {step' : α → Token → Option (Parser α)} (hstep : StepsAlike depth step step') {a : α}
    {token : Token} (h : step a token = none) : step' a token = none := by
  have hnext := hstep a token
  rw [h] at hnext
  generalize step' a token = next at hnext
  cases hnext
  rfl

theorem StepsAlike.of_some {step : α → Token → Option (Builder α)}
    {step' : α → Token → Option (Parser α)} (hstep : StepsAlike depth step step') {a : α}
    {token : Token} (h : step a token = some b) :
    ∃ p, step' a token = some p ∧ Mirrors depth b p := by
  have hnext := hstep a token
  rw [h] at hnext
  generalize step' a token = next at hnext
  cases hnext with
  | some hnext => exact ⟨_, rfl, hnext⟩

/-- A reader that mirrors a parser and succeeds tells what the parser gives, and that everything
noted on the way is orderly. -/
theorem Mirrors.of_ok (h : Mirrors depth b p) (hs : s.depth = depth) {a : α} {s' : Reading}
    (hrun : b.run s = (.ok a, s')) : p.run s.tokens = .ok (a, s'.tokens) ∧ s.Leads s' := by
  have hagrees := h s hs
  rw [hrun] at hagrees
  generalize p.run s.tokens = result at hagrees
  cases hagrees with
  | ok hleads => exact ⟨rfl, hleads⟩

/-- A reader that mirrors a parser and fails tells that the parser fails in the same way. The
counter is restored in this case, too. -/
theorem Mirrors.of_error (h : Mirrors depth b p) (hs : s.depth = depth) {refusal : Refusal}
    {s' : Reading} (hrun : b.run s = (.error refusal, s')) :
    p.run s.tokens = .error refusal ∧ s.Leads s' := by
  have hagrees := h s hs
  rw [hrun] at hagrees
  generalize p.run s.tokens = result at hagrees
  cases hagrees with
  | error hleads => exact ⟨rfl, hleads⟩

/-- A loop mirrors a repetition round by round. Each round takes tokens, which is why the event that
it notes is orderly. -/
theorem agrees_repeatFrom {step : α → Token → Option (Builder α)}
    {step' : α → Token → Option (Parser α)} (hstep : StepsAlike depth step step') (loop : Loop)
    (a : α) (hs : s.depth = depth) :
    Agrees s (Parser.repeatFrom step' a s.tokens) (repeatFrom loop step a s) := by
  fun_induction repeatFrom loop step a s with
  | case1 a s htokens =>
      rw [Parser.repeatFrom_of_none (by simp [htokens])]
      exact .ok (.refl s)
  | case2 a s token tokens htokens hnone =>
      have hnone : ∀ token ∈ s.tokens.head?, step' a token = none := by
        rw [htokens]
        rintro _ ⟨⟩
        exact hstep.of_none hnone
      rw [Parser.repeatFrom_of_none hnone]
      exact .ok (.refl s)
  | case3 a s token tokens htokens b hsome a' s' hrun ih =>
      obtain ⟨p, hp, hmirrors⟩ := hstep.of_some hsome
      have hround := hmirrors.of_ok (s := { s with tokens }) hs hrun
      have hleads := ((Reading.Leads.refl s).drop tokens).trans hround.2
      have hlength : s'.tokens.length < s.tokens.length := by
        rw [htokens]
        exact Nat.lt_succ_of_lt (b.shrinks hrun)
      have hparse : Parser.repeatFrom step' a (token :: tokens) = _ := Parser.repeatFrom_cons hp
      rw [← htokens, hround.1] at hparse
      rw [hparse]
      exact (ih (hleads.depth.trans hs)).behind (hleads.note hlength)
  | case4 a s token tokens htokens b hsome refusal s' hrun =>
      obtain ⟨p, hp, hmirrors⟩ := hstep.of_some hsome
      have hround := hmirrors.of_error (s := { s with tokens }) hs hrun
      have hparse : Parser.repeatFrom step' a (token :: tokens) = _ := Parser.repeatFrom_cons hp
      rw [← htokens, hround.1] at hparse
      rw [hparse]
      exact .error (((Reading.Leads.refl s).drop tokens).trans hround.2)

theorem Mirrors.chain {step : α → Token → Option (Builder α)}
    {step' : α → Token → Option (Parser α)} (hb : Mirrors depth b p)
    (hstep : StepsAlike depth step step') (loop : Loop) :
    Mirrors depth (b.chain loop step) (p.chain step') := by
  intro s hs
  have hfirst := hb s hs
  simp only [Builder.chain, Parser.chain]
  generalize b.run s = result at hfirst ⊢
  generalize p.run s.tokens = result' at hfirst ⊢
  cases hfirst with
  | ok h => exact (agrees_repeatFrom hstep loop _ (h.depth.trans hs)).behind h
  | error h => exact .error h

/-- The loop for lists mirrors the reader of lists item by item. Behind each comma it notes how many
tokens were left and are left now. -/
theorem agrees_itemsFrom (hb : Mirrors depth b p) (loop : Loop) (close : String) (done : List α)
    (hs : s.depth = depth) :
    Agrees s (Parser.itemsFrom p close done s.tokens) (itemsFrom loop b close done s) := by
  fun_induction itemsFrom loop b close done s with
  | case1 done s span tokens htake =>
      rw [Parser.itemsFrom, htake]
      exact .ok ((Reading.Leads.refl s).drop tokens)
  | case2 done s htake refusal s' hrun =>
      obtain ⟨hitem, hleads⟩ := hb.of_error hs hrun
      rw [Parser.itemsFrom_of_open htake, hitem]
      exact .error hleads
  | case3 done s htake a s' hrun span tokens hcomma ih =>
      obtain ⟨hitem, hleads⟩ := hb.of_ok hs hrun
      have hlength := Nat.lt_trans (Parser.length_lt_of_take? hcomma) (b.shrinks hrun)
      rw [Parser.itemsFrom_of_open htake, hitem]
      simp only [hcomma]
      exact (ih (hleads.depth.trans hs)).behind ((hleads.drop tokens).note hlength)
  | case4 done s htake a s' hrun hcomma =>
      obtain ⟨hitem, hleads⟩ := hb.of_ok hs hrun
      have hclose := (mirrors_expect close).map (fun span => ((a :: done).reverse, span)) s'
        (hleads.depth.trans hs)
      rw [Parser.itemsFrom_of_open htake, hitem]
      simp only [hcomma]
      simp only [Parser.map, Parser.build] at hclose
      refine Agrees.behind ?_ hleads
      cases hexpect : (Parser.expect close).run s'.tokens <;> rwa [hexpect] at hclose

theorem Mirrors.items (hb : Mirrors depth b p) (loop : Loop) (close : String) :
    Mirrors depth (items loop b close) (Parser.items p close) :=
  fun _ hs => agrees_itemsFrom hb loop close [] hs

/-- How the reading of a whole source comes out. -/
structure Completes (s : Reading) (result : Except Refusal (List α))
    (result' : Except Refusal (List α) × Reading) : Prop where
  same : result'.1 = result
  leads : s.Leads result'.2

theorem Completes.behind {s s' : Reading} {result : Except Refusal (List α)}
    {result' : Except Refusal (List α) × Reading} (h : Completes s' result result')
    (hs : s.Leads s') : Completes s result result' :=
  ⟨h.same, hs.trans h.leads⟩

/-- The outermost loop reads a list without brackets as the parser does. Such a list goes up to the
end, so that there is no rest to compare. -/
theorem completes_separatedFrom (hb : Mirrors depth b p) (done : List α) (hs : s.depth = depth) :
    Completes s (Parser.separatedFrom p done s.tokens) (separatedFrom b done s) := by
  fun_induction separatedFrom b done s with
  | case1 done s refusal s' hrun =>
      obtain ⟨hitem, hleads⟩ := hb.of_error hs hrun
      rw [Parser.separatedFrom_eq, hitem]
      exact ⟨rfl, hleads⟩
  | case2 done s a s' hrun htokens =>
      obtain ⟨hitem, hleads⟩ := hb.of_ok hs hrun
      rw [Parser.separatedFrom_eq, hitem, htokens]
      exact ⟨rfl, hleads⟩
  | case3 done s a s' hrun token tokens htokens hcomma ih =>
      obtain ⟨hitem, hleads⟩ := hb.of_ok hs hrun
      have hlength := b.shrinks hrun
      rw [htokens] at hlength
      rw [Parser.separatedFrom_eq, hitem, htokens]
      simp only [Parser.separatedFromRest, if_pos hcomma]
      exact (ih (hleads.depth.trans hs)).behind
        ((hleads.drop tokens).note (Nat.lt_of_succ_lt hlength))
  | case4 done s a s' hrun token tokens htokens hcomma =>
      obtain ⟨hitem, hleads⟩ := hb.of_ok hs hrun
      rw [Parser.separatedFrom_eq, hitem, htokens]
      simp only [Parser.separatedFromRest, if_neg hcomma]
      exact ⟨rfl, hleads⟩

/-- A list without brackets, read with an item that mirrors a parser. No tokens at all are an empty
list for both. -/
theorem Mirrors.completes (hb : Mirrors depth b p) (hs : s.depth = depth) :
    Completes s (Parser.separated p s.tokens) (separated b s) := by
  obtain ⟨tokens, depth', log⟩ := s
  cases tokens with
  | nil => exact ⟨rfl, .refl _⟩
  | cons token tokens => exact completes_separatedFrom hb [] hs

end Builder

/-! ## The grammar -/

namespace Levels

open ReactiveTemplate.Builder ReactiveTemplate.Expr

/-- With the counter at `depth`, the nested calls read what the levels of a parser read. -/
structure Mirrors (depth : Nat) (calls : Levels Builder) (levels : Levels Parser) : Prop where
  filters : Builder.Mirrors depth calls.filters levels.filters
  conditional : Builder.Mirrors depth calls.conditional levels.conditional
  unary : Builder.Mirrors depth calls.unary levels.unary

theorem mirrors_name {depth : Nat} : Builder.Mirrors depth name name :=
  mirrors_first fun token => .ite (.finish token) (.refuse _)

namespace Mirrors

variable {depth : Nat} {calls : Levels Builder} {levels : Levels Parser}
  (h : calls.Mirrors depth levels)
include h

theorem keyValue (key : Expr) (computed : Bool) :
    Builder.Mirrors depth (Levels.keyValue calls key computed)
      (Levels.keyValue levels key computed) :=
  (mirrors_expect ":").bind fun _ => h.filters.map _

theorem key : Builder.Mirrors depth (Levels.key calls) (Levels.key levels) := by
  apply mirrors_first
  intro token
  rcases token.kind with _ | x | x | _ | _
  · dsimp only
    exact .ite (.proceed (h.keyValue (ofName token) false)) (.finish _)
  · exact .proceed (h.keyValue (ofValue token (.number x)) false)
  · exact .proceed (h.keyValue (ofValue token (.string x)) false)
  all_goals
    exact .ite (.proceed (h.filters.bind fun key => (mirrors_expect "]").bind
      fun _ => h.keyValue key true)) (.refuse _)

theorem property : Builder.Mirrors depth (Levels.property calls) (Levels.property levels) := by
  refine h.key.follow fun p token => ?_
  split
  · exact .some (h.filters.map _)
  · exact .none

theorem arguments : Builder.Mirrors depth (Levels.arguments calls) (Levels.arguments levels) :=
  h.filters.items .list ")"

theorem primary : Builder.Mirrors depth (Levels.primary calls) (Levels.primary levels) := by
  apply mirrors_first
  intro token
  rcases token.kind with _ | x | x | _ | _
  · dsimp only
    cases keyword? token.text with
    | none => exact .finish (ofName token)
    | some value => exact .finish (ofValue token value)
  · exact .finish _
  · exact .finish _
  all_goals
    apply DecidesAlike.ite
    · exact .proceed (h.filters.bind fun e => (mirrors_expect ")").map _)
    · apply DecidesAlike.ite
      · exact .proceed ((h.filters.items .list "]").build _)
      · apply DecidesAlike.ite
        · exact .proceed ((h.property.items .object r"}").build _)
        · exact .refuse _

theorem suffix : StepsAlike depth (Levels.suffix calls) (Levels.suffix levels) := by
  intro e token
  unfold Levels.suffix
  split
  · exact .some (h.arguments.build _)
  · split
    · exact .some (h.filters.bind fun property => (mirrors_expect "]").build _)
    · split
      · exact .some (mirrors_name.build _)
      · exact .none

theorem postfixes : Builder.Mirrors depth (Levels.postfixes calls) (Levels.postfixes levels) :=
  h.primary.chain h.suffix .postfixes

/-- An operand of a unary operator is one of the nested calls, which have to be mirrored at the
depth that is handed on. -/
theorem unaries : Builder.Mirrors depth (Levels.unaries calls) (Levels.unaries levels) := by
  refine h.postfixes.orAfter fun token => ?_
  cases unaryOp? token with
  | none => exact .none
  | some operator => exact .some (h.unary.build _)

omit h in
theorem binaries {operand : Builder Expr} {operand' : Parser Expr}
    (hoperand : Builder.Mirrors depth operand operand') (operators : List BinaryOp) :
    Builder.Mirrors depth (Levels.binaries operators operand)
      (Levels.binaries operators operand') := by
  refine hoperand.chain (fun left token => ?_) .binary
  unfold Levels.operation
  cases binaryOp? operators token with
  | none => exact .none
  | some operator => exact .some (hoperand.build _)

/-- The levels of operators are mirrored from the tightest outwards, along the list over which the
grammar folds. -/
theorem operations :
    Builder.Mirrors depth (Levels.operations calls) (Levels.operations levels) := by
  rw [Levels.operations, Levels.operations]
  generalize BinaryOp.levels = operators
  induction operators with
  | nil => exact h.unaries
  | cons operators tighter ih => exact binaries ih operators

theorem conditionals :
    Builder.Mirrors depth (Levels.conditionals calls) (Levels.conditionals levels) := by
  refine h.operations.follow fun test token => ?_
  split
  · exact .some (h.conditional.bind fun consequent => (mirrors_expect ":").bind
      fun _ => h.conditional.build _)
  · exact .none

theorem filterCall :
    Builder.Mirrors depth (Levels.filterCall calls) (Levels.filterCall levels) := by
  refine (mirrors_name.map _).follow fun call token => ?_
  split
  · exact .some (h.arguments.map _)
  · exact .none

/-- The loosest level of the grammar mirrors its counterpart. All that is used of the levels inside
is that they do, too. -/
theorem filterChain :
    Builder.Mirrors depth (Levels.filterChain calls) (Levels.filterChain levels) := by
  refine h.conditionals.chain (fun input token => ?_) .filters
  unfold Levels.filter
  split
  · exact .some (h.filterCall.build _)
  · exact .none

end Mirrors

/-- The calls read what the levels read that are left when `depth` parts are open, as long as there
are more calls than levels. -/
theorem mirrors_ofFuel {fuel depth room : Nat} (hroom : depth + room = nestingLimit)
    (hfuel : room < fuel) : (ofFuel fuel).Mirrors depth (ofDepth room) := by
  induction fuel generalizing depth room with
  | zero => contradiction
  | succ fuel ih =>
      cases room with
      | zero =>
          obtain rfl : depth = nestingLimit := hroom
          exact ⟨mirrors_nested_limit _, mirrors_nested_limit _, mirrors_nested_limit _⟩
      | succ room =>
          have hinner : (ofFuel fuel).Mirrors (depth + 1) (ofDepth room) :=
            ih (by omega) (Nat.lt_of_succ_lt_succ hfuel)
          have hdepth : depth < nestingLimit := by omega
          exact ⟨hinner.filterChain.nested hdepth, hinner.conditionals.nested hdepth,
            hinner.unaries.nested hdepth⟩

end Levels

/-- Reading with a counter comes to the same, brings the counter back to zero and notes nothing that
is out of order. -/
theorem completes_buildAll {fuel : Nat} (h : nestingLimit < fuel) (tokens : List Token) :
    Builder.Completes ⟨tokens, 0, []⟩ (Expr.ofTokens tokens) (buildAll fuel tokens) :=
  (Levels.mirrors_ofFuel (Nat.zero_add _) h).filters.completes rfl

end ReactiveTemplate
