import ReactiveTemplate.Expr.Grammar
import ReactiveTemplate.Proofs.Token.Halting

/-!
# What refusals quote

When tokens are refused, the refusal quotes the text of the token that it points at. It points at no
token exactly where the tokens run out. Each combinator hands such refusals on, so every level of
the grammar gives no others.
-/

namespace ReactiveTemplate

open ReactiveTemplate.Expr ReactiveTemplate.Parser

/-! ## Refusals -/

/-- A fault of the second stage that quotes the text of a token. -/
structure Fault.Quotes (fault : Fault) (token : Token) : Prop where
  phase : fault.kind.phase = .expression
  quoted : fault.quoted? = some token.text

namespace Refusal

/-- A refusal that has its cause in the tokens. -/
structure Founded (tokens : List Token) (refusal : Refusal) : Prop where
  phase : refusal.fault.kind.phase = .expression
  quotes : ∀ text ∈ refusal.fault.quoted?,
    ∃ token ∈ tokens, token.text = text ∧ refusal.place = some token.span
  ended : refusal.fault = .unexpectedEndOfExpression → refusal.place = none

variable {tokens tokens' : List Token}

/-- Tokens that run out leave nothing to quote, which is the one refusal without an offending
token. -/
theorem founded_exhausted : exhausted.Founded tokens :=
  ⟨rfl, by simp [exhausted, Fault.quoted?], fun _ => rfl⟩

theorem founded_tooDeep (place : Option Span) :
    (⟨.nestingTooDeep, place⟩ : Refusal).Founded tokens :=
  ⟨rfl, by simp [Fault.quoted?], fun h => by contradiction⟩

/-- A refusal that points at one of the tokens is founded if its message quotes what that token
says. -/
theorem founded_of_quotes {fault : Fault} {token : Token} (h : fault.Quotes token)
    (htoken : token ∈ tokens) : (⟨fault, some token.span⟩ : Refusal).Founded tokens where
  phase := h.phase
  quotes text htext := by
    rw [h.quoted] at htext
    cases htext
    exact ⟨token, htoken, rfl, rfl⟩
  ended := by
    rintro rfl
    exact absurd h.quoted (by simp [Fault.quoted?])

/-- What is founded in some of the tokens is founded in all of them. Hence a part's refusal serves
for the whole. -/
theorem Founded.mono {refusal : Refusal} (h : refusal.Founded tokens)
    (htokens : tokens ⊆ tokens') : refusal.Founded tokens' where
  phase := h.phase
  quotes text htext := by
    obtain ⟨token, htoken, hquoted⟩ := h.quotes text htext
    exact ⟨token, htokens htoken, hquoted⟩
  ended := h.ended

end Refusal

/-! ## Parsers -/

namespace Parser

variable {α β : Type} {tokens tokens' : List Token}

/-- What a reading of tokens gives: the tokens that it leaves are some of them, or it is refused for
a cause in them. -/
def Accounts (tokens : List Token) : Except Refusal (α × List Token) → Prop
  | .ok (_, rest) => rest ⊆ tokens
  | .error refusal => refusal.Founded tokens

theorem Accounts.mono {outcome : Except Refusal (α × List Token)} (h : Accounts tokens outcome)
    (htokens : tokens ⊆ tokens') : Accounts tokens' outcome := by
  cases outcome with
  | ok r => exact fun token htoken => htokens (h htoken)
  | error refusal => exact Refusal.Founded.mono h htokens

/-- Where a second reading follows the first, each has to account for its own refusals, and the
second one sees only tokens that are left. -/
theorem Accounts.andThen {outcome : Except Refusal (α × List Token)}
    {k : α → List Token → Except Refusal (β × List Token)} (h : Accounts tokens outcome)
    (hk : ∀ a rest, rest ⊆ tokens → Accounts tokens (k a rest)) :
    Accounts tokens
      (match outcome with
        | .ok (a, rest) => k a rest
        | .error refusal => .error refusal) := by
  cases outcome with
  | ok r => exact hk r.1 r.2 h
  | error refusal => exact h

/-- A parser that refuses tokens for causes in them only. -/
def Founded (p : Parser α) : Prop :=
  ∀ tokens, Accounts tokens (p.run tokens)

/-- Whatever comes next is read by parsers that refuse for causes in the tokens. -/
def StepFounded (step : α → Token → Option (Parser α)) : Prop :=
  ∀ a token q, step a token = some q → q.Founded

/-- A token is refused with its own text, if at all. -/
inductive DecidesFounded (token : Token) : Decision Parser α → Prop where
  | finish (a : α) : DecidesFounded token (.finish a)
  | refuse {fault : Fault} (h : fault.Quotes token) : DecidesFounded token (.refuse fault)
  | proceed {p : Parser α} (h : p.Founded) : DecidesFounded token (.proceed p)

theorem DecidesFounded.ite {token : Token} {condition : Prop} [Decidable condition]
    {d d' : Decision Parser α} (h : DecidesFounded token d) (h' : DecidesFounded token d') :
    DecidesFounded token (if condition then d else d') := by
  split
  · exact h
  · exact h'

theorem founded_tooDeep : (refuse .nestingTooDeep : Parser α).Founded :=
  fun _ => Refusal.founded_tooDeep _

/-- A reader that takes one token refuses for a cause if every decision does: by quoting the token,
or behind it. -/
theorem founded_first {decide : Token → Decision Parser α}
    (h : ∀ token, DecidesFounded token (decide token)) : (first decide).Founded := by
  intro tokens
  cases tokens with
  | nil => exact Refusal.founded_exhausted
  | cons token rest =>
      have htoken := h token
      simp only [first]
      cases hdecide : decide token with
      | finish a => exact List.subset_cons_self token rest
      | refuse fault =>
          rw [hdecide] at htoken
          cases htoken with
          | refuse hquotes => exact Refusal.founded_of_quotes hquotes List.mem_cons_self
      | proceed p =>
          rw [hdecide] at htoken
          cases htoken with
          | proceed hp => exact (hp rest).mono (List.subset_cons_self token rest)

/-- A repetition is refused only in the middle of a round, for the cause that the round has. The
induction is on the tokens that are left. -/
theorem accounts_repeatFrom {step : α → Token → Option (Parser α)} (hstep : StepFounded step)
    (a : α) (tokens : List Token) : Accounts tokens (repeatFrom step a tokens) := by
  fun_induction repeatFrom step a tokens with
  | case1 a => exact List.Subset.refl []
  | case2 a token rest hnone => exact List.Subset.refl (token :: rest)
  | case3 a token rest p hp a' rest' hrun ih =>
      have hp := hstep a token p hp rest
      rw [hrun] at hp
      exact ih.mono fun _ h => List.mem_cons_of_mem token (hp h)
  | case4 a token rest p hp refusal hrun =>
      have hp := hstep a token p hp rest
      rw [hrun] at hp
      exact Refusal.Founded.mono hp (List.subset_cons_self token rest)

namespace Founded

variable {p : Parser α}

theorem orAfter {choose : Token → Option (Parser α)} (hp : p.Founded)
    (hchoose : ∀ token q, choose token = some q → q.Founded) : (p.orAfter choose).Founded := by
  intro tokens
  simp only [Parser.orAfter]
  split
  · exact hp []
  · next token rest =>
      split
      · next q hq => exact (hchoose token q hq rest).mono (List.subset_cons_self token rest)
      · exact hp (token :: rest)

theorem bind {f : α → Parser β} (hp : p.Founded) (hf : ∀ a, (f a).Founded) :
    (p.bind f).Founded :=
  fun tokens => (hp tokens).andThen fun a rest hrest => (hf a rest).mono hrest

/-- What is built of a result may be refused as well, and then for a cause that is founded in any
list of tokens. -/
theorem build {f : α → Except Refusal β} (hp : p.Founded)
    (hf : ∀ a refusal tokens, f a = .error refusal → refusal.Founded tokens) :
    (p.build f).Founded := by
  refine fun tokens => (hp tokens).andThen fun a rest hrest => ?_
  cases hfa : f a with
  | ok b => exact hrest
  | error refusal => exact hf a refusal tokens hfa

theorem map {f : α → β} (hp : p.Founded) : (p.map f).Founded :=
  hp.build fun _ _ _ h => by contradiction

theorem follow {step : α → Token → Option (Parser α)} (hp : p.Founded)
    (hstep : StepFounded step) : (p.follow step).Founded := by
  intro tokens
  have hrun := hp tokens
  simp only [Parser.follow]
  split
  · next a hr =>
      rw [hr] at hrun
      exact hrun
  · next a token rest hr =>
      rw [hr] at hrun
      split
      · next q hq =>
          exact (hstep a token q hq rest).mono fun _ h => hrun (List.mem_cons_of_mem token h)
      · exact hrun
  · next refusal hr =>
      rw [hr] at hrun
      exact hrun

theorem chain {step : α → Token → Option (Parser α)} (hp : p.Founded)
    (hstep : StepFounded step) : (p.chain step).Founded :=
  fun tokens => (hp tokens).andThen fun a rest hrest =>
    (accounts_repeatFrom hstep a rest).mono hrest

end Founded

/-- Where another punctuation was to come, the token that is there is quoted, together with what was
expected. -/
theorem founded_expect (text : String) : (expect text).Founded :=
  founded_first fun token =>
    .ite (.finish token.span) (.refuse ⟨rfl, rfl⟩)

theorem subset_of_take? {text : String} {rest : List Token} {span : Span}
    (h : take? text tokens = some (span, rest)) : rest ⊆ tokens := by
  unfold take? at h
  split at h
  · contradiction
  · next token rest' =>
      split at h
      · cases h
        exact List.subset_cons_self token rest
      · contradiction

/-- A list in brackets is refused for a wrong item, or for a token that is neither a comma nor the
closing bracket. -/
theorem accounts_itemsFrom {item : Parser α} (hitem : item.Founded) (close : String)
    (done : List α) (tokens : List Token) : Accounts tokens (itemsFrom item close done tokens) := by
  fun_induction itemsFrom item close done tokens with
  | case1 done tokens span rest htake => exact subset_of_take? htake
  | case2 done tokens htake refusal hrun =>
      have hitem := hitem tokens
      rwa [hrun] at hitem
  | case3 done tokens htake a rest hrun span rest' hcomma ih =>
      have hitem := hitem tokens
      rw [hrun] at hitem
      exact ih.mono fun _ h => hitem (subset_of_take? hcomma h)
  | case4 done tokens htake a rest hrun hcomma span rest' hclose =>
      have hitem := hitem tokens
      have hexpect := founded_expect close rest
      rw [hrun] at hitem
      rw [hclose] at hexpect
      exact fun _ h => hitem (hexpect h)
  | case5 done tokens htake a rest hrun hcomma refusal hclose =>
      have hitem := hitem tokens
      have hexpect := founded_expect close rest
      rw [hrun] at hitem
      rw [hclose] at hexpect
      exact Refusal.Founded.mono hexpect hitem

theorem Founded.items {item : Parser α} (hitem : item.Founded) (close : String) :
    (items item close).Founded :=
  fun tokens => accounts_itemsFrom hitem close [] tokens

/-- A list without brackets is refused for a wrong item, or for a token behind an item that is no
comma. -/
theorem founded_of_separatedFrom {item : Parser α} (hitem : item.Founded) {done : List α}
    {tokens : List Token} {refusal : Refusal}
    (h : separatedFrom item done tokens = .error refusal) : refusal.Founded tokens := by
  fun_induction separatedFrom item done tokens with
  | case1 done tokens refusal' hrun =>
      cases h
      have hitem := hitem tokens
      rwa [hrun] at hitem
  | case2 => contradiction
  | case3 done tokens a token rest hrun hcomma ih =>
      have hitem := hitem tokens
      rw [hrun] at hitem
      exact (ih h).mono fun _ h => hitem (List.mem_cons_of_mem token h)
  | case4 done tokens a token rest hrun hcomma =>
      cases h
      have hitem := hitem tokens
      rw [hrun] at hitem
      exact Refusal.founded_of_quotes ⟨rfl, rfl⟩ (hitem List.mem_cons_self)

theorem Founded.separated {item : Parser α} (hitem : item.Founded) {refusal : Refusal}
    (h : separated item tokens = .error refusal) : refusal.Founded tokens := by
  cases tokens with
  | nil => contradiction
  | cons token rest => exact founded_of_separatedFrom hitem h

end Parser

/-! ## The levels of the grammar -/

theorem Expr.founded_of_bounded {e : Expr} {refusal : Refusal} {tokens : List Token}
    (h : e.bounded = .error refusal) : refusal.Founded tokens := by
  unfold bounded at h
  split at h
  · cases h
    exact Refusal.founded_tooDeep _
  · contradiction

namespace Levels

theorem founded_name : (name : Parser Token).Founded :=
  founded_first fun token => .ite (.finish token) (.refuse ⟨rfl, rfl⟩)

/-- The levels that nested parts start from refuse tokens for causes in them only. -/
structure Founded (inner : Levels Parser) : Prop where
  filters : inner.filters.Founded
  conditional : inner.conditional.Founded
  unary : inner.unary.Founded

namespace Founded

variable {inner : Levels Parser} (h : inner.Founded)
include h

theorem keyValue (key : Expr) (computed : Bool) : (inner.keyValue key computed).Founded :=
  (founded_expect ":").bind fun _ => h.filters.map

/-- A token that no key starts with is quoted as an invalid key. All other refusals come from the
parts behind it. -/
theorem key : (Levels.key inner).Founded := by
  apply founded_first
  intro token
  rcases token.kind with _ | x | x | _ | _
  · exact .ite (.proceed (h.keyValue _ _)) (.finish _)
  · exact .proceed (h.keyValue _ _)
  · exact .proceed (h.keyValue _ _)
  all_goals
    refine .ite (.proceed ?_) (.refuse ⟨rfl, rfl⟩)
    exact h.filters.bind fun key => (founded_expect "]").bind fun _ => h.keyValue key true

theorem property : (Levels.property inner).Founded := by
  refine h.key.follow fun p token q hq => ?_
  split at hq
  · cases hq
    exact h.filters.map
  · contradiction

/-- A token that no expression starts with is quoted as such; the tokens of brackets lead on to
readers that are founded. -/
theorem primary : (Levels.primary inner).Founded := by
  apply founded_first
  intro token
  rcases token.kind with _ | x | x | _ | _
  · dsimp only
    split <;> exact .finish _
  · exact .finish _
  · exact .finish _
  all_goals
    refine .ite (.proceed ?_) (.ite (.proceed ?_) (.ite (.proceed ?_) (.refuse ⟨rfl, rfl⟩)))
    · exact h.filters.bind fun _ => (founded_expect ")").map
    · exact (h.filters.items "]").build fun _ _ _ => founded_of_bounded
    · exact (h.property.items r"}").build fun _ _ _ => founded_of_bounded

theorem suffix : StepFounded (Levels.suffix inner) := by
  intro e token q hq
  unfold Levels.suffix at hq
  split at hq
  · cases hq
    exact (h.filters.items ")").build fun _ _ _ => founded_of_bounded
  · split at hq
    · cases hq
      exact h.filters.bind fun _ => (founded_expect "]").build fun _ _ _ => founded_of_bounded
    · split at hq
      · cases hq
        exact founded_name.build fun _ _ _ => founded_of_bounded
      · contradiction

theorem unaries : (Levels.unaries inner).Founded := by
  refine (h.primary.chain h.suffix).orAfter fun token q hq => ?_
  obtain ⟨operator, -, rfl⟩ := Option.map_eq_some_iff.mp hq
  exact h.unary.build fun _ _ _ => founded_of_bounded

omit h in
theorem binaries {operand : Parser Expr} (hoperand : operand.Founded)
    (operators : List BinaryOp) : (Levels.binaries operators operand).Founded := by
  refine hoperand.chain fun left token q hq => ?_
  obtain ⟨operator, -, rfl⟩ := Option.map_eq_some_iff.mp hq
  exact hoperand.build fun _ _ _ => founded_of_bounded

theorem operations : (Levels.operations inner).Founded := by
  rw [Levels.operations]
  generalize BinaryOp.levels = levels
  induction levels with
  | nil => exact h.unaries
  | cons operators levels ih => exact binaries ih operators

theorem conditionals : (Levels.conditionals inner).Founded := by
  refine h.operations.follow fun test token q hq => ?_
  split at hq
  · cases hq
    exact h.conditional.bind fun _ => (founded_expect ":").bind fun _ =>
      h.conditional.build fun _ _ _ => founded_of_bounded
  · contradiction

theorem filterCall : (Levels.filterCall inner).Founded := by
  refine founded_name.map.follow fun call token q hq => ?_
  split at hq
  · cases hq
    exact (h.filters.items ")").map
  · contradiction

theorem filterChain : (Levels.filterChain inner).Founded := by
  refine h.conditionals.chain fun input token q hq => ?_
  unfold Levels.filter at hq
  split at hq
  · cases hq
    exact h.filterCall.build fun _ _ _ => founded_of_bounded
  · contradiction

end Founded

/-- Every reader of the grammar refuses for causes in the tokens, by induction on the levels of
nesting that are left. -/
theorem founded_ofDepth (depth : Nat) : (ofDepth depth).Founded := by
  induction depth with
  | zero => exact ⟨founded_tooDeep, founded_tooDeep, founded_tooDeep⟩
  | succ depth ih => exact ⟨ih.filterChain, ih.conditionals, ih.unaries⟩

end Levels

/-- Tokens that are no list of expressions are refused for a cause in them. -/
theorem founded_of_ofTokens {tokens : List Token} {refusal : Refusal}
    (h : Expr.ofTokens tokens = .error refusal) : refusal.Founded tokens :=
  (Levels.founded_ofDepth nestingLimit).filters.separated h

end ReactiveTemplate
