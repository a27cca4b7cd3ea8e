import ReactiveTemplate.Expr.Grammar

/-!
# Reading with a counter

The grammar of expressions, read with everything written out that a reader changes as it goes: the
tokens that are left, also where it fails, and the counter of open nested parts, which each nested
call takes up and down again. It notes what the counter has been around each nested call, and how
many tokens were left from one round of a loop to the next.

Nothing but the counter bounds the nesting here. The levels of the grammar are given to each other
for some fixed number of calls, of which there have to be more than the counter allows.
-/

namespace ReactiveTemplate

/-- What is noted while tokens are read. -/
inductive Event where
  /-- A nested call, with the counter before it, inside of it and behind it. -/
  | nested (before inside after : Nat)
  /-- A loop goes on, with the number of tokens before its last round and behind it. -/
  | again (loop : Loop) (before after : Nat)
deriving DecidableEq

/-- What the reader changes. -/
structure Reading where
  tokens : List Token
  /-- The nested parts that are open. -/
  depth : Nat
  /-- What has been noted, newest first. -/
  log : List Event

/-- The same with one more note. -/
def Reading.note (s : Reading) (event : Event) : Reading :=
  { s with log := event :: s.log }

/-- A reader of tokens that leaves fewer of them when it succeeds. -/
structure Builder (α : Type) where
  run : Reading → Except Refusal α × Reading
  shrinks : ∀ {s s' : Reading} {a : α}, run s = (.ok a, s') → s'.tokens.length < s.tokens.length

namespace Builder

open ReactiveTemplate.Parser (exhausted take? length_lt_of_take?)

variable {α β : Type}

/-- Never succeeds. -/
def refuse (fault : Fault) : Builder α where
  run s := (.error ⟨fault, s.tokens.head?.map (·.span)⟩, s)
  shrinks h := by cases h

/-- Runs `b` with the counter one higher, unless that is at its limit already. -/
def nested (b : Builder α) : Builder α where
  run s :=
    if nestingLimit ≤ s.depth then
      (.error ⟨.nestingTooDeep, s.tokens.head?.map (·.span)⟩,
        s.note (.nested s.depth s.depth s.depth))
    else
      let inner := b.run { s with depth := s.depth + 1 }
      let after := inner.2.depth - 1
      (inner.1, { inner.2 with depth := after }.note (.nested s.depth (s.depth + 1) after))
  shrinks {s s' a} h := by
    split at h
    · cases h
    · obtain ⟨hresult, rfl⟩ := Prod.mk.inj h
      have hlength := b.shrinks (Prod.ext hresult rfl)
      exact hlength

/-- Takes one token and lets it decide. -/
def first (decide : Token → Decision Builder α) : Builder α where
  run s :=
    match s.tokens with
    | [] => (.error exhausted, s)
    | token :: tokens =>
        match decide token with
        | .finish a => (.ok a, { s with tokens })
        | .refuse fault => (.error ⟨fault, some token.span⟩, { s with tokens })
        | .proceed b => b.run { s with tokens }
  shrinks {s s' a} h := by
    split at h
    · cases h
    · next htokens =>
        rw [htokens]
        split at h
        · cases h
          exact Nat.lt_succ_self _
        · cases h
        · next b _ => exact Nat.lt_succ_of_lt (b.shrinks h)

/-- Leaves the first token to `b` unless `choose` names a reader that goes on behind it. -/
def orAfter (b : Builder α) (choose : Token → Option (Builder α)) : Builder α where
  run s :=
    match s.tokens with
    | [] => b.run s
    | token :: tokens =>
        match choose token with
        | some next => next.run { s with tokens }
        | none => b.run s
  shrinks {s s' a} h := by
    split at h
    · exact b.shrinks h
    · next htokens =>
        split at h
        · next next _ =>
            rw [htokens]
            exact Nat.lt_succ_of_lt (next.shrinks h)
        · exact b.shrinks h

/-- Reads with `b`, then with the reader that `f` makes of the result. -/
def bind (b : Builder α) (f : α → Builder β) : Builder β where
  run s :=
    match b.run s with
    | (.ok a, s') => (f a).run s'
    | (.error refusal, s') => (.error refusal, s')
  shrinks {s s' c} h := by
    split at h
    · next a inner hrun => exact Nat.lt_trans ((f a).shrinks h) (b.shrinks hrun)
    · cases h

/-- Reads with `b` and makes something of the result, which may yet be refused. -/
def build (b : Builder α) (f : α → Except Refusal β) : Builder β where
  run s :=
    match b.run s with
    | (.ok a, s') => (f a, s')
    | (.error refusal, s') => (.error refusal, s')
  shrinks {s s' c} h := by
    split at h
    · next hrun =>
        obtain ⟨-, rfl⟩ := Prod.mk.inj h
        exact b.shrinks hrun
    · cases h

/-- Reads with `b` and makes something of the result. -/
def map (b : Builder α) (f : α → β) : Builder β :=
  b.build fun a => .ok (f a)

/-- Reads with `b`; if the next token then lets `step` go on from the result, reads on behind it. -/
def follow (b : Builder α) (step : α → Token → Option (Builder α)) : Builder α where
  run s :=
    match b.run s with
    | (.ok a, s') =>
        match s'.tokens with
        | [] => (.ok a, s')
        | token :: tokens =>
            match step a token with
            | some next => next.run { s' with tokens }
            | none => (.ok a, s')
    | (.error refusal, s') => (.error refusal, s')
  shrinks {s s' c} h := by
    split at h
    · next a inner hrun =>
        split at h
        · cases h
          exact b.shrinks hrun
        · next token tokens htokens =>
            split at h
            · next next _ =>
                have hfirst := b.shrinks hrun
                rw [htokens] at hfirst
                exact Nat.lt_trans (next.shrinks h) (Nat.lt_of_succ_lt hfirst)
            · cases h
              exact b.shrinks hrun
    · cases h

/-- Goes on from `a` for as long as the next token lets `step` do so. -/
def repeatFrom (loop : Loop) (step : α → Token → Option (Builder α)) (a : α) (s : Reading) :
    Except Refusal α × Reading :=
  match _htokens : s.tokens with
  | [] => (.ok a, s)
  | token :: tokens =>
      match step a token with
      | none => (.ok a, s)
      | some b =>
          match _hrun : b.run { s with tokens } with
          | (.ok a, s') =>
              repeatFrom loop step a (s'.note (.again loop s.tokens.length s'.tokens.length))
          | (.error refusal, s') => (.error refusal, s')
  termination_by s.tokens.length
  decreasing_by
    rw [_htokens]
    exact Nat.lt_succ_of_lt (b.shrinks _hrun)

/-- A loop never has more tokens left than it began with. It may have as many: nothing need be taken
in front of a token that no step starts with. -/
theorem length_le_of_repeatFrom {loop : Loop} {step : α → Token → Option (Builder α)} {a c : α}
    {s s' : Reading} (h : repeatFrom loop step a s = (.ok c, s')) :
    s'.tokens.length ≤ s.tokens.length := by
  fun_induction repeatFrom loop step a s with
  | case1 =>
      cases h
      exact Nat.le_refl _
  | case2 =>
      cases h
      exact Nat.le_refl _
  | case3 _ _ _ _ htokens b _ _ _ hrun ih =>
      rw [htokens]
      exact Nat.le_trans (ih h) (Nat.le_succ_of_le (Nat.le_of_lt (b.shrinks hrun)))
  | case4 => cases h

/-- Reads with `b` and goes on for as long as the next token lets `step` do so. -/
def chain (loop : Loop) (b : Builder α) (step : α → Token → Option (Builder α)) : Builder α where
  run s :=
    match b.run s with
    | (.ok a, s') => repeatFrom loop step a s'
    | (.error refusal, s') => (.error refusal, s')
  shrinks {s s' c} h := by
    split at h
    · next hrun => exact Nat.lt_of_le_of_lt (length_le_of_repeatFrom h) (b.shrinks hrun)
    · cases h

/-- A certain punctuation, as its span. -/
def expect (text : String) : Builder Span :=
  first fun token =>
    if token.isPunctuation text then .finish token.span
    else .refuse (.unexpectedToken token.text (some text))

/-- The rest of a bracketed list after the items `done`, which are in reverse, and the span of the
closing bracket. -/
def itemsFrom (loop : Loop) (item : Builder α) (close : String) (done : List α) (s : Reading) :
    Except Refusal (List α × Span) × Reading :=
  match take? close s.tokens with
  | some (span, tokens) => (.ok (done.reverse, span), { s with tokens })
  | none =>
      match _hrun : item.run s with
      | (.error refusal, s') => (.error refusal, s')
      | (.ok a, s') =>
          match _hcomma : take? "," s'.tokens with
          | some (_, tokens) =>
              itemsFrom loop item close (a :: done)
                ({ s' with tokens }.note (.again loop s.tokens.length tokens.length))
          | none => ((expect close).map fun span => ((a :: done).reverse, span)).run s'
  termination_by s.tokens.length
  decreasing_by exact Nat.lt_trans (length_lt_of_take? _hcomma) (item.shrinks _hrun)

/-- A list in brackets takes at least its closing bracket, so that the loop for lists ends as
well. -/
theorem length_lt_of_itemsFrom {loop : Loop} {item : Builder α} {close : String}
    {done : List α} {items : List α × Span} {s s' : Reading}
    (h : itemsFrom loop item close done s = (.ok items, s')) :
    s'.tokens.length < s.tokens.length := by
  fun_induction itemsFrom loop item close done s with
  | case1 _ _ _ _ htake =>
      cases h
      exact length_lt_of_take? htake
  | case2 => cases h
  | case3 _ _ _ _ _ hrun _ _ hcomma ih =>
      exact Nat.lt_trans (ih h) (Nat.lt_trans (length_lt_of_take? hcomma) (item.shrinks hrun))
  | case4 _ _ _ _ _ hrun => exact Nat.lt_trans (Builder.shrinks _ h) (item.shrinks hrun)

/-- The items of a list behind its opening bracket and the span of the closing one. -/
def items (loop : Loop) (item : Builder α) (close : String) : Builder (List α × Span) where
  run := itemsFrom loop item close []
  shrinks h := length_lt_of_itemsFrom h

/-- All tokens that are left, after the items `done`, in reverse: items separated by commas. -/
def separatedFrom (item : Builder α) (done : List α) (s : Reading) :
    Except Refusal (List α) × Reading :=
  match _hrun : item.run s with
  | (.error refusal, s') => (.error refusal, s')
  | (.ok a, s') =>
      match _htokens : s'.tokens with
      | [] => (.ok (a :: done).reverse, s')
      | token :: tokens =>
          if token.isPunctuation "," then
            separatedFrom item (a :: done)
              ({ s' with tokens }.note (.again .build s.tokens.length tokens.length))
          else (.error ⟨.unexpectedToken token.text none, some token.span⟩, s')
  termination_by s.tokens.length
  decreasing_by
    have hlength := item.shrinks _hrun
    rw [_htokens] at hlength
    exact Nat.lt_of_succ_lt hlength

/-- All tokens that are left: items separated by commas, or nothing at all. -/
def separated (item : Builder α) (s : Reading) : Except Refusal (List α) × Reading :=
  match s.tokens with
  | [] => (.ok [], s)
  | _ :: _ => separatedFrom item [] s

end Builder

/-! ## The grammar -/

instance : Combinators Builder where
  first := Builder.first
  orAfter := Builder.orAfter
  bind := Builder.bind
  build := Builder.build
  map := Builder.map
  follow := Builder.follow
  chain := Builder.chain
  expect := Builder.expect
  items := Builder.items

/-- The nested calls, given to each other `fuel` times. Each of them takes the counter up. -/
def Levels.ofFuel : Nat → Levels Builder
  | 0 =>
      let refused := Builder.refuse .unexpectedEndOfExpression
      ⟨refused, refused, refused⟩
  | fuel + 1 =>
      let inner := ofFuel fuel
      ⟨.nested (filterChain inner), .nested (conditionals inner), .nested (unaries inner)⟩

/-- Reads a list of tokens from the start, with nothing open and nothing noted. -/
def buildAll (fuel : Nat) (tokens : List Token) : Except Refusal (List Expr) × Reading :=
  Builder.separated (Levels.ofFuel fuel).filters ⟨tokens, 0, []⟩

end ReactiveTemplate
