import ReactiveTemplate.Expr.Combinators

/-!
# Parsers over tokens

A `Parser` reads something off the head of a list of tokens. It takes at least one token whenever it
succeeds, and its type says so; hence repetition ends. The combinators here decide by looking at one
token.
-/

namespace ReactiveTemplate

/-- A reader of tokens that takes at least one when it succeeds. -/
structure Parser (α : Type) where
  run : List Token → Except Refusal (α × List Token)
  shrinks : ∀ {tokens rest a}, run tokens = .ok (a, rest) → rest.length < tokens.length

namespace Parser

variable {α β : Type}

/-- The refusal of tokens that run out. -/
def exhausted : Refusal :=
  ⟨.unexpectedEndOfExpression, none⟩

/-- Refuses whatever comes next. -/
def refuse (fault : Fault) : Parser α where
  run tokens := .error ⟨fault, tokens.head?.map (·.span)⟩
  shrinks h := by contradiction

/-- Takes one token and lets it decide. -/
def first (decide : Token → Decision Parser α) : Parser α where
  run
    | [] => .error exhausted
    | token :: tokens =>
        match decide token with
        | .finish a => .ok (a, tokens)
        | .refuse fault => .error ⟨fault, some token.span⟩
        | .proceed p => p.run tokens
  shrinks {tokens rest a} h := by
    split at h
    · contradiction
    · split at h
      · cases h
        exact Nat.lt_succ_self _
      · contradiction
      · next p _ => exact Nat.lt_succ_of_lt (p.shrinks h)

/-- Leaves the first token to `p` unless `choose` names a parser that reads on behind it. -/
def orAfter (p : Parser α) (choose : Token → Option (Parser α)) : Parser α where
  run
    | [] => p.run []
    | token :: tokens =>
        match choose token with
        | some q => q.run tokens
        | none => p.run (token :: tokens)
  shrinks {tokens rest a} h := by
    split at h
    · exact p.shrinks h
    · split at h
      · next q _ => exact Nat.lt_succ_of_lt (q.shrinks h)
      · exact p.shrinks h

/-- Reads with `p`, then with the parser that `f` makes of the result. -/
def bind (p : Parser α) (f : α → Parser β) : Parser β where
  run tokens :=
    match p.run tokens with
    | .ok (a, rest) => (f a).run rest
    | .error refusal => .error refusal
  shrinks {tokens rest b} h := by
    split at h
    · next a rest' hrun => exact Nat.lt_trans ((f a).shrinks h) (p.shrinks hrun)
    · contradiction

/-- Reads with `p` and makes something of the result, which may yet be refused. -/
def build (p : Parser α) (f : α → Except Refusal β) : Parser β where
  run tokens :=
    match p.run tokens with
    | .ok (a, rest) =>
        match f a with
        | .ok b => .ok (b, rest)
        | .error refusal => .error refusal
    | .error refusal => .error refusal
  shrinks {tokens rest b} h := by
    split at h
    · next a rest' hrun =>
        split at h
        · cases h
          exact p.shrinks hrun
        · contradiction
    · contradiction

/-- Reads with `p` and makes something of the result. -/
def map (p : Parser α) (f : α → β) : Parser β :=
  p.build fun a => .ok (f a)

/-- Reads with `p`; if the next token then lets `step` go on from the result, reads on behind it. -/
def follow (p : Parser α) (step : α → Token → Option (Parser α)) : Parser α where
  run tokens :=
    match p.run tokens with
    | .ok (a, []) => .ok (a, [])
    | .ok (a, token :: rest) =>
        match step a token with
        | some q => q.run rest
        | none => .ok (a, token :: rest)
    | .error refusal => .error refusal
  shrinks {tokens rest b} h := by
    split at h
    · next a hrun =>
        cases h
        exact p.shrinks hrun
    · next a token rest' hrun =>
        split at h
        · next q _ =>
            exact Nat.lt_trans (q.shrinks h) (Nat.lt_of_succ_lt (p.shrinks hrun))
        · cases h
          exact p.shrinks hrun
    · contradiction

/-- Goes on from `a` for as long as the next token lets `step` do so. -/
def repeatFrom (step : α → Token → Option (Parser α)) (a : α) (tokens : List Token) :
    Except Refusal (α × List Token) :=
  match tokens with
  | [] => .ok (a, [])
  | token :: rest =>
      match step a token with
      | none => .ok (a, token :: rest)
      | some p =>
          match _hrun : p.run rest with
          | .ok (a, rest) => repeatFrom step a rest
          | .error refusal => .error refusal
  termination_by tokens.length
  decreasing_by exact Nat.lt_succ_of_lt (p.shrinks _hrun)

/-- A repetition leaves no more tokens than there are. It may take none, which is why a chain starts
with a reading of its own. -/
theorem length_le_of_repeatFrom {step : α → Token → Option (Parser α)} {a b : α}
    {tokens rest : List Token} (h : repeatFrom step a tokens = .ok (b, rest)) :
    rest.length ≤ tokens.length := by
  fun_induction repeatFrom step a tokens with
  | case1 =>
      cases h
      exact Nat.le_refl _
  | case2 =>
      cases h
      exact Nat.le_refl _
  | case3 _ _ _ p _ _ _ hrun ih =>
      exact Nat.le_trans (ih h) (Nat.le_succ_of_le (Nat.le_of_lt (p.shrinks hrun)))
  | case4 => contradiction

/-- Reads with `p` and goes on for as long as the next token lets `step` do so. -/
def chain (p : Parser α) (step : α → Token → Option (Parser α)) : Parser α where
  run tokens :=
    match p.run tokens with
    | .ok (a, rest) => repeatFrom step a rest
    | .error refusal => .error refusal
  shrinks {tokens rest b} h := by
    split at h
    · next a rest' hrun => exact Nat.lt_of_le_of_lt (length_le_of_repeatFrom h) (p.shrinks hrun)
    · contradiction

/-- A certain punctuation, as its span. -/
def expect (text : String) : Parser Span :=
  first fun token =>
    if token.isPunctuation text then .finish token.span
    else .refuse (.unexpectedToken token.text (some text))

/-- The span of the first token and the tokens after it, if that is a certain punctuation. -/
def take? (text : String) : List Token → Option (Span × List Token)
  | [] => none
  | token :: rest => if token.isPunctuation text then some (token.span, rest) else none

theorem length_lt_of_take? {text : String} {tokens rest : List Token} {span : Span}
    (h : take? text tokens = some (span, rest)) : rest.length < tokens.length := by
  unfold take? at h
  split at h
  · contradiction
  · split at h
    · cases h
      exact Nat.lt_succ_self _
    · contradiction

/-- The rest of a bracketed list after the items `done`, which are in reverse, and the span of the
closing bracket. -/
def itemsFrom (item : Parser α) (close : String) (done : List α) (tokens : List Token) :
    Except Refusal ((List α × Span) × List Token) :=
  match take? close tokens with
  | some (span, rest) => .ok ((done.reverse, span), rest)
  | none =>
      match _hrun : item.run tokens with
      | .error refusal => .error refusal
      | .ok (a, rest) =>
          match _hcomma : take? "," rest with
          | some (_, rest) => itemsFrom item close (a :: done) rest
          | none =>
              match (expect close).run rest with
              | .ok (span, rest) => .ok (((a :: done).reverse, span), rest)
              | .error refusal => .error refusal
  termination_by tokens.length
  decreasing_by exact Nat.lt_trans (length_lt_of_take? _hcomma) (item.shrinks _hrun)

/-- A list in brackets takes at least the closing bracket, and so reading a list is a reading that
takes a token. -/
theorem length_lt_of_itemsFrom {item : Parser α} {close : String} {done items : List α}
    {span : Span} {tokens rest : List Token}
    (h : itemsFrom item close done tokens = .ok ((items, span), rest)) :
    rest.length < tokens.length := by
  fun_induction itemsFrom item close done tokens with
  | case1 _ _ _ _ htake =>
      cases h
      exact length_lt_of_take? htake
  | case2 => contradiction
  | case3 _ _ _ _ _ hrun _ _ hcomma ih =>
      exact Nat.lt_trans (ih h) (Nat.lt_trans (length_lt_of_take? hcomma) (item.shrinks hrun))
  | case4 _ _ _ _ _ hrun _ _ _ hclose =>
      cases h
      exact Nat.lt_trans ((expect close).shrinks hclose) (item.shrinks hrun)
  | case5 => contradiction

/-- The items of a list behind its opening bracket and the span of the closing one. The items are
separated by commas; one comma may stand behind the last item. -/
def items (item : Parser α) (close : String) : Parser (List α × Span) where
  run := itemsFrom item close []
  shrinks h := length_lt_of_itemsFrom h

/-- All of `tokens`, after the items `done`, in reverse: items separated by commas. -/
def separatedFrom (item : Parser α) (done : List α) (tokens : List Token) :
    Except Refusal (List α) :=
  match _hrun : item.run tokens with
  | .error refusal => .error refusal
  | .ok (a, []) => .ok (a :: done).reverse
  | .ok (a, token :: rest) =>
      if token.isPunctuation "," then separatedFrom item (a :: done) rest
      else .error ⟨.unexpectedToken token.text none, some token.span⟩
  termination_by tokens.length
  decreasing_by exact Nat.lt_of_succ_lt (item.shrinks _hrun)

/-- All of `tokens`: items separated by commas, or nothing at all. -/
def separated (item : Parser α) : List Token → Except Refusal (List α)
  | [] => .ok []
  | token :: tokens => separatedFrom item [] (token :: tokens)

instance : Combinators Parser where
  first := first
  orAfter := orAfter
  bind := bind
  build := build
  map := map
  follow := follow
  chain _ := chain
  expect := expect
  items _ := items

/-! What a grammar is read with when it is read with parsers. -/

@[simp]
theorem combinators_first (decide : Token → Decision Parser α) :
    Combinators.first decide = first decide :=
  rfl

@[simp]
theorem combinators_orAfter (p : Parser α) (choose : Token → Option (Parser α)) :
    Combinators.orAfter p choose = p.orAfter choose :=
  rfl

@[simp]
theorem combinators_bind (p : Parser α) (f : α → Parser β) : Combinators.bind p f = p.bind f :=
  rfl

@[simp]
theorem combinators_build (p : Parser α) (f : α → Except Refusal β) :
    Combinators.build p f = p.build f :=
  rfl

@[simp]
theorem combinators_expect (text : String) :
    (Combinators.expect text : Parser Span) = expect text :=
  rfl

end Parser

end ReactiveTemplate
