import ReactiveTemplate.Expr.Parser

/-!
# Laws of parsers

What the combinators of parsers do, in two forms. The equations with success on one side say which
steps a successful reading is made of. The laws of `Gives` say what a reading gives when the only
possible refusal is that of parts nested too deeply.
-/

namespace ReactiveTemplate.Parser

variable {α β : Type}

/-! ## Successful readings -/

theorem refuse_run_ne_ok {fault : Fault} {tokens : List Token} {r : α × List Token} :
    (refuse fault : Parser α).run tokens ≠ .ok r := by
  simp [refuse]

/-- What a reader that takes one token has read: the token alone, or the token and all that the
parser it named has read behind it. -/
theorem first_run_eq_ok {decide : Token → Decision Parser α} {tokens : List Token}
    {r : α × List Token} :
    (first decide).run tokens = .ok r ↔
      ∃ token rest, tokens = token :: rest ∧
        ((∃ a, decide token = .finish a ∧ r = (a, rest)) ∨
          ∃ p, decide token = .proceed p ∧ p.run rest = .ok r) := by
  cases tokens with
  | nil => simp [first, exhausted]
  | cons token rest =>
      simp only [first, List.cons.injEq, exists_eq_left', and_assoc, exists_and_left]
      cases decide token <;> simp [eq_comm]

/-- Two parsers in a row succeed when the first one does and the second one, made of its result,
reads on where the first one ended. -/
theorem bind_run_eq_ok {p : Parser α} {f : α → Parser β} {tokens : List Token}
    {r : β × List Token} :
    (p.bind f).run tokens = .ok r ↔
      ∃ a rest, p.run tokens = .ok (a, rest) ∧ (f a).run rest = .ok r := by
  simp only [bind]
  cases p.run tokens <;> simp [Prod.ext_iff, and_assoc]

/-- A parser whose result is made into something takes what it took before, and succeeds when the
making does, too. -/
theorem build_run_eq_ok {p : Parser α} {f : α → Except Refusal β} {tokens rest : List Token}
    {b : β} :
    (p.build f).run tokens = .ok (b, rest) ↔ ∃ a, p.run tokens = .ok (a, rest) ∧ f a = .ok b := by
  simp only [build]
  cases p.run tokens with
  | error => simp
  | ok r =>
      obtain ⟨a, rest'⟩ := r
      cases hb : f a <;> grind

theorem map_run_eq_ok {p : Parser α} {f : α → β} {tokens rest : List Token} {b : β} :
    (p.map f).run tokens = .ok (b, rest) ↔ ∃ a, p.run tokens = .ok (a, rest) ∧ f a = b := by
  simp [map, build_run_eq_ok]

/-- A chain is a first reading and the repetition from its result, so that facts about repetitions
carry over to chains. -/
theorem chain_run_eq_ok {p : Parser α} {step : α → Token → Option (Parser α)}
    {tokens : List Token} {r : α × List Token} :
    (p.chain step).run tokens = .ok r ↔
      ∃ a rest, p.run tokens = .ok (a, rest) ∧ repeatFrom step a rest = .ok r := by
  simp only [chain]
  cases p.run tokens <;> simp [Prod.ext_iff, and_assoc]

/-- What may be followed once has either been read without the continuation, or with the one that
the next token named. -/
theorem exists_of_follow_run {p : Parser α} {step : α → Token → Option (Parser α)}
    {tokens : List Token} {r : α × List Token} (h : (p.follow step).run tokens = .ok r) :
    ∃ a rest, p.run tokens = .ok (a, rest) ∧
      (r = (a, rest) ∨
        ∃ token rest' q, rest = token :: rest' ∧ step a token = some q ∧ q.run rest' = .ok r) := by
  simp only [follow] at h
  split at h
  · next a hrun =>
      cases h
      exact ⟨a, [], hrun, .inl rfl⟩
  · next a token rest hrun =>
      refine ⟨a, token :: rest, hrun, ?_⟩
      split at h
      · next q hq => exact .inr ⟨token, rest, q, rfl, hq, h⟩
      · cases h
        exact .inl rfl
  · contradiction

/-- Either the parser itself has read all the tokens, or the one that the first token named has read
what is behind that token. -/
theorem exists_of_orAfter_run {p : Parser α} {choose : Token → Option (Parser α)}
    {tokens : List Token} {r : α × List Token} (h : (p.orAfter choose).run tokens = .ok r) :
    p.run tokens = .ok r ∨
      ∃ token rest q, tokens = token :: rest ∧ choose token = some q ∧ q.run rest = .ok r := by
  simp only [orAfter] at h
  split at h
  · exact .inl h
  · next token rest =>
      split at h
      · next q hq => exact .inr ⟨token, rest, q, rfl, hq, h⟩
      · exact .inl h

/-- An expected punctuation is the first token, and its span is the result. Nothing else of the
tokens is looked at. -/
theorem expect_run_eq_ok {text : String} {tokens rest : List Token} {span : Span} :
    (expect text).run tokens = .ok (span, rest) ↔
      ∃ token, tokens = token :: rest ∧ token.isPunctuation text ∧ token.span = span := by
  rw [expect, first_run_eq_ok]
  constructor
  · rintro ⟨token, rest', rfl, ⟨a, hdecide, hr⟩ | ⟨p, hdecide, -⟩⟩
    · split at hdecide
      · cases hdecide
        cases hr
        exact ⟨token, rfl, by assumption, rfl⟩
      · contradiction
    · split at hdecide <;> contradiction
  · rintro ⟨token, rfl, htoken, rfl⟩
    exact ⟨token, rest, rfl, .inl ⟨token.span, by simp [htoken], rfl⟩⟩

theorem expect_run_cons {text : String} {token : Token} {rest : List Token}
    (h : token.isPunctuation text) : (expect text).run (token :: rest) = .ok (token.span, rest) :=
  expect_run_eq_ok.mpr ⟨token, rfl, h, rfl⟩

theorem take?_eq_some {text : String} {tokens rest : List Token} {span : Span} :
    take? text tokens = some (span, rest) ↔
      ∃ token, tokens = token :: rest ∧ token.isPunctuation text ∧ token.span = span := by
  cases tokens with
  | nil => simp [take?]
  | cons token rest' =>
      simp only [take?, Option.ite_none_right_eq_some, Option.some.injEq, Prod.mk.injEq,
        List.cons.injEq]
      grind

/-- One round of a repetition. The step decides by the next token, and what it names has to succeed:
a repetition does not stop in the middle of a step. -/
theorem repeatFrom_cons {step : α → Token → Option (Parser α)} {a : α} {token : Token}
    {p : Parser α} {tokens : List Token} (hstep : step a token = some p) :
    repeatFrom step a (token :: tokens) =
      match p.run tokens with
      | .ok (a, rest) => repeatFrom step a rest
      | .error refusal => .error refusal := by
  rw [repeatFrom, hstep]
  dsimp only
  split <;> simp_all

/-- A repetition ends, without taking anything, in front of a token that no step starts with, and at
the end of the tokens. -/
theorem repeatFrom_of_none {step : α → Token → Option (Parser α)} {a : α} {tokens : List Token}
    (h : ∀ token ∈ tokens.head?, step a token = none) :
    repeatFrom step a tokens = .ok (a, tokens) := by
  cases tokens with
  | nil => rw [repeatFrom]
  | cons token rest => rw [repeatFrom, h token rfl]

theorem itemsFrom_of_close {item : Parser α} {close : String} {token : Token}
    {rest : List Token} (h : token.isPunctuation close) :
    itemsFrom item close [] (token :: rest) = .ok (([], token.span), rest) := by
  rw [itemsFrom, take?_eq_some.mpr ⟨token, rfl, h, rfl⟩]
  rfl

/-- A list that does not end at once starts with an item. -/
theorem itemsFrom_of_open {item : Parser α} {close : String} {done : List α}
    {tokens : List Token} (h : take? close tokens = none) :
    itemsFrom item close done tokens =
      match item.run tokens with
      | .ok (a, rest) =>
          match take? "," rest with
          | some (_, rest) => itemsFrom item close (a :: done) rest
          | none =>
              match (expect close).run rest with
              | .ok (span, rest) => .ok (((a :: done).reverse, span), rest)
              | .error refusal => .error refusal
      | .error refusal => .error refusal := by
  rw [itemsFrom, h]
  dsimp only
  split
  · simp_all
  · next hrun =>
      rw [hrun]
      dsimp only
      split
      · simp_all
      · next hcomma => exact hcomma ▸ rfl

/-- What has been read already stands in front of the rest of a list. -/
theorem itemsFrom_eq_map (item : Parser α) (close : String) (done : List α)
    (tokens : List Token) :
    itemsFrom item close done tokens =
      (itemsFrom item close [] tokens).map fun r => ((done.reverse ++ r.1.1, r.1.2), r.2) := by
  induction hn : tokens.length using Nat.strongRecOn generalizing done tokens with
  | ind n ih =>
      subst hn
      rw [itemsFrom.eq_def item close done, itemsFrom.eq_def item close []]
      split
      · simp [Except.map]
      · split
        · rfl
        · next a rest hrun =>
            split
            · next span rest' hcomma =>
                have hlength : rest'.length < tokens.length :=
                  Nat.lt_trans (length_lt_of_take? hcomma) (item.shrinks hrun)
                rw [ih _ hlength (a :: done) rest' rfl, ih _ hlength [a] rest' rfl]
                cases itemsFrom item close [] rest' <;> simp [Except.map]
            · split <;> simp [Except.map]

/-- What comes after an item of a list without brackets. -/
def separatedFromRest (item : Parser α) (done : List α) : List Token → Except Refusal (List α)
  | [] => .ok done.reverse
  | token :: rest =>
      if token.isPunctuation "," then separatedFrom item done rest
      else .error ⟨.unexpectedToken token.text none, some token.span⟩

/-- A list without brackets is read item by item: first one item, then the decision about what may
stand behind it. -/
theorem separatedFrom_eq (item : Parser α) (done : List α) (tokens : List Token) :
    separatedFrom item done tokens =
      match item.run tokens with
      | .ok (a, rest) => separatedFromRest item (a :: done) rest
      | .error refusal => .error refusal := by
  rw [separatedFrom]
  split <;> simp_all [separatedFromRest]

/-! ## Readings of bounded depth -/

/-- A reading that gives `expected` where its parts fit within the limits of nesting, and that is
refused for being nested too deeply where they do not. -/
def Gives (fits : Prop) (actual expected : Except Refusal α) : Prop :=
  (fits → actual = expected) ∧ (¬fits → ∃ place, actual = .error ⟨.nestingTooDeep, place⟩)

namespace Gives

variable {P Q : Prop}

theorem of_eq {actual expected : Except Refusal α} (hP : P) (h : actual = expected) :
    Gives P actual expected :=
  ⟨fun _ => h, fun hn => absurd hP hn⟩

/-- Under which condition a reading succeeds may be said in any equivalent way, as with the bounds
of the parts put together to the bound of the whole. -/
theorem congr {actual expected : Except Refusal α} (h : Gives P actual expected) (hiff : P ↔ Q) :
    Gives Q actual expected := by
  rwa [Gives, ← hiff]

/-- A refusal of one of two readings in turn is a refusal of both together. -/
theorem trans {first second third : Except Refusal α} (h : Gives P first second)
    (h' : Gives Q second third) : Gives (P ∧ Q) first third := by
  by_cases hP : P
  · rw [h.1 hP]
    exact h'.congr (by simp [hP])
  · exact ⟨fun hPQ => absurd hPQ.1 hP, fun _ => h.2 hP⟩

/-- A reading whose condition does not hold need only be refused for its depth. At which place that
happens is left open. -/
theorem refuse {actual expected : Except Refusal α} (place : Option Span) (hP : ¬P)
    (h : actual = .error ⟨.nestingTooDeep, place⟩) : Gives P actual expected :=
  ⟨fun hp => absurd hp hP, fun _ => ⟨place, h⟩⟩

/-- A reading goes on from what another one gives; a refusal ends it. -/
theorem andThen {first : Except Refusal (α × List Token)} {a : α} {rest : List Token}
    {k : α → List Token → Except Refusal β} {expected : Except Refusal β}
    (h : Gives P first (.ok (a, rest))) (h' : Gives Q (k a rest) expected) :
    Gives (P ∧ Q)
      (match first with
        | .ok (a, rest) => k a rest
        | .error refusal => .error refusal) expected := by
  by_cases hP : P
  · rw [h.1 hP]
    exact h'.congr (by simp [hP])
  · obtain ⟨place, hplace⟩ := h.2 hP
    rw [hplace]
    exact .refuse place (fun hPQ => hP hPQ.1) rfl

variable {p : Parser α} {tokens rest : List Token} {a : α}

/-- Two parsers in a row read what each of them reads, under the conditions of both. If one of them
is too deep, so is the whole. -/
theorem bind {f : α → Parser β} {expected : Except Refusal (β × List Token)}
    (h : Gives P (p.run tokens) (.ok (a, rest))) (h' : Gives Q ((f a).run rest) expected) :
    Gives (P ∧ Q) ((p.bind f).run tokens) expected :=
  h.andThen h'

/-- What is built of a result is given under the condition of the reading and of the building, which
refuses trees that are too high. -/
theorem build {f : α → Except Refusal β} {b : β} (h : Gives P (p.run tokens) (.ok (a, rest)))
    (h' : Gives Q (f a) (.ok b)) : Gives (P ∧ Q) ((p.build f).run tokens) (.ok (b, rest)) := by
  apply h.andThen
  by_cases hQ : Q
  · exact .of_eq hQ (by rw [h'.1 hQ])
  · obtain ⟨place, hplace⟩ := h'.2 hQ
    exact .refuse place hQ (by rw [hplace])

theorem map {f : α → β} (h : Gives P (p.run tokens) (.ok (a, rest))) :
    Gives P ((p.map f).run tokens) (.ok (f a, rest)) :=
  (h.build (f := fun a => .ok (f a)) (.of_eq trivial rfl)).congr (Iff.of_eq (and_true P))

/-- A chain gives what its repetition gives from the first result. The condition of the first
reading is the only one so far. -/
theorem chain {step : α → Token → Option (Parser α)}
    (h : Gives P (p.run tokens) (.ok (a, rest))) :
    Gives P ((p.chain step).run tokens) (repeatFrom step a rest) :=
  (h.andThen (.of_eq trivial rfl)).congr (Iff.of_eq (and_true P))

/-- A step that has been read leaves the repetition with the new result, so that a chain is followed
step by step. -/
theorem repeatFrom {step : α → Token → Option (Parser α)} {token : Token} {b : α}
    (hstep : step a token = some p) (h : Gives P (p.run tokens) (.ok (b, rest))) :
    Gives P (repeatFrom step a (token :: tokens)) (repeatFrom step b rest) := by
  rw [repeatFrom_cons hstep]
  exact (h.andThen (.of_eq trivial rfl)).congr (Iff.of_eq (and_true P))

/-- A continuation that the next token names is read with the parser it names, under the conditions
of both parts. -/
theorem follow {step : α → Token → Option (Parser α)} {token : Token} {q : Parser α}
    {expected : Except Refusal (α × List Token)}
    (h : Gives P (p.run tokens) (.ok (a, token :: rest))) (hstep : step a token = some q)
    (h' : Gives Q (q.run rest) expected) :
    Gives (P ∧ Q) ((p.follow step).run tokens) expected := by
  by_cases hP : P
  · simp only [Parser.follow, h.1 hP, hstep]
    exact h'.congr (by simp [hP])
  · obtain ⟨place, hplace⟩ := h.2 hP
    exact .refuse place (fun hPQ => hP hPQ.1) (by simp [Parser.follow, hplace])

/-- Nothing follows when the next token does not let it. -/
theorem unfollowed {step : α → Token → Option (Parser α)}
    (h : Gives P (p.run tokens) (.ok (a, rest)))
    (hstep : ∀ token ∈ rest.head?, step a token = none) :
    Gives P ((p.follow step).run tokens) (.ok (a, rest)) := by
  by_cases hP : P
  · refine .of_eq hP ?_
    cases rest with
    | nil => simp [Parser.follow, h.1 hP]
    | cons token rest => simp [Parser.follow, h.1 hP, hstep token rfl]
  · obtain ⟨place, hplace⟩ := h.2 hP
    exact .refuse place hP (by simp [Parser.follow, hplace])

/-- The last item of a list in brackets and the bracket behind it. A bracket is not taken for the
end where an item starts. -/
theorem itemsFrom_last {close : String} {token : Token} (hopen : take? close tokens = none)
    (h : Gives P (p.run tokens) (.ok (a, token :: rest))) (hclose : token.isPunctuation close)
    (hcomma : close ≠ ",") :
    Gives P (itemsFrom p close [] tokens) (.ok (([a], token.span), rest)) := by
  rw [itemsFrom_of_open hopen]
  refine (h.andThen (.of_eq trivial ?_)).congr (Iff.of_eq (and_true P))
  have hnone : take? "," (token :: rest) = none := by
    rw [Option.eq_none_iff_forall_not_mem]
    rintro ⟨span, rest'⟩ hsome
    obtain ⟨token', htoken, hpunct, -⟩ := take?_eq_some.mp hsome
    cases htoken
    simp only [Token.isPunctuation, Bool.and_eq_true, beq_iff_eq] at hclose hpunct
    exact hcomma (hclose.2.symm.trans hpunct.2)
  rw [hnone, expect_run_cons hclose]
  rfl

/-- An item, a comma and the items behind it. The conditions add up, which makes this the induction
step for lists in brackets. -/
theorem itemsFrom_more {close : String} {comma : Token} {rest' : List Token} {as : List α}
    {stop : Span} (hopen : take? close tokens = none)
    (h : Gives P (p.run tokens) (.ok (a, comma :: rest))) (hcomma : comma.isPunctuation ",")
    (hs : Gives Q (itemsFrom p close [] rest) (.ok ((as, stop), rest'))) :
    Gives (P ∧ Q) (itemsFrom p close [] tokens) (.ok ((a :: as, stop), rest')) := by
  rw [itemsFrom_of_open hopen]
  apply h.andThen
  rw [take?_eq_some.mpr ⟨comma, rfl, hcomma, rfl⟩]
  dsimp only
  rw [itemsFrom_eq_map]
  by_cases hQ : Q
  · rw [hs.1 hQ]
    exact .of_eq hQ rfl
  · obtain ⟨place, hplace⟩ := hs.2 hQ
    rw [hplace]
    exact .refuse place hQ rfl

/-- The last expression of a list without brackets: nothing is left behind it, and the list is what
has been read so far. -/
theorem separatedFrom_last {done : List α} (h : Gives P (p.run tokens) (.ok (a, []))) :
    Gives P (separatedFrom p done tokens) (.ok (a :: done).reverse) := by
  rw [separatedFrom_eq]
  exact (h.andThen (.of_eq trivial rfl)).congr (Iff.of_eq (and_true P))

/-- An expression and the comma behind it: the list is read on with the expression added to those in
front of it. -/
theorem separatedFrom_more {done : List α} {comma : Token} {expected : Except Refusal (List α)}
    (h : Gives P (p.run tokens) (.ok (a, comma :: rest))) (hcomma : comma.isPunctuation ",")
    (hs : Gives Q (separatedFrom p (a :: done) rest) expected) :
    Gives (P ∧ Q) (separatedFrom p done tokens) expected := by
  rw [separatedFrom_eq]
  apply h.andThen
  rw [separatedFromRest, if_pos hcomma]
  exact hs

end Gives

end ReactiveTemplate.Parser
