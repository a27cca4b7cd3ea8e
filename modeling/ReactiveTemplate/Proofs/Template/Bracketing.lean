import ReactiveTemplate.Proofs.Template.Passage
import ReactiveTemplate.Proofs.Template.Piece

/-!
# Where a body ends

What the brackets of a body have to satisfy is a matter of words alone: take out the quoted runs,
and see whether what is left is well nested. A body is closed by the first bracket in front of which
it is, and wrong at the first closing bracket that does not fit the innermost open one. The reader
of bodies, which keeps a stack and reads every character once, finds exactly these.
-/

namespace ReactiveTemplate

namespace Body

/-! ## Quoted runs -/

/-- The inside of a quoted run. A backslash hides the next character, and no other quote of the same
kind is in it. -/
inductive Inside (quote : Char) : List Char → Prop where
  | nil : Inside quote []
  | hidden {run : List Char} {c : Char} (h : Inside quote run) : Inside quote (run ++ ['\\', c])
  | char {run : List Char} {c : Char} (h : Inside quote run) (hescape : c ≠ '\\')
      (hquote : c ≠ quote) : Inside quote (run ++ [c])

/-- `Unquoted text plain` says that `plain` is what is left of `text` without its quoted runs, all
of which are closed. -/
inductive Unquoted : List Char → List Char → Prop where
  | nil : Unquoted [] []
  | char {text plain : List Char} {c : Char} (h : Unquoted text plain) (hc : ¬isQuote c) :
      Unquoted (text ++ [c]) (plain ++ [c])
  | run {text plain run : List Char} {quote : Char} (h : Unquoted text plain)
      (hquote : isQuote quote) (hrun : Inside quote run) :
      Unquoted (text ++ quote :: (run ++ [quote])) plain

/-! ## Nested words -/

/-- A word of which all brackets match. -/
inductive Nested : List Char → Prop where
  | nil : Nested []
  | text {w : List Char} {c : Char} (h : Nested w) (hopener : closerOf? c = none)
      (hcloser : ¬isCloser c) : Nested (w ++ [c])
  | pair {w w' : List Char} {c closer : Char} (h : Nested w) (hc : closerOf? c = some closer)
      (h' : Nested w') : Nested (w ++ c :: (w' ++ [closer]))

/-- A word of which all brackets match but some that are left open. These are closed by `opens`, the
innermost first. -/
inductive Open : List Char → List Char → Prop where
  | nested {w : List Char} (h : Nested w) : Open [] w
  | opener {opens w w' : List Char} {c closer : Char} (h : Open opens w)
      (hc : closerOf? c = some closer) (h' : Nested w') : Open (closer :: opens) (w ++ c :: w')

theorem Nested.append {w w' : List Char} (h : Nested w) (h' : Nested w') : Nested (w ++ w') := by
  induction h' with
  | nil => rwa [List.append_nil]
  | text _ hopener hcloser ih =>
      rw [← List.append_assoc]
      exact ih.text hopener hcloser
  | pair _ hc h' ih _ =>
      rw [← List.append_assoc]
      exact ih.pair hc h'

theorem Open.append {opens w w' : List Char} (h : Open opens w) (h' : Nested w') :
    Open opens (w ++ w') := by
  cases h with
  | nested h => exact .nested (h.append h')
  | opener h hc hinner =>
      rw [List.append_assoc, List.cons_append]
      exact h.opener hc (hinner.append h')

theorem isCloser_of_closerOf? {c closer : Char} (h : closerOf? c = some closer) :
    isCloser closer := by
  simp only [closerOf?] at h
  grind [isCloser]

/-- A closing bracket is neither a quote nor an opening one, so that the three cases of the reader
exclude each other. -/
theorem plain_of_isCloser {c : Char} (h : isCloser c) : ¬isQuote c ∧ closerOf? c = none := by
  simp only [isCloser, Bool.or_eq_true, decide_eq_true_eq] at h
  rcases h with (rfl | rfl) | rfl <;> decide

/-- What one more character does to the brackets that are open. -/
inductive Turns : Char → List Char → List Char → Prop where
  | opener {c closer : Char} {opens : List Char} (hc : closerOf? c = some closer) :
      Turns c opens (closer :: opens)
  | closer {c : Char} {opens : List Char} (hc : isCloser c) : Turns c (c :: opens) opens
  | text {c : Char} {opens : List Char} (hopener : closerOf? c = none) (hcloser : ¬isCloser c) :
      Turns c opens opens

theorem Turns.append {c : Char} {opens opens' : List Char} (h : Turns c opens opens')
    (outer : List Char) : Turns c (opens ++ outer) (opens' ++ outer) := by
  cases h with
  | opener hc => exact .opener hc
  | closer hc => exact .closer hc
  | text hopener hcloser => exact .text hopener hcloser

/-- What is open in a part is open in the whole, inside of what is open there. -/
theorem Open.inside {opens opens' w w' : List Char} {c closer : Char} (h : Open opens w)
    (hc : closerOf? c = some closer) (h' : Open opens' w') :
    Open (opens' ++ closer :: opens) (w ++ c :: w') := by
  induction h' with
  | nested h' => exact h.opener hc h'
  | opener _ hc' h' ih =>
      rw [← List.cons_append, ← List.append_assoc]
      exact ih.opener hc' h'

theorem Open.concat {opens opens' w : List Char} {c : Char} (h : Open opens w)
    (hc : Turns c opens opens') : Open opens' (w ++ [c]) := by
  cases hc with
  | opener hc => exact h.opener hc .nil
  | text hopener hcloser => exact h.append (.text .nil hopener hcloser)
  | closer hc =>
      cases h with
      | opener h hopener hinner =>
          rw [List.append_assoc, List.cons_append]
          exact h.append (.pair .nil hopener hinner)

theorem Nested.of_concat {w : List Char} {c : Char} (h : Nested (w ++ [c])) :
    ∃ opens, Open opens w ∧ Turns c opens [] := by
  generalize hword : w ++ [c] = word at h
  cases h with
  | nil => simp at hword
  | text h hopener hcloser =>
      obtain ⟨rfl, hc⟩ := List.append_inj' hword rfl
      cases hc
      exact ⟨[], .nested h, .text hopener hcloser⟩
  | @pair front inner opener closer h hc hinner =>
      rw [← List.cons_append, ← List.append_assoc] at hword
      obtain ⟨rfl, hcloser⟩ := List.append_inj' hword rfl
      cases hcloser
      exact ⟨[c], (Open.nested h).opener hc hinner, .closer (isCloser_of_closerOf? hc)⟩

/-- What is open behind a word was made by its last character of what was open in front of it. This
makes the word determine the open brackets. -/
theorem Open.of_concat {opens' w : List Char} {c : Char} (h : Open opens' (w ++ [c])) :
    ∃ opens, Open opens w ∧ Turns c opens opens' := by
  generalize hword : w ++ [c] = word at h
  cases h with
  | nested h =>
      subst hword
      exact h.of_concat
  | @opener opens front inner opener closer h hc hinner =>
      rcases List.eq_nil_or_concat inner with rfl | ⟨inner, d, rfl⟩
      · obtain ⟨rfl, hopener⟩ := List.append_inj' hword rfl
        cases hopener
        exact ⟨opens, h, .opener hc⟩
      · rw [List.concat_eq_append, ← List.cons_append, ← List.append_assoc] at hword
        obtain ⟨rfl, hd⟩ := List.append_inj' hword rfl
        cases hd
        rw [List.concat_eq_append] at hinner
        obtain ⟨opens', hopens, hturns⟩ := hinner.of_concat
        exact ⟨opens' ++ closer :: opens, h.inside hc hopens, hturns.append _⟩

theorem Open.eq_nil {opens w : List Char} (h : Open opens w) (hword : w = []) : opens = [] := by
  cases h with
  | nested => rfl
  | opener => simp at hword

theorem open_nil_iff {w : List Char} : Open [] w ↔ Nested w := by
  refine ⟨fun h => ?_, .nested⟩
  cases h with
  | nested h => exact h

/-! ## The stack of the reader -/

/-- The closers of the brackets that are open in a body, and around them the closer of the body. -/
def Closers.around (closer : Char) : List Char → Closers
  | [] => ⟨closer, []⟩
  | next :: outer => ⟨next, outer ++ [closer]⟩

theorem Closers.next_around (closer : Char) (opens : List Char) :
    (around closer opens).next = opens.headD closer := by
  cases opens <;> rfl

theorem Closers.around_cons (closer next : Char) (opens : List Char) :
    around closer (next :: opens) =
      ⟨next, (around closer opens).next :: (around closer opens).outer⟩ := by
  cases opens <;> rfl

/-- The reader keeps the open brackets as the words do, character by character, as long as no quote
comes. -/
theorem passes_turns {c : Char} {opens opens' : List Char} (hquote : ¬isQuote c)
    (h : Turns c opens opens') (closer : Char) :
    Passes ⟨.around closer opens, .plain⟩ [c] ⟨.around closer opens', .plain⟩ := by
  cases h with
  | opener hc =>
      rw [Closers.around_cons]
      exact passes_opener hc
  | closer hc =>
      rw [Closers.around_cons]
      exact passes_closer hc _ _
  | text hopener hcloser =>
      apply passes_text
      intro hmark
      have hall : ∀ c ∈ marks, isQuote c ∨ closerOf? c ≠ none ∨ isCloser c :=
        forall_mem_of_all (by decide)
      rcases hall c hmark with hc | hc | hc
      · exact hquote hc
      · exact hc hopener
      · exact hcloser hc

theorem passes_inside {quote : Char} {run : List Char} (h : Inside quote run) (closers : Closers) :
    Passes ⟨closers, .quoted quote⟩ run ⟨closers, .quoted quote⟩ := by
  induction h with
  | nil => exact passes_nil _
  | hidden _ ih => exact ih.append (passes_backslash.cons passes_hidden)
  | char _ hescape hquote ih => exact ih.append (passes_quoted hescape hquote)

/-- The reader keeps the brackets that are open in what it has read without the quoted runs. -/
theorem passes_open {text plain opens : List Char} (h : Unquoted text plain)
    (hopen : Open opens plain) (closer : Char) :
    Passes ⟨.around closer [], .plain⟩ text ⟨.around closer opens, .plain⟩ := by
  induction h generalizing opens with
  | nil =>
      rw [hopen.eq_nil rfl]
      exact passes_nil _
  | char _ hc ih =>
      obtain ⟨before, hbefore, hturns⟩ := hopen.of_concat
      exact (ih hbefore).append (passes_turns hc hturns closer)
  | @run text plain run quote _ hquote hrun ih =>
      have hbackslash : quote ≠ '\\' := by
        rintro rfl
        exact absurd hquote (by decide)
      refine (ih hopen).append ((passes_quote hquote).cons ?_)
      exact (passes_inside hrun _).append (passes_unquote hbackslash)

/-! ## What is read -/

/-- A body and the bracket that closes it: the first one with no bracket open in front of it. -/
structure Closes (closer : Char) (cs body rest : List Char) : Prop where
  text : cs = body ++ closer :: rest
  nested : ∃ plain, Unquoted body plain ∧ Nested plain

/-- The first closing bracket that does not fit: all in front of it match, and the innermost of
those that are open there asks for another. -/
structure Breaks (closer : Char) (cs before : List Char) (found expected : Char)
    (rest : List Char) : Prop where
  text : cs = before ++ found :: rest
  closing : isCloser found
  opens : ∃ plain opens, Unquoted before plain ∧ Open opens plain ∧ expected = opens.headD closer
  ne : found ≠ expected

/-- What is said of the first closing bracket is what the reader does: it stops there and gives the
body in front. -/
theorem Closes.read {closer : Char} {cs body rest : List Char} (hcloser : isCloser closer)
    (h : Closes closer cs body rest) : read closer cs = .closed body rest := by
  obtain ⟨rfl, plain, hplain, hnested⟩ := h
  exact read_of_passes hcloser (passes_open hplain (.nested hnested) closer) rest

/-- The first bracket that does not fit stops the reader as well, with what it found and what it was
waiting for. -/
theorem Breaks.read {closer : Char} {cs before : List Char} {found expected : Char}
    {rest : List Char} (h : Breaks closer cs before found expected rest) :
    read closer cs = .mismatched before found expected rest := by
  obtain ⟨rfl, hfound, ⟨plain, opens, hplain, hopen, rfl⟩, hne⟩ := h
  rw [Body.read, show (⟨closer, []⟩ : Closers) = .around closer [] from rfl,
    passes_open hplain hopen closer]
  rw [← Closers.next_around] at hne ⊢
  have hplain := plain_of_isCloser hfound
  simp [readFrom, hfound, hne, hplain]

/-! ### The way back -/

/-- What has been read of a body, in plain text, when `closers` are to come. -/
def Reads (closer : Char) (closers : Closers) (text : List Char) : Prop :=
  ∃ plain opens, Unquoted text plain ∧ Open opens plain ∧ closers = .around closer opens

/-- What has been read of a body when the reader is at a place. -/
def Reached (closer : Char) (closers : Closers) (text : List Char) : Region → Prop
  | .plain => Reads closer closers text
  | .quoted quote => ∃ front run, text = front ++ quote :: run ∧ isQuote quote ∧
      Inside quote run ∧ Reads closer closers front
  | .hidden quote => ∃ front run, text = front ++ quote :: (run ++ ['\\']) ∧ isQuote quote ∧
      Inside quote run ∧ Reads closer closers front

theorem reads_nil (closer : Char) : Reads closer ⟨closer, []⟩ [] :=
  ⟨[], [], .nil, .nested .nil, rfl⟩

variable {closer c : Char} {closers : Closers} {text : List Char}

theorem Reads.opener {next : Char} (h : Reads closer closers text) (hquote : ¬isQuote c)
    (hc : closerOf? c = some next) :
    Reads closer ⟨next, closers.next :: closers.outer⟩ (text ++ [c]) := by
  obtain ⟨plain, opens, hplain, hopen, rfl⟩ := h
  rw [← Closers.around_cons]
  exact ⟨_, _, hplain.char hquote, hopen.concat (.opener hc), rfl⟩

theorem Reads.plain (h : Reads closer closers text) (hquote : ¬isQuote c)
    (hopener : closerOf? c = none) (hcloser : ¬isCloser c) :
    Reads closer closers (text ++ [c]) := by
  obtain ⟨plain, opens, hplain, hopen, rfl⟩ := h
  exact ⟨_, _, hplain.char hquote, hopen.concat (.text hopener hcloser), rfl⟩

/-- As long as there are brackets around the innermost, that is one of the body. -/
theorem Reads.close {next : Char} {outer : List Char} (h : Reads closer ⟨c, next :: outer⟩ text)
    (hc : isCloser c) : Reads closer ⟨next, outer⟩ (text ++ [c]) := by
  obtain ⟨plain, opens, hplain, hopen, hclosers⟩ := h
  cases opens with
  | nil => cases hclosers
  | cons first opens =>
      rw [Closers.around_cons] at hclosers
      cases hclosers
      exact ⟨_, _, hplain.char (plain_of_isCloser hc).1, hopen.concat (.closer hc), rfl⟩

/-- A quoted run counts for nothing: behind its closing quote the reader waits for what it waited
for in front of it. -/
theorem Reads.run {quote : Char} {run : List Char} (h : Reads closer closers text)
    (hquote : isQuote quote) (hrun : Inside quote run) :
    Reads closer closers (text ++ quote :: (run ++ [quote])) := by
  obtain ⟨plain, opens, hplain, hopen, rfl⟩ := h
  exact ⟨plain, opens, hplain.run hquote hrun, hopen, rfl⟩

/-- When only the outermost bracket is waited for, all brackets inside the body match. -/
theorem Reads.nested (h : Reads closer ⟨c, []⟩ text) :
    c = closer ∧ ∃ plain, Unquoted text plain ∧ Nested plain := by
  obtain ⟨plain, opens, hplain, hopen, hclosers⟩ := h
  cases opens with
  | nil =>
      cases hclosers
      exact ⟨rfl, plain, hplain, open_nil_iff.mp hopen⟩
  | cons first opens =>
      rw [Closers.around_cons] at hclosers
      cases hclosers

theorem Reached.hidden {quote : Char} (h : Reached closer closers text (.hidden quote)) (c : Char) :
    Reached closer closers (text ++ [c]) (.quoted quote) := by
  obtain ⟨front, run, rfl, hquote, hrun, hreads⟩ := h
  exact ⟨front, run ++ ['\\', c], by simp, hquote, hrun.hidden, hreads⟩

theorem Reached.quoted {quote : Char} (h : Reached closer closers text (.quoted quote)) (c : Char) :
    Reached closer closers (text ++ [c])
      (if c = '\\' then .hidden quote else if c = quote then .plain else .quoted quote) := by
  obtain ⟨front, run, rfl, hquote, hrun, hreads⟩ := h
  rw [List.append_assoc, List.cons_append]
  by_cases hescape : c = '\\'
  · rw [if_pos hescape, hescape]
    exact ⟨front, run, rfl, hquote, hrun, hreads⟩
  · rw [if_neg hescape]
    by_cases hend : c = quote
    · rw [if_pos hend, hend]
      exact hreads.run hquote hrun
    · rw [if_neg hend]
      exact ⟨front, run ++ [c], rfl, hquote, hrun.char hescape hend, hreads⟩

theorem Reads.quote (h : Reads closer closers text) (hquote : isQuote c) :
    Reached closer closers (text ++ [c]) (.quoted c) :=
  ⟨text, [], rfl, hquote, .nil, h⟩

/-- What a body is taken to be is what it is. -/
inductive Ends (closer : Char) (cs : List Char) : Body → Prop where
  | closed {body rest : List Char} (h : Closes closer cs body rest) :
      Ends closer cs (.closed body rest)
  | mismatched {before rest : List Char} {found expected : Char}
      (h : Breaks closer cs before found expected rest) :
      Ends closer cs (.mismatched before found expected rest)
  | unclosed : Ends closer cs .unclosed

/-- The reader keeps track of what it has read: each character takes it to the place that it is
then at. -/
theorem ends_readFrom {region : Region} {taken cs : List Char}
    (h : Reached closer closers taken.reverse region) :
    Ends closer (taken.reverse ++ cs) (readFrom closers region taken cs) := by
  fun_induction readFrom closers region taken cs with
  | case1 => exact .unclosed
  | case2 closers taken c cs quote ih =>
      rw [List.reverse_cons, List.append_assoc] at ih
      exact ih (h.hidden c)
  | case3 closers taken c cs quote region ih =>
      rw [List.reverse_cons, List.append_assoc] at ih
      exact ih (h.quoted c)
  | case4 closers taken c cs hquote ih =>
      rw [List.reverse_cons, List.append_assoc] at ih
      exact ih (Reads.quote h hquote)
  | case5 closers taken c cs hquote next hopener ih =>
      rw [List.reverse_cons, List.append_assoc] at ih
      exact ih (Reads.opener h hquote hopener)
  | case6 closers taken c cs hquote hopener hcloser ih =>
      rw [List.reverse_cons, List.append_assoc] at ih
      exact ih (Reads.plain h hquote hopener (by simpa using hcloser))
  | case7 closers taken c cs hquote hopener hcloser hnext =>
      obtain ⟨plain, opens, hplain, hopen, rfl⟩ := h
      exact .mismatched ⟨rfl, by simpa using hcloser,
        ⟨plain, opens, hplain, hopen, Closers.next_around closer opens⟩, by simpa using hnext⟩
  | case8 closers taken c cs hquote hopener hcloser hnext houter =>
      obtain ⟨next, outer⟩ := closers
      cases houter
      obtain ⟨rfl, hnested⟩ := Reads.nested h
      have hc : c = next := by simpa using hnext
      exact .closed ⟨by rw [hc], hnested⟩
  | case9 closers taken c cs hquote hopener hcloser hnext next outer houter ih =>
      obtain ⟨first, more⟩ := closers
      cases houter
      have hc : c = first := by simpa using hnext
      subst hc
      rw [List.reverse_cons, List.append_assoc] at ih
      exact ih (Reads.close h (by simpa using hcloser))

/-- Whatever the reader ends with is what the words say: the first closing bracket, the first one
that does not fit, or neither. -/
theorem ends_read (closer : Char) (cs : List Char) : Ends closer cs (read closer cs) :=
  ends_readFrom (show Reached closer ⟨closer, []⟩ [].reverse .plain from reads_nil closer)

/-- A body is read for what it is. -/
theorem read_eq_closed_iff (hcloser : isCloser closer) {cs body rest : List Char} :
    read closer cs = .closed body rest ↔ Closes closer cs body rest := by
  refine ⟨fun h => ?_, Closes.read hcloser⟩
  have hends := ends_read closer cs
  rw [h] at hends
  cases hends with
  | closed h => exact h

/-- The reader reports a mismatch exactly at the first closing bracket that does not match the
innermost open one. -/
theorem read_eq_mismatched_iff {cs before rest : List Char} {found expected : Char} :
    read closer cs = .mismatched before found expected rest ↔
      Breaks closer cs before found expected rest := by
  refine ⟨fun h => ?_, Breaks.read⟩
  have hends := ends_read closer cs
  rw [h] at hends
  cases hends with
  | mismatched h => exact h

/-- The reader reaches the end exactly if no bracket closes the body and none breaks it. -/
theorem read_eq_unclosed_iff (hcloser : isCloser closer) {cs : List Char} :
    read closer cs = .unclosed ↔
      (∀ body rest, ¬Closes closer cs body rest) ∧
      ∀ before found expected rest, ¬Breaks closer cs before found expected rest := by
  constructor
  · intro h
    refine ⟨fun body rest hcloses => ?_, fun before found expected rest hbreaks => ?_⟩
    · rw [hcloses.read hcloser] at h
      contradiction
    · rw [hbreaks.read] at h
      contradiction
  · rintro ⟨hcloses, hbreaks⟩
    cases hread : read closer cs with
    | closed body rest => exact absurd ((read_eq_closed_iff hcloser).mp hread) (hcloses _ _)
    | mismatched before found expected rest =>
        exact absurd (read_eq_mismatched_iff.mp hread) (hbreaks _ _ _ _)
    | unclosed => rfl

end Body

/-! ## Decorators -/

open ReactiveTemplate.Body ReactiveTemplate.Template

/-- A decorator behind the text `front`, with its opening, the text `body` and its closing bracket.
The expression is what is left of the body without the white space at its ends. -/
structure Decorator.Encloses (d : Decorator) (front opening body : List Char) (closer : Char) :
    Prop where
  span : d.span = .behind front (opening ++ body ++ [closer])
  expression : ∃ lead trail, body = lead ++ d.expression.toList ++ trail ∧
    (∀ c ∈ lead ++ trail, Unicode.isBlank c) ∧
    d.expressionSpan = .behind (front ++ opening ++ lead) d.expression.toList
  trimmed : Trimmed d.expression.toList

/-- The span of a decorator goes from what opens it to its closing bracket, and that of its
expression leaves out the blanks around it. -/
theorem Template.encloses_decoratorAt (front : List Char) (opening : Part Opening)
    (body : List Char) (closer : Char) :
    (decoratorAt (byteWidth front) opening body closer).Encloses front opening.text body
      closer := by
  obtain ⟨trail, hbody, htrail⟩ := exists_append_trim body
  refine ⟨?_, ⟨body.takeWhile Unicode.isBlank, trail, ?_, ?_, ?_⟩, ?_⟩
  · simp [decoratorAt, Span.behind, Nat.add_assoc]
  · simp [decoratorAt, ← hbody]
  · exact List.forall_mem_append.mpr ⟨fun c hc => of_mem_takeWhile hc, htrail⟩
  · simp [decoratorAt, Span.behind, Nat.add_assoc]
  · simpa [decoratorAt] using trimmed_trim body

/-- What becomes of a decorator is what becomes of its body. -/
theorem Template.readDecorator_iff (opening : Part Opening) (whole : List Char) :
    (∀ body rest, read opening.value.closer opening.rest = .closed body rest ↔
      readDecorator whole opening = .ok (.decorator opening body opening.value.closer, rest)) ∧
    (∀ before found expected rest,
      read opening.value.closer opening.rest = .mismatched before found expected rest ↔
        readDecorator whole opening =
          .error ⟨.mismatchedBracket found expected, opening.text ++ before, [found], rest⟩) ∧
    (read opening.value.closer opening.rest = .unclosed ↔
      readDecorator whole opening =
        .error ⟨.unexpectedEndOfSource opening.value.closer, [], whole, []⟩) := by
  rw [readDecorator]
  cases read opening.value.closer opening.rest with
  | closed body rest => simp
  | mismatched before found expected rest => simp [and_left_comm, and_assoc]
  | unclosed => simp

/-- The diagnostic of an error that stopped a reader has the message and the hint of the fault, and
the span of the text in question. -/
theorem Halt.diagnostic_error (halt : Halt) (before : List Char) :
    (halt.error (byteWidth before)).diagnostic =
      ⟨halt.fault.kind, halt.fault.message, .behind (before ++ halt.before) halt.text,
        halt.fault.help⟩ := by
  simp [error, SyntaxError.diagnostic, Span.behind, Nat.add_assoc]

/-- A closing bracket takes one byte. -/
theorem Span.behind_of_isCloser {c : Char} (h : isCloser c) (before : List Char) :
    behind before [c] = ⟨byteWidth before, byteWidth before + 1⟩ := by
  have hwidth : byteWidth [c] = 1 := by
    simp only [isCloser, Bool.or_eq_true, decide_eq_true_eq] at h
    rcases h with (rfl | rfl) | rfl <;> rfl
  rw [behind, byteWidth_append, hwidth]

section Balancing

variable {opener closer : Char} (hcloser : closerOf? opener = some closer) (header : Header)
  (front text cs : List Char)
include hcloser

/-- A decorator ends at the first bracket that closes its body, and it is refused at the first
closing bracket that does not match the innermost open one, with the one that was to come as a hint.
If there is neither, it is refused as a whole, up to the end of the source. Quoted runs do not
count. -/
theorem readDecorator_balanced :
    let opening : Part Opening := ⟨⟨header, closer⟩, opener :: text, cs⟩
    let whole := opener :: text ++ cs
    let mismatch (before : List Char) (found expected : Char) (rest : List Char) : Halt :=
      ⟨.mismatchedBracket found expected, opener :: text ++ before, [found], rest⟩
    let shortage : Halt := ⟨.unexpectedEndOfSource closer, [], whole, []⟩
    (∀ body rest, Closes closer cs body rest ↔
      readDecorator whole opening = .ok (.decorator opening body closer, rest)) ∧
    (∀ before found expected rest, Breaks closer cs before found expected rest ↔
      readDecorator whole opening = .error (mismatch before found expected rest)) ∧
    ((∀ body rest, ¬Closes closer cs body rest) ∧
        (∀ before found expected rest, ¬Breaks closer cs before found expected rest) ↔
      readDecorator whole opening = .error shortage) ∧
    (∀ body, (decoratorAt (byteWidth front) opening body closer).Encloses front (opener :: text)
      body closer) ∧
    (∀ before found expected rest, Breaks closer cs before found expected rest →
      let start := byteWidth (front ++ opener :: text ++ before)
      ((mismatch before found expected rest).error (byteWidth front)).diagnostic =
        ⟨.mismatchedBracket, "Unexpected token \"" ++ found.toString ++ "\"", ⟨start, start + 1⟩,
          some ("Expected " ++ expected.toString ++ " before " ++ found.toString)⟩) ∧
    (shortage.error (byteWidth front)).diagnostic =
      ⟨.unexpectedEndOfSource, "Unexpected end of source", .behind front whole,
        some ("Close the decorator with " ++ closer.toString)⟩ := by
  intro opening whole mismatch shortage
  have hbracket := isCloser_of_closerOf? hcloser
  obtain ⟨hclosed, hmismatched, hunclosed⟩ := readDecorator_iff opening whole
  refine ⟨?_, ?_, ?_, ?_, ?_, ?_⟩
  · intro body rest
    rw [← read_eq_closed_iff hbracket]
    exact hclosed body rest
  · intro before found expected rest
    rw [← read_eq_mismatched_iff]
    exact hmismatched before found expected rest
  · rw [← read_eq_unclosed_iff hbracket]
    exact hunclosed
  · exact fun body => encloses_decoratorAt front opening body closer
  · intro before found expected rest h start
    rw [Halt.diagnostic_error, ← List.append_assoc, Span.behind_of_isCloser h.closing]
    rfl
  · rw [Halt.diagnostic_error, List.append_nil]
    rfl

end Balancing

/-- A closing bracket in a quoted run closes nothing, and behind it, one does not match. -/
theorem readDecorator_balanced_quoted :
    closerOf? '{' = some '}' ∧
      Closes '}' r"f('\'}') }!".toList r"f('\'}') ".toList ['!'] ∧
      Breaks '}' r"f('\'}'] }!".toList r"f('\'}'".toList ']' ')' r" }!".toList := by
  have hbrace : closerOf? '{' = some '}' := rfl
  obtain ⟨hcloses, -⟩ :=
    readDecorator_balanced hbrace (.ofContent "text") [] [] r"f('\'}') }!".toList
  obtain ⟨-, hbreaks, -⟩ :=
    readDecorator_balanced hbrace (.ofContent "text") [] [] r"f('\'}'] }!".toList
  exact ⟨hbrace, (hcloses _ _).mpr rfl, (hbreaks _ _ _ _).mpr rfl⟩

end ReactiveTemplate
