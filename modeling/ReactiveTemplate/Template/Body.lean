/-!
# Reading the body of a decorator

The body of a decorator goes up to the bracket that closes it. Brackets inside it have to match, and
what stands between quotes is skipped: there, a backslash takes the next character with it.
-/

namespace ReactiveTemplate

/-- What becomes of a body. -/
inductive Body where
  /-- The text in front of the closing bracket, and what comes after that bracket. -/
  | closed (text rest : List Char)
  /-- After `before` comes a closing bracket other than the one expected. -/
  | mismatched (before : List Char) (found expected : Char) (rest : List Char)
  /-- The source ends first. -/
  | unclosed
deriving DecidableEq, Inhabited

namespace Body

/-- Whether the next character of a body is part of a quoted run. -/
inductive Region where
  | plain
  | quoted (quote : Char)
  /-- Right behind a backslash in a quoted run. -/
  | hidden (quote : Char)
deriving DecidableEq, Inhabited

/-- The brackets that are open: the closer that comes next and, from inside out, those after it. -/
structure Closers where
  next : Char
  outer : List Char
deriving DecidableEq, Inhabited

/-- Whether `c` starts a quoted run. -/
def isQuote (c : Char) : Bool :=
  c = '"' || c = '\'' || c = '`'

/-- The bracket that closes what `c` opens. -/
def closerOf? (c : Char) : Option Char :=
  if c = '(' then some ')' else if c = '[' then some ']' else if c = '{' then some '}' else none

/-- Whether `c` is a closing bracket. -/
def isCloser (c : Char) : Bool :=
  c = ')' || c = ']' || c = '}'

/-- A body from behind its text so far, `taken`, which is in reverse. -/
def readFrom (closers : Closers) (region : Region) (taken : List Char) : List Char → Body
  | [] => unclosed
  | c :: cs =>
      match region with
      | .hidden quote => readFrom closers (.quoted quote) (c :: taken) cs
      | .quoted quote =>
          let region :=
            if c = '\\' then .hidden quote else if c = quote then .plain else .quoted quote
          readFrom closers region (c :: taken) cs
      | .plain =>
          if isQuote c then readFrom closers (.quoted c) (c :: taken) cs
          else
            match closerOf? c with
            | some closer => readFrom ⟨closer, closers.next :: closers.outer⟩ .plain (c :: taken) cs
            | none =>
                if !isCloser c then readFrom closers .plain (c :: taken) cs
                else if c != closers.next then mismatched taken.reverse c closers.next cs
                else
                  match closers.outer with
                  | [] => closed taken.reverse cs
                  | next :: outer => readFrom ⟨next, outer⟩ .plain (c :: taken) cs

/-- The body of a decorator that ends with `closer`. -/
def read (closer : Char) (cs : List Char) : Body :=
  readFrom ⟨closer, []⟩ .plain [] cs

/-! ## Nothing is lost -/

/-- The bracket that closes the body as a whole. -/
def Closers.outermost (closers : Closers) : Char :=
  (closers.next :: closers.outer).getLast (List.cons_ne_nil _ _)

theorem Closers.outermost_cons (closer next : Char) (outer : List Char) :
    outermost ⟨closer, next :: outer⟩ = outermost ⟨next, outer⟩ :=
  List.getLast_cons_cons

/-- What closes a body is the bracket that was expected first. -/
theorem append_of_closed {closers : Closers} {region : Region} {taken cs text rest : List Char}
    (h : readFrom closers region taken cs = .closed text rest) :
    text ++ closers.outermost :: rest = taken.reverse ++ cs := by
  fun_induction readFrom closers region taken cs with
  | case1 => contradiction
  | case7 => contradiction
  | case2 _ _ c cs _ ih | case3 _ _ c cs _ _ ih | case4 _ _ c cs _ ih | case6 _ _ c cs _ _ _ ih =>
      simpa using ih h
  | case5 closers _ c cs _ closer _ ih =>
      have hclosed := ih h
      rw [Closers.outermost_cons] at hclosed
      simpa using hclosed
  | case8 closers _ c cs _ _ _ hnext houter =>
      obtain ⟨next, outer⟩ := closers
      cases h
      cases houter
      have hnext : c = next := by simpa using hnext
      rw [hnext]
      rfl
  | case9 closers _ c cs _ _ _ hnext next outer houter ih =>
      obtain ⟨first, more⟩ := closers
      cases houter
      rw [Closers.outermost_cons]
      simpa using ih h

/-- A body, the bracket that closes it and what comes after that make up the text. -/
theorem append_read {closer : Char} {cs text rest : List Char}
    (h : read closer cs = .closed text rest) : text ++ closer :: rest = cs :=
  append_of_closed h

end Body

end ReactiveTemplate
