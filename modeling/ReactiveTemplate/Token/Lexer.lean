import ReactiveTemplate.Text.Position
import ReactiveTemplate.Token.Literal
import ReactiveTemplate.Unicode.Blank

/-!
# Splitting an expression into tokens

A token is read off the head of a text without regard to where that text stands. `Cursor.tokens`
repeats this up to the end of the text or the first fault, and adds the spans. After a fault the
cursor stands right behind the offending text, so reading can go on from there.
-/

namespace ReactiveTemplate

/-- The characters that are punctuation. -/
def punctuation : List Char :=
  ['(', ')', '{', '}', '[', ']', ',', '.', '?', ':']

/-- The operators; of two that share a beginning, the longer one comes first. -/
def operators : List (List Char) :=
  [['=', '=', '='], ['!', '=', '='], ['=', '='], ['!', '='], ['<', '='], ['>', '='], ['&', '&'],
    ['|', '|'], ['<'], ['>'], ['+'], ['-'], ['*'], ['/'], ['%'], ['!'], ['|']]

/-- Whether `c` opens and closes a string. -/
def isQuote (c : Char) : Bool :=
  c = '"' || c = '\''

/-- The token at the head of the text `c :: cs`, where `c` is not blank, and the text after it. -/
def readLexeme (c : Char) (cs : List Char) : Except Halt (Lexeme × List Char) :=
  if isNameStart c then
    .ok (⟨.identifier, c :: cs.takeWhile isNameChar⟩, cs.dropWhile isNameChar)
  else if isQuote c then readString c cs
  else if startsNumber c cs then readNumber (c :: cs)
  else if punctuation.contains c then .ok (⟨.punctuation, [c]⟩, cs)
  else
    match operators.find? (·.isPrefixOf (c :: cs)) with
    | some operator => .ok (⟨.operator, operator⟩, (c :: cs).drop operator.length)
    | none => .error ⟨.invalidToken c.toString, [], [c], cs⟩

/-- A lexeme and what is left behind it make up the source from there on. If reading halts, the same
holds of the text in question. -/
theorem readLexeme_keeps (c : Char) (cs : List Char) : Keeps (c :: cs) (readLexeme c cs) := by
  unfold readLexeme
  split
  · exact congrArg (c :: ·) List.takeWhile_append_dropWhile
  · split
    · exact readString_keeps c cs
    · split
      · exact readNumber_keeps (c :: cs)
      · split
        · rfl
        · split
          · next operator hfind =>
              have hfound := List.find?_some hfind
              obtain ⟨tail, htail⟩ := List.isPrefixOf_iff_prefix.mp hfound
              rw [← htail]
              simp [Keeps]
          · rfl

/-- The text of a token and what comes after it make up the text that was read. -/
theorem append_readLexeme {c : Char} {cs rest : List Char} {lexeme : Lexeme}
    (h : readLexeme c cs = .ok (lexeme, rest)) : lexeme.text ++ rest = c :: cs := by
  have hkeeps := readLexeme_keeps c cs
  rwa [h] at hkeeps

/-- What stands before a fault, the offending text and what comes after it make up the text. -/
theorem append_halt {c : Char} {cs : List Char} {halt : Halt} (h : readLexeme c cs = .error halt) :
    halt.before ++ halt.text ++ halt.rest = c :: cs := by
  have hkeeps := readLexeme_keeps c cs
  rwa [h] at hkeeps

/-- No token is empty. -/
theorem readLexeme_ne_nil {c : Char} {cs rest : List Char} {lexeme : Lexeme}
    (h : readLexeme c cs = .ok (lexeme, rest)) : lexeme.text ≠ [] := by
  unfold readLexeme at h
  split at h
  · cases h
    simp
  · split at h
    · exact readStringFrom_ne_nil h
    · split at h
      · next hstart => exact readNumber_ne_nil hstart h
      · split at h
        · cases h
          simp
        · split at h
          · next operator hfind =>
              cases h
              have hmem := List.mem_of_find?_eq_some hfind
              intro hempty
              subst hempty
              exact absurd hmem (by decide)
          · contradiction

/-- What comes after a token is shorter than the text with it. -/
theorem length_le_of_readLexeme {c : Char} {cs rest : List Char} {lexeme : Lexeme}
    (h : readLexeme c cs = .ok (lexeme, rest)) : rest.length ≤ cs.length := by
  have happend := congrArg List.length (append_readLexeme h)
  have hpos := List.length_pos_iff.mpr (readLexeme_ne_nil h)
  simp only [List.length_append, List.length_cons] at happend
  omega

/-- A place in an expression: the bytes before it and the text after it. -/
structure Cursor where
  offset : Nat
  rest : List Char
deriving Inhabited

namespace Cursor

/-- The start of a source. -/
def ofSource (source : String) : Cursor :=
  ⟨0, source.toList⟩

/-- The tokens `done`, in reverse, and those of the text `cs` at byte `offset`, or the first fault;
and the place where reading stops. -/
def tokensFrom (done : List Token) (offset : Nat) :
    List Char → Except SyntaxError (List Token) × Cursor
  | [] => (.ok done.reverse, ⟨offset, []⟩)
  | c :: cs =>
      if Unicode.isBlank c then tokensFrom done (offset + c.utf8Size) cs
      else
        match _hread : readLexeme c cs with
        | .ok (lexeme, rest) =>
            let width := byteWidth lexeme.text
            tokensFrom (lexeme.token offset width :: done) (offset + width) rest
        | .error halt =>
            let error := halt.error offset
            (.error error, ⟨error.span.stop, halt.rest⟩)
  termination_by cs => cs.length
  decreasing_by
    · simp
    · have hlength := length_le_of_readLexeme _hread
      simp only [List.length_cons]
      omega

/-- The tokens from a cursor on, or the first fault, and the place where reading stops. -/
def tokens (cursor : Cursor) : Except SyntaxError (List Token) × Cursor :=
  tokensFrom [] cursor.offset cursor.rest

/-- What `count` readings from a cursor on give, each from where the one before it stopped. -/
def readings (cursor : Cursor) : Nat → List (Except SyntaxError (List Token))
  | 0 => []
  | count + 1 =>
      let (result, next) := cursor.tokens
      result :: next.readings count

end Cursor

/-- The tokens of an expression. -/
def tokenize (source : String) : Except SyntaxError (List Token) :=
  (Cursor.ofSource source).tokens.1

end ReactiveTemplate
