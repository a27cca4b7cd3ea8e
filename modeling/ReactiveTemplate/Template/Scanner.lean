import ReactiveTemplate.Fault
import ReactiveTemplate.Template.Body
import ReactiveTemplate.Template.Header

/-!
# Finding the decorators of a template

A template is read piece by piece: a comment, an escaped character, a decorator, or a character of
text. Pieces do not depend on where in the template they stand; `scan` adds the spans and joins
neighbouring pieces of text.
-/

namespace ReactiveTemplate

/-- A piece of a template. -/
inductive Piece where
  /-- The text `raw`, which is shown as `shown`. -/
  | text (shown raw : List Char)
  /-- A decorator: its opening, the text between that and the closing bracket, and this bracket. -/
  | decorator (opening : Part Opening) (body : List Char) (closer : Char)

namespace Template

/-- A comment from behind its text so far, `taken`, which is in reverse. It goes up to the first end
mark, or to the end of the source. -/
def readCommentFrom (taken : List Char) : List Char → List Char × List Char
  | '-' :: '-' :: '>' :: rest => (('>' :: '-' :: '-' :: taken).reverse, rest)
  | c :: cs => readCommentFrom (c :: taken) cs
  | [] => (taken.reverse, [])

/-- The comment at the head of a text, if one is there, and what comes after it. The end mark may
share its dashes with the start mark. -/
def readComment? (cs : List Char) : Option (List Char × List Char) :=
  if ['<', '!', '-', '-'].isPrefixOf cs then some (readCommentFrom [] cs) else none

/-- The decorator with the given opening, or why there is none, where `whole` is the text from the
opening on. -/
def readDecorator (whole : List Char) (opening : Part Opening) :
    Except Halt (Piece × List Char) :=
  let closer := opening.value.closer
  match Body.read closer opening.rest with
  | .closed text rest => .ok (.decorator opening text closer, rest)
  | .mismatched before found expected rest =>
      .error ⟨.mismatchedBracket found expected, opening.text ++ before, [found], rest⟩
  | .unclosed => .error ⟨.unexpectedEndOfSource closer, [], whole, []⟩

/-- The piece at the head of the text `c :: cs`, and what comes after it. -/
def readPiece (c : Char) (cs : List Char) : Except Halt (Piece × List Char) :=
  match readComment? (c :: cs) with
  | some (comment, rest) => .ok (.text comment comment, rest)
  | none =>
      if c = '\\' then
        match cs with
        | [] => .ok (.text [c] [c], [])
        | escaped :: rest => .ok (.text [escaped] [c, escaped], rest)
      else
        match Opening.read? (c :: cs) with
        | some opening => readDecorator (c :: cs) opening
        | none => .ok (.text [c] [c], cs)

/-! ## Pieces make progress -/

theorem length_le_of_readCommentFrom (taken cs : List Char) :
    (readCommentFrom taken cs).2.length ≤ cs.length - 1 := by
  fun_induction readCommentFrom taken cs with
  | case1 =>
      simp only [List.length_cons]
      omega
  | case2 _ c cs _ ih =>
      simp only [List.length_cons]
      omega
  | case3 => simp

/-- A piece of a template leaves no more than there is behind its first character, and so scanning
comes to an end. -/
theorem length_le_of_readPiece {c : Char} {cs rest : List Char} {piece : Piece}
    (h : readPiece c cs = .ok (piece, rest)) : rest.length ≤ cs.length := by
  unfold readPiece at h
  split at h
  · next comment rest' hcomment =>
      cases h
      unfold readComment? at hcomment
      split at hcomment
      · have hlength := length_le_of_readCommentFrom [] (c :: cs)
        rw [Option.some.inj hcomment] at hlength
        simpa using hlength
      · contradiction
  · split at h
    · split at h <;> cases h <;> simp
    · split at h
      · next opening hopening =>
          unfold readDecorator at h
          dsimp only at h
          split at h
          · next text rest' hbody =>
              cases h
              have hclosed := Body.append_read hbody
              have hsplit := Opening.read?_splits hopening
              have hpos := List.length_pos_iff.mpr (Opening.read?_ne_nil hopening)
              have hlength := congrArg List.length hsplit
              have hclosed := congrArg List.length hclosed
              simp at hlength hclosed
              omega
          · contradiction
          · contradiction
      · cases h
        simp

end Template

namespace Piece

/-- The source text of a piece. -/
def raw : Piece → List Char
  | text _ raw => raw
  | decorator opening body closer => opening.text ++ body ++ [closer]

end Piece

namespace Template

/-- The decorator of an opening at byte `offset` and the text between the brackets. -/
def decoratorAt (offset : Nat) (opening : Part Opening) (body : List Char) (closer : Char) :
    Decorator :=
  let blank := body.takeWhile Unicode.isBlank
  let expression := Unicode.trim body
  let bodyStart := offset + byteWidth opening.text
  let start := bodyStart + byteWidth blank
  { header := opening.value.header
    expression := String.ofList expression
    span := ⟨offset, bodyStart + byteWidth body + byteWidth [closer]⟩
    expressionSpan := ⟨start, start + byteWidth expression⟩ }

/-- The segments `done`, newest first, and one of the text `shown`, which is in reverse, unless that
is empty. -/
def flush (done : List Segment) (shown : List Char) : List Segment :=
  if shown.isEmpty then done else .text (String.ofList shown.reverse) :: done

/-- The segments of the text at byte `offset`, after the segments `done`, newest first, and the text
`shown`, which is in reverse. -/
def scanFrom (done : List Segment) (shown : List Char) (offset : Nat) :
    List Char → Except SyntaxError (List Segment)
  | [] => .ok (flush done shown).reverse
  | c :: cs =>
      match _hread : readPiece c cs with
      | .error halt => .error (halt.error offset)
      | .ok (.text more raw, rest) =>
          scanFrom done (more.reverse ++ shown) (offset + byteWidth raw) rest
      | .ok (.decorator opening body closer, rest) =>
          let decorator := decoratorAt offset opening body closer
          scanFrom (.decorator decorator :: flush done shown) [] decorator.span.stop rest
  termination_by cs => cs.length
  decreasing_by all_goals exact Nat.lt_succ_of_le (length_le_of_readPiece _hread)

end Template

/-- The segments of a template. -/
def scan (source : String) : Except SyntaxError (List Segment) :=
  Template.scanFrom [] [] 0 source.toList

/-- The markup of a template. -/
def process (source : String) : Except SyntaxError String :=
  (scan source).map render

/-- The decorators of a template, in the order of the source. -/
def decorators (source : String) : Except SyntaxError (List Decorator) :=
  (scan source).map fun segments => segments.filterMap Segment.decorator?

end ReactiveTemplate
