import ReactiveTemplate.Compiled
import ReactiveTemplate.Proofs.Expr.Completeness
import ReactiveTemplate.Proofs.Expr.Spelling
import ReactiveTemplate.Proofs.Template.Balance
import ReactiveTemplate.Proofs.Template.Frame
import ReactiveTemplate.Proofs.Template.Piece

/-!
# Expressions in templates

The reader of templates and the parser of expressions agree on where an expression ends: whatever
can be parsed can be put into a decorator, and is compiled there as it is alone.
-/

namespace ReactiveTemplate

open ReactiveTemplate.Body

/-! ## Expressions -/

/-- No expression starts with an equals sign, which would mark raw content. -/
theorem head_ne_of_parse {source : String} {es : List Expr} (h : parse source = .ok es) :
    ∀ c ∈ source.toList.head?, c ≠ '=' := by
  obtain ⟨lexemes, hlexes, hread⟩ := exists_lexes_of_parse h
  obtain ⟨d, hderives⟩ := DerivesSource.of_ofTokens hread
  have hwhole := hlexes.isWhole
  rintro c hc rfl
  generalize source.toList = cs at hlexes hc
  cases hlexes with
  | nil => contradiction
  | blank hblank =>
      cases hc
      exact absurd hblank (by decide)
  | @lexeme c cs rest lexeme lexemes _ hlexeme _ =>
      cases hc
      have happend := append_readLexeme hlexeme
      obtain ⟨c, text, htext⟩ := List.exists_cons_of_ne_nil (readLexeme_ne_nil hlexeme)
      rw [htext, List.cons_append, List.cons.injEq] at happend
      obtain ⟨rfl, -⟩ := happend
      -- Only an operator starts with an equals sign, and only a unary one starts an expression.
      have hkind : lexeme.kind = .operator := by
        apply Decidable.byContradiction
        intro hkind
        obtain ⟨c, cs, hopens, hc⟩ := (hwhole lexeme List.mem_cons_self).opens hkind
        rw [htext] at hopens
        cases hopens
        exact hc (by decide)
      rcases hderives with ⟨⟩ | ⟨hlist⟩
      obtain ⟨token, more, htokens, hopens⟩ := hlist.opens
      rw [List.map_cons, List.cons.injEq] at htokens
      obtain ⟨rfl, -⟩ := htokens
      obtain ⟨operator, hoperator⟩ := hopens.2 hkind
      have htail := congrArg String.toList (Token.isOperator_iff.mp hoperator).2
      simp only [Lexeme.bare, Lexeme.token, String.toList_ofList, htext] at htail
      cases operator <;> cases htail

/-- The blanks around an expression do not matter to its parser. -/
theorem parse_trim {source : String} {es : List Expr} (h : parse source = .ok es) :
    ∃ es', parse (String.ofList (Unicode.trim source.toList)) = .ok es' ∧ bare es' = bare es := by
  obtain ⟨lexemes, hlexes, hread⟩ := exists_lexes_of_parse h
  refine parse_of_lexes ?_ hread
  rw [String.toList_ofList]
  exact hlexes.trim

/-! ## Text and decorators -/

namespace Template

/-- The characters that may start something other than text. -/
def marks : List Char :=
  ['[', '{', '\\', '<']

theorem readPiece_text {c : Char} (hc : c ∉ marks) (cs : List Char) :
    readPiece c cs = .ok (.text [c] [c], cs) := by
  simp only [marks, List.mem_cons, List.not_mem_nil, or_false, not_or] at hc
  obtain ⟨hbracket, hbrace, hbackslash, hangle⟩ := hc
  have hcomment : readComment? (c :: cs) = none := by
    simp [readComment?, List.isPrefixOf, Ne.symm hangle]
  have hopening : Opening.read? (c :: cs) = none := by
    unfold Opening.read?
    split <;> simp_all
  unfold readPiece
  rw [hcomment]
  dsimp only
  rw [if_neg hbackslash, hopening]

variable (done : List Segment) (shown : List Char) (offset : Nat)

/-- A piece of text is put behind the text that is shown so far, and the offset moves by what was
read for it. -/
theorem scanFrom_of_text {c : Char} {cs more raw rest : List Char}
    (h : readPiece c cs = .ok (.text more raw, rest)) :
    scanFrom done shown offset (c :: cs) =
      scanFrom done (more.reverse ++ shown) (offset + byteWidth raw) rest := by
  rw [scanFrom]
  split
  · next hread =>
      rw [h] at hread
      contradiction
  · next hread =>
      rw [h] at hread
      cases hread
      rfl
  · next hread =>
      rw [h] at hread
      cases hread

/-- A decorator ends the text that is shown so far, which becomes a segment in front of it unless it
is empty. -/
theorem scanFrom_of_decorator {c : Char} {cs body rest : List Char} {opening : Part Opening}
    {closer : Char} (h : readPiece c cs = .ok (.decorator opening body closer, rest)) :
    scanFrom done shown offset (c :: cs) =
      scanFrom (.decorator (decoratorAt offset opening body closer) :: flush done shown) []
        (decoratorAt offset opening body closer).span.stop rest := by
  rw [scanFrom]
  split
  · next hread =>
      rw [h] at hread
      contradiction
  · next hread =>
      rw [h] at hread
      cases hread
  · next hread =>
      rw [h] at hread
      cases hread
      rfl

/-- A text without marks is scanned in one go. The induction is on the text, with one piece for each
character. -/
theorem scanFrom_text {text : List Char} (htext : ∀ c ∈ text, c ∉ marks) (rest : List Char) :
    scanFrom done shown offset (text ++ rest) =
      scanFrom done (text.reverse ++ shown) (offset + byteWidth text) rest := by
  induction text generalizing shown offset with
  | nil => rfl
  | cons c text ih =>
      rw [List.forall_mem_cons] at htext
      have hpiece := readPiece_text htext.1 (text ++ rest)
      -- Text is shown as it stands, so that both the text and the offset grow by this character.
      have hwidth : byteWidth (c :: text) = byteWidth [c] + byteWidth text :=
        byteWidth_append [c] text
      rw [List.cons_append, scanFrom_of_text _ _ _ hpiece, ih _ _ htext.2, hwidth, Nat.add_assoc]
      simp

theorem scanFrom_end {text : List Char} (htext : ∀ c ∈ text, c ∉ marks) :
    scanFrom done [] offset text = .ok (flush done text.reverse).reverse := by
  have hscan := scanFrom_text done [] offset htext []
  rw [List.append_nil, List.append_nil] at hscan
  rw [hscan, scanFrom]

/-! ### Frames -/

theorem passes_gap (frame : Frame) (closers : Closers) :
    Passes ⟨closers, .plain⟩ frame.gap.toList ⟨closers, .plain⟩ := by
  cases frame with
  | content => exact passes_nil _
  | bracket =>
      have hgap : (" " : String).toList = [' '] := by simp
      rw [Frame.gap, hgap]
      exact passes_text (by decide)

variable (frame : Frame) {e rest : List Char} {c : Char} {cs : List Char}

/-- Between the opening and the closing bracket of a frame, the body is the gap and the expression,
as far as the expression passes. -/
theorem read_frame (hpasses : ∀ closers, Passes ⟨closers, .plain⟩ e ⟨closers, .plain⟩) :
    Body.read frame.closer (frame.gap.toList ++ (e ++ frame.closer :: rest)) =
      .closed (frame.gap.toList ++ e) rest := by
  have hcloser : isCloser frame.closer := by cases frame <;> rfl
  rw [← List.append_assoc]
  exact read_of_passes hcloser ((passes_gap frame _).append (hpasses _)) rest

/-- A frame around an expression is read as one decorator. -/
theorem readPiece_frame (hpasses : ∀ closers, Passes ⟨closers, .plain⟩ e ⟨closers, .plain⟩)
    (hhead : ∀ c ∈ e.head?, c ≠ '=')
    (htext : frame.opening.toList ++ (frame.gap.toList ++ (e ++ frame.closer :: rest)) = c :: cs) :
    ∃ opening, opening.value.header = frame.header ∧
      readPiece c cs = .ok (.decorator opening (frame.gap.toList ++ e) frame.closer, rest) := by
  have hc : c = '[' ∨ c = '{' := by
    obtain ⟨d, text, hopening, hd⟩ := frame.toList_opening
    rw [hopening, List.cons_append, List.cons.injEq] at htext
    rwa [← htext.1]
  have hbody : ∀ c ∈ (e ++ frame.closer :: rest).head?, c ≠ '=' := by
    cases e with
    | nil =>
        rintro c ⟨⟩
        cases frame <;> simp [Frame.closer]
    | cons => exact hhead
  have hopening := Opening.read?_frame frame hbody
  refine ⟨⟨⟨frame.header, frame.closer⟩, frame.opening.toList,
    frame.gap.toList ++ (e ++ frame.closer :: rest)⟩, rfl, ?_⟩
  rw [readPiece_of_opener hc, ← htext, hopening]
  dsimp only [readDecorator]
  rw [read_frame frame hpasses]

theorem trim_gap (e : List Char) : Unicode.trim (frame.gap.toList ++ e) = Unicode.trim e := by
  cases frame with
  | content => rfl
  | bracket =>
      have hgap : (" " : String).toList = [' '] := by simp
      have hblank : Unicode.isBlank ' ' := by decide
      rw [Frame.gap, hgap, List.singleton_append, Unicode.trim, List.dropWhile_cons, if_pos hblank]
      rfl

end Template

/-- The segment of a text, unless that is empty. -/
def Segment.ofText (text : String) : List Segment :=
  if text.isEmpty then [] else [.text text]

theorem Segment.decorators_ofText (text : String) :
    (ofText text).filterMap Segment.decorator? = [] := by
  rw [ofText]
  split <;> rfl

/-- At the end of a scan the text that is shown becomes the last segment, and there is none if it is
empty. -/
theorem Template.reverse_flush (done : List Segment) (text : String) :
    (flush done text.toList.reverse).reverse = done.reverse ++ Segment.ofText text := by
  rw [flush, Segment.ofText]
  by_cases hempty : text = ""
  · subst hempty
    simp
  · simp [hempty]

/-- An expression in a frame, with text around it, is found as exactly one decorator. -/
theorem scan_around {e p q : String} {es : List Expr} (h : parse e = .ok es) (frame : Frame)
    (hp : ∀ c ∈ p.toList, c ∉ Template.marks) (hq : ∀ c ∈ q.toList, c ∉ Template.marks) :
    ∃ d, scan (p ++ frame.around e ++ q) =
        .ok (Segment.ofText p ++ .decorator d :: Segment.ofText q) ∧
      d.header = frame.header ∧ d.expression = String.ofList (Unicode.trim e.toList) := by
  have hsource : (p ++ frame.around e ++ q).toList = p.toList ++ (frame.opening.toList ++
      (frame.gap.toList ++ (e.toList ++ frame.closer :: q.toList))) := by
    simp [Frame.around]
  obtain ⟨c, text, hopening, -⟩ := frame.toList_opening
  have htext :
      frame.opening.toList ++ (frame.gap.toList ++ (e.toList ++ frame.closer :: q.toList)) =
      c :: (text ++ (frame.gap.toList ++ (e.toList ++ frame.closer :: q.toList))) := by
    rw [hopening, List.cons_append]
  obtain ⟨opening, hheader, hpiece⟩ :=
    Template.readPiece_frame frame (passes_of_parse h) (head_ne_of_parse h) htext
  refine ⟨Template.decoratorAt (0 + byteWidth p.toList) opening
    (frame.gap.toList ++ e.toList) frame.closer, ?_, hheader, ?_⟩
  · rw [scan, hsource, Template.scanFrom_text _ _ _ hp, hopening, List.cons_append,
      Template.scanFrom_of_decorator _ _ _ hpiece, Template.scanFrom_end _ _ hq,
      Template.reverse_flush, List.append_nil, List.reverse_cons, Template.reverse_flush]
    simp
  · simp [Template.decoratorAt, Template.trim_gap]

/-- An expression in a template is compiled as it is alone, whichever frame is around it, and its
decorator is the only one. No character in front of it or behind it marks anything. -/
theorem compileTemplate_around {e p q : String} {es : List Expr} (h : parse e = .ok es)
    (frame : Frame) (hp : ∀ c ∈ p.toList, c ∉ Template.marks)
    (hq : ∀ c ∈ q.toList, c ∉ Template.marks) :
    ∃ d compiled,
      scan (p ++ frame.around e ++ q) =
        .ok (Segment.ofText p ++ .decorator d :: Segment.ofText q) ∧
      d.header = frame.header ∧ d.expression = String.ofList (Unicode.trim e.toList) ∧
      compileExpression (String.ofList (Unicode.trim e.toList)) = .ok compiled ∧
      compileTemplate (p ++ frame.around e ++ q) =
        .ok ⟨render (Segment.ofText p ++ .decorator d :: Segment.ofText q), [⟨d, compiled⟩]⟩ := by
  obtain ⟨d, hscan, hheader, hexpression⟩ := scan_around h frame hp hq
  obtain ⟨es', hparse, -⟩ := parse_trim h
  have hcompile : compileExpression (String.ofList (Unicode.trim e.toList)) =
      .ok (.ofExpressions (String.ofList (Unicode.trim e.toList)) es') := by
    rw [compileExpression, hparse]
    rfl
  have hdecorators : (Segment.ofText p ++ .decorator d :: Segment.ofText q).filterMap
      Segment.decorator? = [d] := by
    rw [List.filterMap_append, Segment.decorators_ofText, List.nil_append]
    exact congrArg (d :: ·) (Segment.decorators_ofText q)
  refine ⟨d, _, hscan, hheader, hexpression, hcompile, ?_⟩
  have hdecorator : compileDecorator d =
      .ok ⟨d, .ofExpressions (String.ofList (Unicode.trim e.toList)) es'⟩ := by
    rw [compileDecorator, hexpression, hcompile]
  rw [compileTemplate, hscan]
  dsimp only
  rw [hdecorators, List.mapM_cons, hdecorator]
  rfl

/-- Brackets and quotes in strings belong to the expression, also where they do not match. -/
theorem compileTemplate_around_brackets :
    ∃ d compiled,
      scan r#"a [#on:x=m.n f("}]") ] b"# =
        .ok [.text "a ", .decorator d, .text " b"] ∧
      d.header = ⟨.modifier, "on", some "x", some "m.n", false⟩ ∧ d.expression = r#"f("}]")"# ∧
      compileExpression r#"f("}]")"# = .ok compiled ∧
      compileTemplate r#"a [#on:x=m.n f("}]") ] b"# =
        .ok ⟨render [.text "a ", .decorator d, .text " b"], [⟨d, compiled⟩]⟩ := by
  have hparse : (parse r#"f("}]") "#).isOk := by decide +kernel
  cases h : parse r#"f("}]") "# with
  | error e =>
      rw [h] at hparse
      contradiction
  | ok es =>
      obtain ⟨d, compiled, hscan, hheader, hexpression, hcompile, htemplate⟩ :=
        compileTemplate_around h (.bracket .modifier ⟨"on", by decide⟩
          (some ⟨"x", by decide⟩) (some ⟨⟨"m", by decide⟩, [⟨"n", by decide⟩]⟩))
          (p := "a ") (q := " b") (forall_mem_of_all (by decide)) (forall_mem_of_all (by decide))
      have htrim : String.ofList (Unicode.trim (r#"f("}]") "# : String).toList) =
          r#"f("}]")"# := by
        decide +kernel
      rw [htrim] at hexpression hcompile
      exact ⟨d, compiled, hscan, hheader, hexpression, hcompile, htemplate⟩

end ReactiveTemplate
