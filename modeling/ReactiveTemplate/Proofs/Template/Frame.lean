import ReactiveTemplate.Proofs.Token.Locality
import ReactiveTemplate.Template.Header

/-!
# Frames of decorators

A frame is a decorator without its expression. What is written around an expression is read as the
header that it was written for.
-/

namespace ReactiveTemplate

/-- Whether a text is a name. -/
def isName (text : String) : Bool :=
  match text.toList with
  | [] => false
  | c :: cs => isNameStart c && cs.all isNameChar

/-- A name of a decorator, of its label, or of a part of its model. -/
structure Name where
  text : String
  isName : isName text

/-- Names with points between them. -/
structure Path where
  first : Name
  more : List Name

/-- The text of a path. -/
def Path.text (path : Path) : String :=
  ".".intercalate ((path.first :: path.more).map Name.text)

/-- A decorator without its expression. -/
inductive Frame where
  /-- The frame `{…}`, or `{=…}` for raw content. -/
  | content (raw : Bool)
  /-- The frame `[name …]`, with a number sign in front of the name of a modifier. -/
  | bracket (kind : DecoratorKind) (name : Name) (label : Option Name) (model : Option Path)

namespace Frame

/-- A text behind its mark, if there is one. -/
def marked (mark : Char) : Option String → String
  | none => ""
  | some text => String.singleton mark ++ text

/-- The number sign of a modifier. -/
def sign : DecoratorKind → String
  | .modifier => "#"
  | .processor => ""

/-- What a frame says of its decorator. -/
def header : Frame → Header
  | content raw => ⟨.processor, if raw then "html" else "text", none, none, true⟩
  | bracket kind name label model =>
      ⟨kind, name.text, label.map Name.text, model.map Path.text, false⟩

/-- The text of a header. -/
def head (kind : DecoratorKind) (name : Name) (label : Option Name) (model : Option Path) :
    String :=
  sign kind ++ (name.text ++
    (marked ':' (label.map Name.text) ++ marked '=' (model.map Path.text)))

/-- The text of a frame in front of the body. -/
def opening : Frame → String
  | content raw => if raw then r"{=" else r"{"
  | bracket kind name label model => "[" ++ head kind name label model

/-- What keeps the expression apart from a header. -/
def gap : Frame → String
  | content _ => ""
  | bracket .. => " "

/-- The bracket that closes a frame. -/
def closer : Frame → Char
  | content _ => '}'
  | bracket .. => ']'

/-- A decorator with an expression in it. -/
def around (frame : Frame) (expression : String) : String :=
  frame.opening ++ (frame.gap ++ expression ++ String.singleton frame.closer)

end Frame

/-! ## Names and paths -/

theorem readName?_append (name : Name) {rest : List Char}
    (hrest : ∀ c ∈ rest.head?, ¬isNameChar c) :
    readName? (name.text.toList ++ rest) = some (name.text.toList, rest) := by
  obtain ⟨text, hname⟩ := name
  rw [isName] at hname
  dsimp only
  split at hname
  · contradiction
  · next c cs htext =>
      rw [Bool.and_eq_true, List.all_eq_true] at hname
      rw [htext, List.cons_append, readName?, if_pos hname.1,
        takeWhile_append_of_stop hname.2 hrest, dropWhile_append_of_stop hname.2 hrest]

namespace Header

theorem readWord?_append (name : Name) {rest : List Char}
    (hrest : ∀ c ∈ rest.head?, ¬isNameChar c) :
    readWord? (name.text.toList ++ rest) = some ⟨name.text, name.text.toList, rest⟩ := by
  rw [readWord?, readName?_append name hrest]
  simp

/-- The names of a path behind the first. -/
def pathTail (names : List Name) : List Char :=
  names.flatMap fun name => '.' :: name.text.toList

theorem toList_path (path : Path) :
    path.text.toList = path.first.text.toList ++ pathTail path.more := by
  obtain ⟨first, more⟩ := path
  rw [Path.text]
  induction more generalizing first with
  | nil => simp [pathTail]
  | cons name more ih =>
      have hmore := ih name
      rw [List.map_cons, List.map_cons, String.intercalate_cons_cons]
      simp only [List.map_cons] at hmore
      simp [hmore, pathTail]

theorem not_isNameChar_of_pathTail (names : List Name) {rest : List Char}
    (hrest : ∀ c ∈ rest.head?, ¬isNameChar c ∧ c ≠ '.') :
    ∀ c ∈ (pathTail names ++ rest).head?, ¬isNameChar c := by
  cases names with
  | nil => exact fun c hc => (hrest c hc).1
  | cons name names =>
      rintro c ⟨⟩
      decide

theorem readPathFrom?_append (names : List Name) (taken : List Char) {rest : List Char}
    (hrest : ∀ c ∈ rest.head?, ¬isNameChar c ∧ c ≠ '.') :
    readPathFrom? taken (pathTail names ++ rest) =
      some ⟨String.ofList (taken.reverse ++ pathTail names), taken.reverse ++ pathTail names,
        rest⟩ := by
  induction names generalizing taken with
  | nil =>
      rw [pathTail, List.flatMap_nil, List.nil_append, List.append_nil]
      unfold readPathFrom?
      split
      · next cs => exact absurd rfl (hrest '.' rfl).2
      · rfl
  | cons name names ih =>
      have hname := readName?_append name (not_isNameChar_of_pathTail names hrest)
      have htail : pathTail (name :: names) ++ rest =
          '.' :: (name.text.toList ++ (pathTail names ++ rest)) := by
        simp [pathTail]
      rw [htail, readPathFrom?]
      split
      · next name' rest' hread =>
          rw [hname] at hread
          cases hread
          rw [ih]
          simp [pathTail]
      · next hread =>
          rw [hname] at hread
          contradiction

theorem readPath?_append (path : Path) {rest : List Char}
    (hrest : ∀ c ∈ rest.head?, ¬isNameChar c ∧ c ≠ '.') :
    readPath? (path.text.toList ++ rest) = some ⟨path.text, path.text.toList, rest⟩ := by
  have htext : String.ofList (path.first.text.toList ++ pathTail path.more) = path.text := by
    rw [← toList_path, String.ofList_toList]
  rw [toList_path, List.append_assoc, readPath?,
    readName?_append _ (not_isNameChar_of_pathTail path.more hrest)]
  simp [readPathFrom?_append path.more _ hrest, htext]

/-! ## Headers -/

variable {mark : Char} {read? : List Char → Option (Part String)} {rest : List Char}

/-- What stands behind its mark is read back, and nothing is read if there is no such part and no
mark. -/
theorem readAfter?_marked (value? : Option String)
    (hread : ∀ text ∈ value?, read? (text.toList ++ rest) = some ⟨text, text.toList, rest⟩)
    (hrest : ∀ c ∈ rest.head?, c ≠ mark) :
    readAfter? mark read? ((Frame.marked mark value?).toList ++ rest) =
      some ⟨value?, (Frame.marked mark value?).toList, rest⟩ := by
  cases value? with
  | none =>
      rw [Frame.marked, String.toList_empty, List.nil_append]
      cases rest with
      | nil => rfl
      | cons c rest => exact if_neg (hrest c rfl)
  | some text =>
      rw [Frame.marked, String.toList_append, String.toList_singleton, List.singleton_append,
        List.cons_append, readAfter?, if_pos rfl, hread text rfl]

theorem head_marked {p : Char → Prop} (value? : Option String) (hmark : p mark)
    (hrest : ∀ c ∈ rest.head?, p c) :
    ∀ c ∈ ((Frame.marked mark value?).toList ++ rest).head?, p c := by
  cases value? with
  | none => simpa [Frame.marked] using hrest
  | some text => simpa [Frame.marked] using hmark

theorem readKind_sign (kind : DecoratorKind) (name : Name) (rest : List Char) :
    readKind ((Frame.sign kind).toList ++ (name.text.toList ++ rest)) =
      ⟨kind, (Frame.sign kind).toList, name.text.toList ++ rest⟩ := by
  cases kind with
  | modifier => rfl
  | processor =>
      obtain ⟨text, hname⟩ := name
      rw [isName] at hname
      dsimp only [Frame.sign]
      rw [String.toList_empty, List.nil_append]
      split at hname
      · contradiction
      · next c cs htext =>
          rw [htext, List.cons_append]
          unfold readKind
          split
          · next hsign =>
              cases hsign
              rw [Bool.and_eq_true] at hname
              exact absurd hname.1 (by decide)
          · rfl

theorem readAfter?_label (label : Option Name)
    (hrest : ∀ c ∈ rest.head?, ¬isNameChar c ∧ c ≠ ':') :
    readAfter? ':' readWord? ((Frame.marked ':' (label.map Name.text)).toList ++ rest) =
      some ⟨label.map Name.text, (Frame.marked ':' (label.map Name.text)).toList, rest⟩ := by
  refine readAfter?_marked _ (fun text htext => ?_) fun c hc => (hrest c hc).2
  obtain ⟨name, -, rfl⟩ := Option.map_eq_some_iff.mp htext
  exact readWord?_append name fun c hc => (hrest c hc).1

theorem readAfter?_model (model : Option Path)
    (hrest : ∀ c ∈ rest.head?, ¬isNameChar c ∧ c ≠ '.' ∧ c ≠ '=') :
    readAfter? '=' readPath? ((Frame.marked '=' (model.map Path.text)).toList ++ rest) =
      some ⟨model.map Path.text, (Frame.marked '=' (model.map Path.text)).toList, rest⟩ := by
  refine readAfter?_marked _ (fun text htext => ?_) fun c hc => (hrest c hc).2.2
  obtain ⟨path, -, rfl⟩ := Option.map_eq_some_iff.mp htext
  exact readPath?_append path fun c hc => ⟨(hrest c hc).1, (hrest c hc).2.1⟩

/-- What ends a header goes on with none of its parts. -/
theorem apart_of_endsBefore {c : Char} {rest : List Char} (h : endsBefore rest)
    (hc : c ∈ rest.head?) : ¬isNameChar c ∧ c ≠ '.' ∧ c ≠ '=' ∧ c ≠ ':' := by
  cases rest with
  | nil => contradiction
  | cons d rest =>
      cases hc
      rw [endsBefore, Bool.or_eq_true, decide_eq_true_eq] at h
      rcases h with hblank | rfl
      · refine ⟨not_isNameChar_of_isBlank hblank, ?_, ?_, ?_⟩ <;>
          exact fun hc => absurd hblank (by rw [hc]; decide)
      · decide

/-- The head of a bracket is read back in front of a blank or a closing bracket, with its kind,
name, label and model. -/
theorem readBracket?_head (kind : DecoratorKind) (name : Name) (label : Option Name)
    (model : Option Path) {rest : List Char} (hends : endsBefore rest) :
    readBracket? ((Frame.head kind name label model).toList ++ rest) =
      some ⟨⟨kind, name.text, label.map Name.text, model.map Path.text, false⟩,
        (Frame.head kind name label model).toList, rest⟩ := by
  have hrest : ∀ c ∈ rest.head?, ¬isNameChar c ∧ c ≠ '.' ∧ c ≠ '=' ∧ c ≠ ':' :=
    fun c hc => apart_of_endsBefore hends hc
  have hmodel := readAfter?_model model fun c hc =>
    ⟨(hrest c hc).1, (hrest c hc).2.1, (hrest c hc).2.2.1⟩
  -- Each part of the header ends at the mark of the next one or where the header does.
  have hequals : ∀ c ∈ ((Frame.marked '=' (model.map Path.text)).toList ++ rest).head?,
      ¬isNameChar c ∧ c ≠ ':' :=
    head_marked _ (by decide) fun c hc => ⟨(hrest c hc).1, (hrest c hc).2.2.2⟩
  have hlabel := readAfter?_label label hequals
  have hcolon : ∀ c ∈ ((Frame.marked ':' (label.map Name.text)).toList ++
      ((Frame.marked '=' (model.map Path.text)).toList ++ rest)).head?, ¬isNameChar c :=
    head_marked _ (by decide) fun c hc => (hequals c hc).1
  have hname := readWord?_append name hcolon
  simp only [Frame.head, String.toList_append, List.append_assoc]
  rw [readBracket?]
  simp only [readKind_sign, hname, hlabel, hmodel, hends, if_true, List.append_assoc]

end Header

/-- Every frame opens with one of two brackets, so that the text in front of it is scanned up to
there. -/
theorem Frame.toList_opening (frame : Frame) :
    ∃ c text, frame.opening.toList = c :: text ∧ (c = '[' ∨ c = '{') := by
  cases frame with
  | content raw => cases raw <;> exact ⟨'{', _, rfl, .inr rfl⟩
  | bracket kind name label model =>
      exact ⟨'[', (head kind name label model).toList, String.toList_append, .inl rfl⟩

/-- The start of a frame is read as what it was written for, where no equals sign follows. -/
theorem Opening.read?_frame (frame : Frame) {cs : List Char} (h : ∀ c ∈ cs.head?, c ≠ '=') :
    Opening.read? (frame.opening.toList ++ (frame.gap.toList ++ cs)) =
      some ⟨⟨frame.header, frame.closer⟩, frame.opening.toList, frame.gap.toList ++ cs⟩ := by
  cases frame with
  | content raw =>
      cases raw with
      | true => rfl
      | false =>
          cases cs with
          | nil => rfl
          | cons c cs =>
              -- An equals sign would make this the start of raw content.
              have hraw : ∀ rest, '{' :: c :: cs ≠ '{' :: '=' :: rest := by
                rintro rest ⟨⟩
                exact h '=' rfl rfl
              change Opening.read? ('{' :: c :: cs) = _
              rw [Opening.read?.eq_3 (c :: cs) fun rest heq => hraw rest (congrArg ('{' :: ·) heq)]
              rfl
  | bracket kind name label model =>
      have hopening : (Frame.bracket kind name label model).opening.toList =
          '[' :: (Frame.head kind name label model).toList := String.toList_append
      have hgap : (Frame.bracket kind name label model).gap.toList = [' '] := by simp [Frame.gap]
      have hends : Header.endsBefore (' ' :: cs) := rfl
      rw [hopening, hgap, List.cons_append, List.singleton_append, Opening.read?,
        Header.readBracket?_head _ _ _ _ hends]
      rfl

end ReactiveTemplate
