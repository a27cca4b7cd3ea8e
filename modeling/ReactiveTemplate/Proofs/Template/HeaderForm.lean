import ReactiveTemplate.Proofs.Template.Frame

/-!
# The form of headers

What stands behind a bracket that starts a decorator, apart from any reader: an optional number
sign, a name, an optional label and an optional model, and then white space, a closing bracket or
nothing at all. A header is read exactly where one stands, and no more of the text decides about it
than the one character behind it.
-/

namespace ReactiveTemplate

/-- A name stands at the head of a text, as long as possible. -/
structure Name.Heads (name : Name) (cs rest : List Char) : Prop where
  text : cs = name.text.toList ++ rest
  longest : ∀ c ∈ rest.head?, ¬isNameChar c

/-- Names stand at the head of a text, each behind a point. -/
inductive Path.Tail : List Name → List Char → List Char → Prop where
  | nil {rest : List Char} : Tail [] rest rest
  | cons {name : Name} {names : List Name} {cs rest rest' : List Char} (h : name.Heads cs rest')
      (hmore : Tail names rest' rest) : Tail (name :: names) ('.' :: cs) rest

/-- A path stands at the head of a text. -/
def Path.Heads (path : Path) (cs rest : List Char) : Prop :=
  ∃ tail, path.first.Heads cs tail ∧ Tail path.more tail rest

namespace Header

/-- A part of a header stands behind its mark, or there is no such part. -/
inductive Marked {α : Type} (mark : Char) (Heads : α → List Char → List Char → Prop) :
    Option α → List Char → List Char → Prop where
  | none {cs : List Char} : Marked mark Heads none cs cs
  | some {part : α} {cs rest : List Char} (h : Heads part cs rest) :
      Marked mark Heads (some part) (mark :: cs) rest

/-- A header of these parts stands at the head of `cs`, in front of `rest`. -/
structure Stands (kind : DecoratorKind) (name : Name) (label : Option Name) (model : Option Path)
    (cs rest : List Char) : Prop where
  parts : ∃ signed named labelled,
    cs = (Frame.sign kind).toList ++ signed ∧ name.Heads signed named ∧
      Marked ':' Name.Heads label named labelled ∧ Marked '=' Path.Heads model labelled rest
  ends : ∀ c ∈ rest.head?, Unicode.isBlank c ∨ c = ']'

/-! ## Whatever stands is read -/

theorem endsBefore_iff {rest : List Char} :
    endsBefore rest ↔ ∀ c ∈ rest.head?, Unicode.isBlank c ∨ c = ']' := by
  cases rest <;> simp [endsBefore]

theorem text_of_tail {names : List Name} {cs rest : List Char} (h : Path.Tail names cs rest) :
    cs = pathTail names ++ rest := by
  induction h with
  | nil => rfl
  | cons h _ ih =>
      rw [h.text, ih]
      simp [pathTail]

theorem text_of_path {path : Path} {cs rest : List Char} (h : path.Heads cs rest) :
    cs = path.text.toList ++ rest := by
  obtain ⟨tail, hfirst, hmore⟩ := h
  rw [hfirst.text, text_of_tail hmore, toList_path, List.append_assoc]

theorem text_of_marked {α : Type} {mark : Char} {Heads : α → List Char → List Char → Prop}
    {text : α → String}
    (hheads : ∀ part cs rest, Heads part cs rest → cs = (text part).toList ++ rest)
    {part? : Option α} {cs rest : List Char} (h : Marked mark Heads part? cs rest) :
    cs = (Frame.marked mark (part?.map text)).toList ++ rest := by
  cases h with
  | none => simp [Frame.marked]
  | some h =>
      rw [hheads _ _ _ h]
      simp [Frame.marked]

/-- The text of a header is what is written for its parts. -/
theorem Stands.text {kind : DecoratorKind} {name : Name} {label : Option Name}
    {model : Option Path} {cs rest : List Char} (h : Stands kind name label model cs rest) :
    cs = (Frame.head kind name label model).toList ++ rest := by
  obtain ⟨signed, named, labelled, hsign, hname, hlabel, hmodel⟩ := h.parts
  have hlabel := text_of_marked (fun _ _ _ h => Name.Heads.text h) hlabel
  have hmodel := text_of_marked (fun _ _ _ h => text_of_path h) hmodel
  rw [hsign, hname.text, hlabel, hmodel]
  simp [Frame.head]

/-! ## Whatever is read stands -/

theorem heads_of_readName? {cs chars rest : List Char} (h : readName? cs = some (chars, rest)) :
    ∃ name : Name, name.text = String.ofList chars ∧ name.Heads cs rest := by
  have happend := append_readName? h
  unfold readName? at h
  split at h
  · contradiction
  · next c cs =>
      split at h
      · next hstart =>
          cases h
          have hname : isName (String.ofList (c :: cs.takeWhile isNameChar)) := by
            rw [isName, String.toList_ofList]
            simp [hstart]
          refine ⟨⟨_, hname⟩, rfl, ?_, fun d hd => not_of_head_dropWhile hd⟩
          rw [String.toList_ofList, happend]
      · contradiction

theorem heads_of_readWord? {cs : List Char} {word : Part String} (h : readWord? cs = some word) :
    ∃ name : Name, word.value = name.text ∧ name.Heads cs word.rest := by
  unfold readWord? at h
  split at h
  · next hread =>
      cases h
      obtain ⟨name, htext, hheads⟩ := heads_of_readName? hread
      exact ⟨name, htext.symm, hheads⟩
  · contradiction

/-- What is read as a path goes on with names behind points, as many of them as there are. -/
theorem tail_of_readPathFrom? {taken cs : List Char} {path : Part String}
    (h : readPathFrom? taken cs = some path) :
    ∃ names, Path.Tail names cs path.rest ∧
      path.value = String.ofList (taken.reverse ++ pathTail names) := by
  fun_induction readPathFrom? taken cs with
  | case1 taken cs chars rest hread ih =>
      obtain ⟨name, htext, hheads⟩ := heads_of_readName? hread
      obtain ⟨names, hmore, hvalue⟩ := ih h
      refine ⟨name :: names, .cons hheads hmore, ?_⟩
      rw [hvalue]
      simp [pathTail, htext]
  | case2 => contradiction
  | case3 taken cs =>
      cases h
      exact ⟨[], .nil, by simp [pathTail]⟩

theorem heads_of_readPath? {cs : List Char} {part : Part String} (h : readPath? cs = some part) :
    ∃ path : Path, part.value = path.text ∧ path.Heads cs part.rest := by
  unfold readPath? at h
  split at h
  · next chars rest hread =>
      obtain ⟨first, htext, hheads⟩ := heads_of_readName? hread
      obtain ⟨more, hmore, hvalue⟩ := tail_of_readPathFrom? h
      refine ⟨⟨first, more⟩, ?_, rest, hheads, hmore⟩
      rw [hvalue, ← String.toList_inj, toList_path, htext]
      simp
  · contradiction

/-- A part that is read behind its mark stands there, and if none is read, the mark is not there. -/
theorem marked_of_readAfter? {α : Type} {mark : Char} {Heads : α → List Char → List Char → Prop}
    {text : α → String} {read? : List Char → Option (Part String)}
    (hread : ∀ {cs part}, read? cs = some part → ∃ a, part.value = text a ∧ Heads a cs part.rest)
    {cs : List Char} {part : Part (Option String)} (h : readAfter? mark read? cs = some part) :
    ∃ a?, part.value = Option.map text a? ∧ Marked mark Heads a? cs part.rest := by
  unfold readAfter? at h
  split at h
  · cases h
    exact ⟨none, rfl, .none⟩
  · split at h
    · next hmark =>
        subst hmark
        split at h
        · next hpart =>
            cases h
            obtain ⟨a, hvalue, hheads⟩ := hread hpart
            exact ⟨some a, congrArg some hvalue, .some hheads⟩
        · contradiction
    · cases h
      exact ⟨none, rfl, .none⟩

theorem sign_of_readKind (cs : List Char) :
    cs = (Frame.sign (readKind cs).value).toList ++ (readKind cs).rest := by
  unfold readKind
  split <;> simp [Frame.sign]

/-- A header that is read has been read part by part. -/
theorem parts_of_readBracket? {cs : List Char} {part : Part Header}
    (h : readBracket? cs = some part) :
    ∃ name label model, readWord? (readKind cs).rest = some name ∧
      readAfter? ':' readWord? name.rest = some label ∧
      readAfter? '=' readPath? label.rest = some model ∧ endsBefore model.rest ∧
      part.value = ⟨(readKind cs).value, name.value, label.value, model.value, false⟩ ∧
      part.rest = model.rest := by
  simp only [readBracket?] at h
  split at h
  · contradiction
  next name hname =>
  split at h
  · contradiction
  next label hlabel =>
  split at h
  · contradiction
  next model hmodel =>
  split at h
  · next hends =>
      cases h
      exact ⟨name, label, model, hname, hlabel, hmodel, hends, rfl, rfl⟩
  · contradiction

/-- A header that is read stands there, part by part. With the converse this makes reading a header
a matter of its form. -/
theorem stands_of_readBracket? {cs : List Char} {part : Part Header}
    (h : readBracket? cs = some part) :
    ∃ kind name label model, Stands kind name label model cs part.rest ∧
      part.value = (Frame.bracket kind name label model).header := by
  obtain ⟨name, label, model, hname, hlabel, hmodel, hends, hvalue, hrest⟩ :=
    parts_of_readBracket? h
  obtain ⟨name', hname', hnamed⟩ := heads_of_readWord? hname
  obtain ⟨label', hlabel', hlabelled⟩ := marked_of_readAfter? heads_of_readWord? hlabel
  obtain ⟨model', hmodel', hmodelled⟩ := marked_of_readAfter? heads_of_readPath? hmodel
  rw [hvalue, hrest, hname', hlabel', hmodel']
  refine ⟨(readKind cs).value, name', label', model', ⟨?_, endsBefore_iff.mp hends⟩, rfl⟩
  exact ⟨_, _, _, sign_of_readKind cs, hnamed, hlabelled, hmodelled⟩

/-- A header is read exactly where one stands, as what it is and up to where it ends. -/
theorem readBracket?_eq_some_iff {cs : List Char} {part : Part Header} :
    readBracket? cs = some part ↔
      part.Splits cs ∧ ∃ kind name label model, Stands kind name label model cs part.rest ∧
        part.value = (Frame.bracket kind name label model).header := by
  constructor
  · exact fun h => ⟨readBracket?_splits h, stands_of_readBracket? h⟩
  · rintro ⟨hsplits, kind, name, label, model, hstands, hvalue⟩
    obtain ⟨value, text, rest⟩ := part
    obtain rfl : value = (Frame.bracket kind name label model).header := hvalue
    have htext := hstands.text
    have hhead : text = (Frame.head kind name label model).toList :=
      List.append_cancel_right (hsplits.trans htext)
    rw [htext, readBracket?_head _ _ _ _ (endsBefore_iff.mpr hstands.ends), hhead]
    rfl

end Header

/-! ## Openings -/

/-- An opening is read off its own text and the next character. -/
theorem Opening.read?_append {cs : List Char} {opening : Part Opening}
    (h : Opening.read? cs = some opening) {rest : List Char}
    (hrest : rest.head? = opening.rest.head?) :
    Opening.read? (opening.text ++ rest) = some ⟨opening.value, opening.text, rest⟩ := by
  unfold Opening.read? at h
  split at h
  · obtain ⟨header, hheader, rfl⟩ := Option.map_eq_some_iff.mp h
    obtain ⟨hsplits, kind, name, label, model, hstands, hvalue⟩ :=
      Header.readBracket?_eq_some_iff.mp hheader
    have htext : header.text = (Frame.head kind name label model).toList :=
      List.append_cancel_right (hsplits.trans hstands.text)
    have hends : Header.endsBefore rest := by
      rw [Header.endsBefore_iff, hrest]
      exact hstands.ends
    dsimp only
    rw [htext, hvalue, List.cons_append, Opening.read?, Header.readBracket?_head _ _ _ _ hends]
    rfl
  · cases h
    rfl
  · next cs hraw =>
      cases h
      have hraw : ∀ more, rest ≠ '=' :: more := by
        rintro more rfl
        cases cs with
        | nil => simp at hrest
        | cons c cs =>
            cases hrest
            exact hraw cs rfl
      rw [List.singleton_append, Opening.read?.eq_3 rest fun more hmore => hraw more hmore]
  · contradiction

end ReactiveTemplate
