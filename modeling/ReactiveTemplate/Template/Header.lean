import ReactiveTemplate.Template.Decorator
import ReactiveTemplate.Text.Name
import ReactiveTemplate.Text.Part
import ReactiveTemplate.Unicode.Blank

/-!
# Reading the head of a decorator

A bracket starts a decorator only when a well-formed header stands behind it: an optional number
sign, a name, an optional label after a colon and an optional model path after an equals sign, up to
white space, a closing bracket or the end of the source. A brace always starts one.
-/

namespace ReactiveTemplate

theorem append_readName? {cs name rest : List Char} (h : readName? cs = some (name, rest)) :
    name ++ rest = cs := by
  unfold readName? at h
  split at h
  · contradiction
  · split at h
    · cases h
      exact congrArg (_ :: ·) List.takeWhile_append_dropWhile
    · contradiction

theorem length_lt_of_readName? {cs name rest : List Char} (h : readName? cs = some (name, rest)) :
    rest.length < cs.length := by
  unfold readName? at h
  split at h
  · contradiction
  · split at h
    · cases h
      exact Nat.lt_succ_of_le (List.dropWhile_sublist _).length_le
    · contradiction

namespace Header

/-- A path from after its text so far, which is in reverse: names with points between them. -/
def readPathFrom? (taken : List Char) : List Char → Option (Part String)
  | '.' :: cs =>
      match _hname : readName? cs with
      | some (name, rest) => readPathFrom? (name.reverse ++ '.' :: taken) rest
      | none => none
  | cs => some ⟨String.ofList taken.reverse, taken.reverse, cs⟩
  termination_by cs => cs.length
  decreasing_by exact Nat.lt_succ_of_lt (length_lt_of_readName? _hname)

/-- A path: names with points between them. -/
def readPath? (cs : List Char) : Option (Part String) :=
  match readName? cs with
  | some (name, rest) => readPathFrom? name.reverse rest
  | none => none

/-- A name, as a part. -/
def readWord? (cs : List Char) : Option (Part String) :=
  match readName? cs with
  | some (name, rest) => some ⟨String.ofList name, name, rest⟩
  | none => none

/-- What `read?` reads behind the character `mark`, or nothing where that does not come next. -/
def readAfter? (mark : Char) (read? : List Char → Option (Part String)) :
    List Char → Option (Part (Option String))
  | [] => some ⟨none, [], []⟩
  | c :: cs =>
      if c = mark then
        match read? cs with
        | some part => some ⟨some part.value, c :: part.text, part.rest⟩
        | none => none
      else some ⟨none, [], c :: cs⟩

/-- The kind of a decorator: a number sign marks a modifier. -/
def readKind : List Char → Part DecoratorKind
  | '#' :: cs => ⟨.modifier, ['#'], cs⟩
  | cs => ⟨.processor, [], cs⟩

/-- Whether a header may end before `rest`. -/
def endsBefore : List Char → Bool
  | [] => true
  | c :: _ => Unicode.isBlank c || c = ']'

/-- The header behind a bracket. -/
def readBracket? (cs : List Char) : Option (Part Header) :=
  let kind := readKind cs
  match readWord? kind.rest with
  | none => none
  | some name =>
      match readAfter? ':' readWord? name.rest with
      | none => none
      | some label =>
          match readAfter? '=' readPath? label.rest with
          | none => none
          | some model =>
              if endsBefore model.rest then
                some ⟨⟨kind.value, name.value, label.value, model.value, false⟩,
                  kind.text ++ name.text ++ label.text ++ model.text, model.rest⟩
              else none

/-- The header of a decorator for content, of the given name. -/
def ofContent (name : String) : Header :=
  ⟨.processor, name, none, none, true⟩

end Header

/-- The start of a decorator: its header and the bracket that it has to be closed with. -/
structure Opening where
  header : Header
  closer : Char
deriving DecidableEq, Inhabited

namespace Opening

/-- The start of a decorator at the head of a text, if one is there. -/
def read? : List Char → Option (Part Opening)
  | '[' :: cs =>
      (Header.readBracket? cs).map fun header =>
        ⟨⟨header.value, ']'⟩, '[' :: header.text, header.rest⟩
  | '{' :: '=' :: cs => some ⟨⟨.ofContent "html", '}'⟩, ['{', '='], cs⟩
  | '{' :: cs => some ⟨⟨.ofContent "text", '}'⟩, ['{'], cs⟩
  | _ => none

end Opening

/-! ## Nothing is lost -/

namespace Header

theorem readPathFrom?_splits {taken cs : List Char} {path : Part String}
    (h : readPathFrom? taken cs = some path) : path.Splits (taken.reverse ++ cs) := by
  fun_induction readPathFrom? taken cs with
  | case1 taken cs name rest hname ih =>
      rw [← append_readName? hname]
      simpa using ih h
  | case2 => contradiction
  | case3 =>
      cases h
      rfl

theorem readPath?_splits {cs : List Char} {path : Part String} (h : readPath? cs = some path) :
    path.Splits cs := by
  unfold readPath? at h
  split at h
  · next hname =>
      rw [← append_readName? hname]
      simpa using readPathFrom?_splits h
  · contradiction

theorem readWord?_splits {cs : List Char} {word : Part String} (h : readWord? cs = some word) :
    word.Splits cs := by
  unfold readWord? at h
  split at h
  · next hname =>
      cases h
      exact append_readName? hname
  · contradiction

/-- What stands behind a mark is read if the mark is there. Either way nothing is lost of what it
was read from. -/
theorem readAfter?_splits {mark : Char} {read? : List Char → Option (Part String)}
    (hread : ∀ {cs part}, read? cs = some part → part.Splits cs) {cs : List Char}
    {part : Part (Option String)} (h : readAfter? mark read? cs = some part) : part.Splits cs := by
  unfold readAfter? at h
  split at h
  · cases h
    rfl
  · split at h
    · split at h
      · next hpart =>
          cases h
          exact congrArg (_ :: ·) (hread hpart)
      · contradiction
    · cases h
      rfl

theorem readKind_splits (cs : List Char) : (readKind cs).Splits cs := by
  unfold readKind
  split <;> rfl

/-- A header takes its sign, its name and what is marked behind it, in this order, off what it was
read from. -/
theorem readBracket?_splits {cs : List Char} {header : Part Header}
    (h : readBracket? cs = some header) : header.Splits cs := by
  unfold readBracket? at h
  dsimp only at h
  split at h
  · contradiction
  · next name hname =>
      split at h
      · contradiction
      · next label hlabel =>
          split at h
          · contradiction
          · next model hmodel =>
              split at h
              · cases h
                have hkind := readKind_splits cs
                have hname := readWord?_splits hname
                have hlabel := readAfter?_splits readWord?_splits hlabel
                have hmodel := readAfter?_splits readPath?_splits hmodel
                simp only [Part.Splits] at hkind hname hlabel hmodel ⊢
                rw [List.append_assoc, hmodel, List.append_assoc, hlabel, List.append_assoc, hname,
                  hkind]
              · contradiction

end Header

/-- What opens a decorator and what is left behind it make up the text from there on, for brackets
and for braces. -/
theorem Opening.read?_splits {cs : List Char} {opening : Part Opening}
    (h : Opening.read? cs = some opening) : opening.Splits cs := by
  unfold Opening.read? at h
  split at h
  · obtain ⟨header, hheader, rfl⟩ := Option.map_eq_some_iff.mp h
    exact congrArg ('[' :: ·) (Header.readBracket?_splits hheader)
  · cases h
    rfl
  · cases h
    rfl
  · contradiction

theorem Opening.read?_ne_nil {cs : List Char} {opening : Part Opening}
    (h : Opening.read? cs = some opening) : opening.text ≠ [] := by
  unfold Opening.read? at h
  split at h
  · obtain ⟨header, hheader, rfl⟩ := Option.map_eq_some_iff.mp h
    simp
  · cases h
    simp
  · cases h
    simp
  · contradiction

end ReactiveTemplate
