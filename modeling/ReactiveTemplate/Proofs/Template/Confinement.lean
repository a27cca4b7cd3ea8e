import ReactiveTemplate.Proofs.Template.Content
import ReactiveTemplate.Proofs.Template.Standalone

/-!
# Elements cannot be broken out of

The values of attributes are written as they are. They can do no harm, because names and paths have
none of the characters in them that mean something in a tag: the first `>` of an element ends its
start, the next `<` starts its end, and what stands in between tells the whole header.
-/

namespace ReactiveTemplate

/-- Texts that are the same have the same text in front of the first `c` and behind it. -/
theorem append_cons_inj {c : Char} {as bs as' bs' : List Char} (has : c ∉ as) (has' : c ∉ as')
    (h : as ++ c :: bs = as' ++ c :: bs') : as = as' ∧ bs = bs' := by
  have hfirst {as : List Char} (has : c ∉ as) (bs : List Char) :
      (as ++ c :: bs).takeWhile (· ≠ c) = as := by
    refine takeWhile_append_of_stop (fun d hd => ?_) (by simp)
    exact decide_eq_true fun heq => has (heq ▸ hd)
  have heq : as = as' := by rw [← hfirst has bs, h, hfirst has' bs']
  subst heq
  exact ⟨rfl, (List.cons.inj (List.append_cancel_left h)).2⟩

namespace Markup

/-! ## Attributes -/

/-- The characters that mean something in a tag. -/
def marks : List Char :=
  ['"', '<', '>', '&']

/-- A text that stays a value wherever it is written as one. -/
def Inert (text : String) : Prop :=
  ∀ c ∈ marks, c ∉ text.toList

/-- Attributes as they are written. -/
def attributesText (entries : List (String × Option String)) : List Char :=
  entries.flatMap fun (name, value?) => (attributeText name value?).toList

/-- An opening tag is its name and its attributes between angle brackets. The closing one comes last
and only once. -/
theorem toList_openTag (tag : String) (entries : List (String × Option String)) :
    (openTag tag entries).toList =
      '<' :: (tag.toList ++ attributesText entries) ++ ['>'] := by
  simp [openTag, attributesText, String.toList_join, List.flatMap_map]

@[simp]
theorem attributesText_none (name : String) (entries : List (String × Option String)) :
    attributesText ((name, none) :: entries) = attributesText entries := by
  simp [attributesText, attributeText]

@[simp]
theorem attributesText_some (name value : String) (entries : List (String × Option String)) :
    attributesText ((name, some value) :: entries) =
      ' ' :: (name.toList ++ '=' :: '"' :: (value.toList ++ '"' :: attributesText entries)) := by
  simp [attributesText, attributeText]

/-- What is written starts with one of the names. -/
theorem exists_of_attributesText {entries : List (String × Option String)} {rest : List Char}
    (h : attributesText entries = ' ' :: rest) :
    ∃ name ∈ entries.map Prod.fst, ∃ rest', rest = name.toList ++ '=' :: rest' := by
  induction entries with
  | nil => contradiction
  | cons entry entries ih =>
      obtain ⟨name, _ | value⟩ := entry
      · rw [attributesText_none] at h
        obtain ⟨name', hname', hrest⟩ := ih h
        exact ⟨name', List.mem_cons_of_mem _ hname', hrest⟩
      · rw [attributesText_some] at h
        exact ⟨name, List.mem_cons_self, _, (List.cons.inj h).2.symm⟩

/-- Attributes of the same names are told from what is written: which of them have a value, and
which value it is. -/
theorem attributesText_inj {entries entries' : List (String × Option String)}
    (hnames : entries.map Prod.fst = entries'.map Prod.fst)
    (hnodup : (entries.map Prod.fst).Nodup)
    (hequals : ∀ name ∈ entries.map Prod.fst, '=' ∉ name.toList)
    (hquote : ∀ entry ∈ entries, ∀ value ∈ entry.2, '"' ∉ value.toList)
    (hquote' : ∀ entry ∈ entries', ∀ value ∈ entry.2, '"' ∉ value.toList)
    (h : attributesText entries = attributesText entries') : entries = entries' := by
  induction entries generalizing entries' with
  | nil => exact (List.map_eq_nil_iff.mp hnames.symm).symm
  | cons entry entries ih =>
      obtain ⟨entry', entries', rfl⟩ :=
        List.exists_cons_of_ne_nil fun hnil : entries' = [] => by simp [hnil] at hnames
      obtain ⟨name, value?⟩ := entry
      obtain ⟨name', value?'⟩ := entry'
      rw [List.map_cons, List.map_cons, List.cons.injEq] at hnames
      obtain ⟨rfl, hnames⟩ := hnames
      rw [List.map_cons, List.nodup_cons] at hnodup
      rw [List.map_cons, List.forall_mem_cons] at hequals
      rw [List.forall_mem_cons] at hquote hquote'
      have hmore := ih hnames hnodup.2 hequals.2 hquote.2 hquote'.2
      -- A name that has a value on one side only would have to come again on the other one.
      have hapart {rest : List Char} {others : List (String × Option String)}
          (hothers : entries.map Prod.fst = others.map Prod.fst) :
          attributesText others ≠ ' ' :: (name.toList ++ '=' :: rest) := by
        intro htext
        obtain ⟨other, hother, rest', hrest⟩ := exists_of_attributesText htext
        rw [← hothers] at hother
        have hsame := append_cons_inj hequals.1 (hequals.2 other hother) hrest
        exact hnodup.1 (String.toList_inj.mp hsame.1 ▸ hother)
      rcases value? with _ | value <;> rcases value?' with _ | value'
      · rw [attributesText_none, attributesText_none] at h
        rw [hmore h]
      · rw [attributesText_none, attributesText_some] at h
        exact absurd h (hapart rfl)
      · rw [attributesText_none, attributesText_some] at h
        exact absurd h.symm (hapart hnames)
      · rw [attributesText_some, attributesText_some, List.cons.injEq, List.append_cancel_left_eq,
          List.cons.injEq, List.cons.injEq] at h
        obtain ⟨hvalue, hrest⟩ :=
          append_cons_inj (hquote.1 value rfl) (hquote'.1 value' rfl) h.2.2.2
        rw [hmore hrest, String.toList_inj.mp hvalue]

/-- What is written holds the characters of the names and the values, and those that keep them
apart. -/
theorem not_mem_attributesText {c : Char} {entries : List (String × Option String)}
    (hc : c ∉ [' ', '=', '"']) (hnames : ∀ name ∈ entries.map Prod.fst, c ∉ name.toList)
    (hvalues : ∀ entry ∈ entries, ∀ value ∈ entry.2, c ∉ value.toList) :
    c ∉ attributesText entries := by
  simp only [List.mem_cons, List.not_mem_nil, or_false, not_or] at hc
  induction entries with
  | nil => exact List.not_mem_nil
  | cons entry entries ih =>
      rw [List.map_cons, List.forall_mem_cons] at hnames
      rw [List.forall_mem_cons] at hvalues
      have hmore := ih hnames.2 hvalues.2
      obtain ⟨name, _ | value⟩ := entry
      · rwa [attributesText_none]
      · have hvalue := hvalues.1 value rfl
        simp [hc, hnames.1, hvalue, hmore]

/-! ## Headers -/

/-- The names of a decorator's attributes. -/
def attributeNames : List String :=
  ["name", "type", "label", "model"]

theorem fst_attributes (header : Header) : (attributes header).map Prod.fst = attributeNames :=
  rfl

theorem not_mem_attributeNames :
    ∀ name ∈ attributeNames, '=' ∉ name.toList ∧ '>' ∉ name.toList := by
  decide

theorem DecoratorKind.text_injective {kind kind' : DecoratorKind} (h : kind.text = kind'.text) :
    kind = kind' := by
  cases kind <;> cases kind' <;> first | rfl | exact absurd h (by decide)

/-- All of a header is in its attributes, except whether there is an anchor. -/
theorem eq_of_attributes {header header' : Header} (h : attributes header = attributes header')
    (htarget : header.target = header'.target) : header = header' := by
  obtain ⟨kind, name, label, model, target⟩ := header
  obtain ⟨kind', name', label', model', target'⟩ := header'
  simp only [attributes, List.cons.injEq, Prod.mk.injEq, Option.some.injEq, true_and,
    and_true] at h
  obtain ⟨hname, hkind, hlabel, hmodel⟩ := h
  obtain rfl : target = target' := htarget
  rw [hname, DecoratorKind.text_injective hkind, hlabel, hmodel]

end Markup

/-! ## Names -/

theorem Name.isNameChar_of_mem (name : Name) {c : Char} (hc : c ∈ name.text.toList) :
    isNameChar c := by
  obtain ⟨text, hname⟩ := name
  dsimp only at hc
  rw [ReactiveTemplate.isName] at hname
  split at hname
  · contradiction
  · next d cs htext =>
      rw [Bool.and_eq_true, List.all_eq_true] at hname
      rw [htext] at hc
      rcases List.mem_cons.mp hc with rfl | hc
      · simp [isNameChar, hname.1]
      · exact hname.2 c hc

theorem Path.isNameChar_of_mem (path : Path) {c : Char} (hc : c ∈ path.text.toList) :
    isNameChar c ∨ c = '.' := by
  rw [Header.toList_path, List.mem_append, Header.pathTail, List.mem_flatMap] at hc
  rcases hc with hfirst | ⟨name, -, hc⟩
  · exact .inl (path.first.isNameChar_of_mem hfirst)
  · rcases List.mem_cons.mp hc with rfl | hc
    · exact .inr rfl
    · exact .inl (name.isNameChar_of_mem hc)

namespace Markup

/-- A text of name characters and points can stand in an attribute as it is: it has none of the
characters that would end the value. -/
theorem inert_of_isNameChar {text : String} (h : ∀ c ∈ text.toList, isNameChar c ∨ c = '.') :
    Inert text := by
  have hmarks : ∀ c ∈ marks, ¬(isNameChar c ∨ c = '.') := forall_mem_of_all (by decide)
  exact fun c hc hmem => hmarks c hc (h c hmem)

/-- Whatever a frame says of its decorator, the values of the attributes are inert. -/
theorem inert_of_frame (frame : Frame) :
    ∀ entry ∈ attributes frame.header, ∀ value ∈ entry.2, Inert value := by
  have hkind (kind : DecoratorKind) : Inert kind.text := by
    cases kind <;> exact forall_mem_of_all (by decide)
  have hname (name : Name) : Inert name.text :=
    inert_of_isNameChar fun c hc => .inl (name.isNameChar_of_mem hc)
  have hpath (path : Path) : Inert path.text :=
    inert_of_isNameChar fun c hc => path.isNameChar_of_mem hc
  intro entry hentry value hvalue
  cases frame with
  | content raw =>
      simp only [attributes, Frame.header, List.mem_cons, List.not_mem_nil, or_false] at hentry
      rcases hentry with rfl | rfl | rfl | rfl
      · cases hvalue
        cases raw <;> exact forall_mem_of_all (by decide)
      · cases hvalue
        exact hkind _
      · cases hvalue
      · cases hvalue
  | bracket kind name label model =>
      simp only [attributes, Frame.header, List.mem_cons, List.not_mem_nil, or_false] at hentry
      rcases hentry with rfl | rfl | rfl | rfl
      · cases hvalue
        exact hname name
      · cases hvalue
        exact hkind kind
      · obtain ⟨label, -, rfl⟩ := Option.map_eq_some_iff.mp hvalue
        exact hname label
      · obtain ⟨model, -, rfl⟩ := Option.map_eq_some_iff.mp hvalue
        exact hpath model

end Markup

/-! ## Elements -/

open Markup

/-- The header of every decorator that is read is one that a frame has, made of names and paths. -/
theorem Opening.exists_frame {cs : List Char} {opening : Part Opening}
    (h : Opening.read? cs = some opening) :
    ∃ frame : Frame, opening.value.header = frame.header := by
  unfold Opening.read? at h
  split at h
  · obtain ⟨header, hheader, rfl⟩ := Option.map_eq_some_iff.mp h
    obtain ⟨kind, name, label, model, -, hvalue⟩ := Header.stands_of_readBracket? hheader
    exact ⟨.bracket kind name label model, hvalue⟩
  · cases h
    exact ⟨.content true, rfl⟩
  · cases h
    exact ⟨.content false, rfl⟩
  · contradiction

/-- The header of a decorator is that of some frame. -/
theorem exists_frame_of_scan {source : String} {segments : List Segment}
    (h : scan source = .ok segments) {d : Decorator} (hd : .decorator d ∈ segments) :
    ∃ frame : Frame, d.header = frame.header := by
  rcases (Template.Scanned.start source).exists_finds_of_mem h hd with hdone | ⟨q, -, hfinds⟩
  · contradiction
  · obtain ⟨-, hread⟩ := hfinds
    obtain ⟨-, ⟨_, _, htext, -⟩ | ⟨opening, body, hpiece, hopening⟩⟩ :=
      Template.readPiece_cases hread
    · contradiction
    · cases hpiece
      exact Opening.exists_frame hopening

namespace Markup

/-- The start of a decorator's element without the `>` at its end. -/
def startOf (header : Header) : List Char :=
  '<' :: (decoratorTag.toList ++ attributesText (attributes header))

/-- The end of a decorator's element without the `<` at its start, and the anchor behind it. -/
def endOf (header : Header) : List Char :=
  (closeTag decoratorTag).toList.tail ++
    if header.target then (openTag targetTag [] ++ closeTag targetTag).toList else []

theorem startOf_append (header : Header) :
    startOf header ++ ['>'] = (openTag decoratorTag (attributes header)).toList :=
  (toList_openTag decoratorTag (attributes header)).symm

/-- The element of a decorator is its start, its content, and its end, in this order and with
nothing between them. -/
theorem toList_markup (d : Decorator) :
    (Segment.decorator d).markup.toList =
      startOf d.header ++ '>' :: ((content d.expression).toList ++ '<' :: endOf d.header) := by
  rw [Segment.markup, element, String.toList_append, String.toList_append, String.toList_append,
    ← startOf_append, endOf]
  cases d.header.target <;> simp [closeTag]

/-- The first closing angle bracket of an element ends its opening tag, because no value of an
attribute has one. -/
theorem not_mem_startOf {header : Header}
    (h : ∀ entry ∈ attributes header, ∀ value ∈ entry.2, Inert value) : '>' ∉ startOf header := by
  have htag : '>' ∉ '<' :: decoratorTag.toList := by decide
  have hattributes : '>' ∉ attributesText (attributes header) := by
    refine not_mem_attributesText (by decide) ?_ fun entry hentry value hvalue =>
      h entry hentry value hvalue '>' (by decide)
    exact fun name hname => (not_mem_attributeNames name hname).2
  rw [startOf, ← List.cons_append, List.mem_append, not_or]
  exact ⟨htag, hattributes⟩

/-- The end of an element tells whether its header has a target. Everything else about the header is
in its start. -/
theorem endOf_inj {header header' : Header} (h : endOf header = endOf header') :
    header.target = header'.target := by
  have hlength := congrArg List.length h
  revert hlength
  unfold endOf
  cases header.target <;> cases header'.target <;> first | (intro _; rfl) | decide

end Markup

/-- An element that nothing in it breaks out of. -/
structure Decorator.Confined (d : Decorator) : Prop where
  attributes : ∀ entry ∈ attributes d.header, ∀ value ∈ entry.2, Inert value
  content : '<' ∉ (content d.expression).toList ∧ '>' ∉ (content d.expression).toList
  /-- The first `>` ends the start of the element, and the next `<` is that of its end. -/
  parts : ∃ start stop : List Char,
    (Segment.decorator d).markup.toList =
      start ++ '>' :: ((Markup.content d.expression).toList ++ '<' :: stop) ∧
    '>' ∉ start ∧
    start ++ ['>'] = (openTag decoratorTag (Markup.attributes d.header)).toList ∧
    '<' :: stop = (closeTag decoratorTag).toList ++
      if d.header.target then (openTag targetTag [] ++ closeTag targetTag).toList else []

/-- Decorators with inert attributes are written alike if they have the same header and expressions
with the same content. -/
theorem markup_eq_iff {d d' : Decorator}
    (h : ∀ entry ∈ attributes d.header, ∀ value ∈ entry.2, Inert value)
    (h' : ∀ entry ∈ attributes d'.header, ∀ value ∈ entry.2, Inert value) :
    (Segment.decorator d).markup = (Segment.decorator d').markup ↔
      d.header = d'.header ∧ content d.expression = content d'.expression := by
  constructor
  · intro heq
    -- Both elements are cut at the first `>` and at the next `<`.
    rw [← String.toList_inj, toList_markup, toList_markup] at heq
    obtain ⟨hstart, hrest⟩ := append_cons_inj (not_mem_startOf h) (not_mem_startOf h') heq
    obtain ⟨hcontent, hstop⟩ :=
      append_cons_inj (not_mem_content d.expression).1 (not_mem_content d'.expression).1 hrest
    rw [startOf, startOf, List.cons.injEq, List.append_cancel_left_eq] at hstart
    have hnames : (attributes d.header).map Prod.fst = (attributes d'.header).map Prod.fst := by
      rw [fst_attributes, fst_attributes]
    have hnodup : ((attributes d.header).map Prod.fst).Nodup := by
      rw [fst_attributes]
      decide
    have hattributes := attributesText_inj hnames hnodup
      (fun name hname => (not_mem_attributeNames name hname).1)
      (fun entry hentry value hvalue => h entry hentry value hvalue '"' (by decide))
      (fun entry hentry value hvalue => h' entry hentry value hvalue '"' (by decide)) hstart.2
    exact ⟨eq_of_attributes hattributes (endOf_inj hstop), String.toList_inj.mp hcontent⟩
  · rintro ⟨hheader, hcontent⟩
    rw [Segment.markup, Segment.markup, element, element, hheader, hcontent]

/-- Nothing breaks out of the element of a decorator, and decorators, wherever they are from, are
only written alike when they have the same header. -/
theorem confined_of_scan {source source' : String} {segments segments' : List Segment}
    (h : scan source = .ok segments) (h' : scan source' = .ok segments') {d d' : Decorator}
    (hd : .decorator d ∈ segments) (hd' : .decorator d' ∈ segments') :
    d.Confined ∧
      ((Segment.decorator d).markup = (Segment.decorator d').markup ↔
        d.header = d'.header ∧ content d.expression = content d'.expression) := by
  obtain ⟨frame, hframe⟩ := exists_frame_of_scan h hd
  obtain ⟨frame', hframe'⟩ := exists_frame_of_scan h' hd'
  have hinert := inert_of_frame frame
  have hinert' := inert_of_frame frame'
  rw [← hframe] at hinert
  rw [← hframe'] at hinert'
  refine ⟨⟨hinert, not_mem_content d.expression, ?_⟩, markup_eq_iff hinert hinert'⟩
  exact ⟨startOf d.header, endOf d.header, toList_markup d, not_mem_startOf hinert,
    startOf_append d.header, rfl⟩

/-- A label on one side is the model on the other. -/
theorem confined_of_scan_label :
    ∃ d d' : Decorator, scan "[é:b >]" = .ok [.decorator d] ∧
      scan "[é=b >]" = .ok [.decorator d'] ∧ d.header.label = d'.header.model ∧ d.Confined ∧
      ((Segment.decorator d).markup = (Segment.decorator d').markup ↔
        d.header = d'.header ∧ content d.expression = content d'.expression) := by
  obtain ⟨_, hlabel, rfl⟩ : ∃ segments, scan "[é:b >]" = .ok segments ∧ segments =
      [.decorator ⟨⟨.processor, "é", some "b", none, false⟩, ">", ⟨0, 8⟩, ⟨6, 7⟩⟩] :=
    exists_eq_ok_of_toOption (by decide +kernel)
  obtain ⟨_, hmodel, rfl⟩ : ∃ segments, scan "[é=b >]" = .ok segments ∧ segments =
      [.decorator ⟨⟨.processor, "é", none, some "b", false⟩, ">", ⟨0, 8⟩, ⟨6, 7⟩⟩] :=
    exists_eq_ok_of_toOption (by decide +kernel)
  exact ⟨_, _, hlabel, hmodel, rfl,
    confined_of_scan hlabel hmodel List.mem_cons_self List.mem_cons_self⟩

end ReactiveTemplate
