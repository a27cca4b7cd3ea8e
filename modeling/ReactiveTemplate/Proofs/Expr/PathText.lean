import ReactiveTemplate.Proofs.Expr.Constancy
import ReactiveTemplate.Proofs.Expr.RoundTrip
import ReactiveTemplate.Proofs.Expr.Suppression

/-!
# Paths as sources

The text of a path to observe is a source of its own, which is read as that path. The names in a
tree can be read again, and none of them is a keyword where a variable stands. Only the name of a
filter may be one: it is watched like a variable, but its text is read as the value of the keyword.
-/

namespace ReactiveTemplate

open ReactiveTemplate.Expr

namespace Expr

/-! ## Names in trees -/

/-- A text that is a name. -/
def Spelled (name : String) : Prop :=
  ∃ token : Token, token.lexeme.IsWhole ∧ token.kind = .identifier ∧ token.text = name

/-- A keyword that stands as a name. -/
def IsKeyword (e : Expr) : Prop :=
  ∃ note name, e = identifier note name ∧ keyword? name ≠ none

/-- The name of a variable. -/
def name? : Expr → Option String
  | identifier _ name => some name
  | _ => none

/-- The names that a node has itself. -/
def names : Expr → List String
  | identifier _ name => [name]
  | member _ _ (identifier _ name) false => [name]
  | _ => []

/-- The name of a filter. -/
def filter? : Expr → Option Expr
  | call _ callee _ true => some callee
  | _ => none

/-- A node whose names can be read. No part of it is a keyword unless it is the name of a filter. -/
structure Named (e : Expr) : Prop where
  spelled : ∀ name ∈ e.names, Spelled name
  keyword : ∀ part ∈ e.children, part.IsKeyword → e.filter? = some part

/-- A tree whose names can be read. No keyword stands for a variable. -/
structure Readable (e : Expr) : Prop where
  root : ¬e.IsKeyword
  named : e.Everywhere Named

theorem not_isKeyword {e : Expr} (h : ∀ note name, e ≠ identifier note name) : ¬e.IsKeyword := by
  rintro ⟨note, name, heq, -⟩
  exact h note name heq

/-- A node with readable parts. -/
theorem readable_node {e : Expr} (hnode : ∀ note name, e ≠ identifier note name)
    (hnames : ∀ name ∈ e.names, Spelled name) (hparts : ∀ part ∈ e.children, part.Readable) :
    e.Readable := by
  refine ⟨not_isKeyword hnode, .node ⟨hnames, ?_⟩ fun part hpart => (hparts part hpart).named⟩
  intro part hpart hkeyword
  exact absurd hkeyword (hparts part hpart).root

variable {token : Token}

/-- A name that the tokenizer has read is a name wherever it is put, so that it can be printed and
read again. -/
theorem named_ofName (hwhole : token.lexeme.IsWhole) (hkind : token.kind = .identifier) :
    (ofName token).Everywhere Named := by
  refine .node ⟨?_, by simp [ofName, children]⟩ (by simp [ofName, children])
  intro name hname
  rw [List.mem_singleton.mp hname]
  exact ⟨token, hwhole, hkind, rfl⟩

/-- A variable that is read has a name other than a keyword, for keywords are read as literals. -/
theorem readable_ofName (hwhole : token.lexeme.IsWhole) (hkind : token.kind = .identifier)
    (hname : keyword? token.text = none) : (ofName token).Readable := by
  refine ⟨?_, named_ofName hwhole hkind⟩
  rintro ⟨note, name, heq, hkeyword⟩
  cases heq
  exact hkeyword hname

theorem readable_ofValue {value : Value} : (ofValue token value).Readable :=
  readable_node (by simp [ofValue]) (by simp [ofValue, names]) (by simp [ofValue, children])

/-- Whatever the name of a filter is, it stands for no variable. -/
theorem readable_filter {note : Note} {input : Expr} {es : List Expr}
    (hwhole : token.lexeme.IsWhole) (hkind : token.kind = .identifier)
    (hes : ∀ e ∈ input :: es, e.Readable) :
    (call note (ofName token) (input :: es) true).Readable := by
  obtain ⟨hinput, hes⟩ := List.forall_mem_cons.mp hes
  refine ⟨not_isKeyword (by simp), .node ⟨by simp [names], ?_⟩ ?_⟩
  · intro part hpart hkeyword
    rcases List.mem_cons.mp hpart with rfl | hpart
    · exact absurd hkeyword hinput.root
    · rcases List.mem_cons.mp hpart with rfl | hpart
      · rfl
      · exact absurd hkeyword (hes part hpart).root
  · intro part hpart
    rcases List.mem_cons.mp hpart with rfl | hpart
    · exact hinput.named
    · rcases List.mem_cons.mp hpart with rfl | hpart
      · exact named_ofName hwhole hkind
      · exact (hes part hpart).named

end Expr

/-- The trees of a derivation from lexemes are readable. -/
theorem Derives.readable {s : Symbol} {w : List Token} {v : s.Value} {d : Nat}
    (h : Derives s w v d) (hw : ∀ token ∈ w, token.lexeme.IsWhole) :
    ∀ e ∈ s.parts v, e.Readable := by
  induction h with
  | nested _ ih | unfiltered _ ih | unconditional _ ih | tighter _ ih | operand _ ih
  | unsigned _ ih | plain _ ih => exact ih hw
  | filter _ _ hname ih =>
      simp only [List.forall_mem_append, List.forall_mem_cons] at hw
      refine List.forall_mem_singleton.mpr (readable_filter hw.2.2.1 hname ?_)
      exact ih hw.1
  | filterCall _ _ hname _ _ ih ihs =>
      simp only [List.forall_mem_append, List.forall_mem_cons] at hw
      obtain ⟨hinput, -, hwhole, -, hrest⟩ := hw
      have hes := ihs hrest
      rw [Symbol.parts, Symbol.parts_items_part] at hes
      refine List.forall_mem_singleton.mpr (readable_filter hwhole hname ?_)
      exact List.forall_mem_cons.mpr ⟨List.forall_mem_singleton.mp (ih hinput), hes⟩
  | choice _ _ _ _ _ ih₁ ih₂ ih₃ =>
      simp only [List.forall_mem_append, List.forall_mem_cons] at hw
      obtain ⟨htest, -, hconsequent, -, halternate⟩ := hw
      refine List.forall_mem_singleton.mpr (readable_node (by simp) (by simp [names]) ?_)
      have hmore := List.forall_mem_append.mpr ⟨ih₂ hconsequent, ih₃ halternate⟩
      exact List.forall_mem_append.mpr ⟨ih₁ htest, hmore⟩
  | binary _ _ _ ih ih' =>
      simp only [List.forall_mem_append, List.forall_mem_cons] at hw
      refine List.forall_mem_singleton.mpr (readable_node (by simp) (by simp [names]) ?_)
      exact List.forall_mem_append.mpr ⟨ih hw.1, ih' hw.2.2⟩
  | unary _ _ ih =>
      rw [List.forall_mem_cons] at hw
      refine List.forall_mem_singleton.mpr (readable_node (by simp) (by simp [names]) ?_)
      exact ih hw.2
  | call _ _ _ ih ihs =>
      simp only [List.forall_mem_append, List.forall_mem_cons] at hw
      have hes := ihs hw.2.2
      rw [Symbol.parts, Symbol.parts_items_part] at hes
      refine List.forall_mem_singleton.mpr (readable_node (by simp) (by simp [names]) ?_)
      exact List.forall_mem_append.mpr ⟨ih hw.1, hes⟩
  | element _ _ _ _ ih ih' =>
      simp only [List.forall_mem_append, List.forall_mem_cons] at hw
      refine List.forall_mem_singleton.mpr (readable_node (by simp) (by simp [names]) ?_)
      exact List.forall_mem_append.mpr ⟨ih hw.1, ih' hw.2.2.1⟩
  | member _ _ hname ih =>
      simp only [List.forall_mem_append, List.forall_mem_cons] at hw
      refine List.forall_mem_singleton.mpr (readable_node (by simp) ?_ (ih hw.1))
      exact List.forall_mem_singleton.mpr ⟨_, hw.2.2.1, hname, rfl⟩
  | group _ _ _ ih =>
      simp only [List.forall_mem_append, List.forall_mem_cons] at hw
      exact ih hw.2.1
  | array _ _ ihs =>
      rw [List.forall_mem_cons] at hw
      have hes := ihs hw.2
      rw [Symbol.parts, Symbol.parts_items_part] at hes
      exact List.forall_mem_singleton.mpr (readable_node (by simp) (by simp [names]) hes)
  | object _ _ ihs =>
      rw [List.forall_mem_cons] at hw
      exact List.forall_mem_singleton.mpr (readable_node (by simp) (by simp [names]) (ihs hw.2))
  | literal | keyword => exact List.forall_mem_singleton.mpr readable_ofValue
  | name hkind hname | shorthand hkind hname =>
      exact List.forall_mem_singleton.mpr (readable_ofName (hw _ List.mem_cons_self) hkind hname)
  | nameKey _ _ _ ih | literalKey _ _ _ ih =>
      simp only [List.forall_mem_cons] at hw
      exact ih hw.2.2
  | computedKey _ _ _ _ _ ih ih' =>
      simp only [List.forall_mem_append, List.forall_mem_cons] at hw
      obtain ⟨-, hkey, -, -, hvalue⟩ := hw
      exact List.forall_mem_append.mpr ⟨ih hkey, ih' hvalue⟩
  | close => exact List.forall_mem_nil _
  | last _ _ ih =>
      rw [List.forall_mem_append] at hw
      simpa [Symbol.parts] using ih hw.1
  | more _ _ _ ih ihs =>
      simp only [List.forall_mem_append, List.forall_mem_cons] at hw
      rw [Symbol.parts, List.flatMap_cons]
      exact List.forall_mem_append.mpr ⟨ih hw.1, ihs hw.2.2⟩

/-- The trees of a list are readable if the tokens are whole, as they are when they come from a
source. -/
theorem DerivesList.readable {w : List Token} {es : List Expr} {d : Nat} (h : DerivesList w es d)
    (hw : ∀ token ∈ w, token.lexeme.IsWhole) : ∀ e ∈ es, e.Readable := by
  induction h with
  | one h => exact h.readable hw
  | more h _ _ ih =>
      simp only [List.forall_mem_append, List.forall_mem_cons] at hw
      exact List.forall_mem_append.mpr ⟨h.readable hw.1, ih hw.2.2⟩

/-- What a source is read as is readable, and it is no higher than trees may be. -/
theorem readable_of_parse {source : String} {es : List Expr} (h : parse source = .ok es) :
    ∀ e ∈ es, e.Readable ∧ e.height ≤ nestingLimit := by
  obtain ⟨tokens, htokens, hread⟩ := parse_eq_ok_iff.mp h
  obtain ⟨d, hsource⟩ := DerivesSource.of_ofTokens hread
  have hheights := (hsource.bounds_of_ofTokens hread).2.2
  cases hsource with
  | empty => exact List.forall_mem_nil _
  | list hlist =>
      have hreadable := hlist.readable (isWhole_of_tokenize htokens)
      exact fun e he => ⟨hreadable e he, hheights e he⟩

namespace Expr

/-! ## Paths -/

/-- Only what can be watched has a path: variables, and accesses by a name to what has one. -/
theorem isWatchable_of_path? {e : Expr} {path : List String} (h : e.path? = some path) :
    e.isWatchable := by
  fun_induction path? e generalizing path with
  | case1 => rfl
  | case2 note base note' name ih =>
      obtain ⟨front, hfront, -⟩ := Option.map_eq_some_iff.mp h
      exact ih hfront
  | case3 => contradiction

/-- A chain of names is printed without parentheses. -/
theorem not_isCompound_of_isWatchable {e : Expr} (h : e.isWatchable) :
    ¬e.isCompound ∧ ¬e.isNumber := by
  cases e with
  | identifier | member => exact ⟨Bool.false_ne_true, Bool.false_ne_true⟩
  | _ => contradiction

/-- A path is printed without brackets, so that its text opens no level of nesting, however long it
is. -/
theorem printedDepth_of_path? {e : Expr} {path : List String} (h : e.path? = some path) :
    e.printedDepth = 0 := by
  fun_induction path? e generalizing path with
  | case1 => rfl
  | case2 note base note' name ih =>
      obtain ⟨front, hfront, -⟩ := Option.map_eq_some_iff.mp h
      obtain ⟨hcompound, hnumber⟩ :=
        not_isCompound_of_isWatchable (isWatchable_of_path? hfront)
      simp [printedDepth, operatedDepth, operandDepth, hcompound, hnumber, ih hfront]
  | case3 => contradiction

/-- A longer path starts with the same name. -/
theorem headD_append {front : List String} (h : front ≠ []) (more : List String) :
    (front ++ more).headD "" = front.headD "" := by
  cases front with
  | nil => contradiction
  | cons name front => rfl

/-- A path that starts with a keyword is the keyword alone. -/
theorem isKeyword_of_root {e : Expr} {path : List String} (h : e.Everywhere Named)
    (hpath : e.path? = some path) (hroot : keyword? (path.headD "") ≠ none) : e.IsKeyword := by
  fun_induction path? e generalizing path with
  | case1 note name =>
      cases hpath
      exact ⟨note, name, rfl, hroot⟩
  | case2 note base note' name ih =>
      obtain ⟨front, hfront, rfl⟩ := Option.map_eq_some_iff.mp hpath
      rw [headD_append (path?_ne_nil hfront)] at hroot
      cases h with
      | node hnode hparts =>
          -- A member has no name of a filter among its parts.
          have hbase := ih (hparts base List.mem_cons_self) hfront hroot
          exact absurd (hnode.keyword base List.mem_cons_self hbase) (by simp [filter?])
  | case3 => contradiction

/-- The names of a path can be printed as that path, unless it starts with a keyword. -/
theorem exists_prints_of_path? {e : Expr} {path : List String} (h : e.Everywhere Named)
    (hpath : e.path? = some path) (hroot : keyword? (path.headD "") = none) :
    ∃ e' : Expr, e'.Prints ∧ e'.print = ".".intercalate path ∧ e'.path? = some path ∧
      e'.height = e.height := by
  fun_induction path? e generalizing path with
  | case1 note name =>
      cases hpath
      obtain ⟨token, hwhole, hkind, rfl⟩ := h.root.spelled name List.mem_cons_self
      exact ⟨ofName token, .name hwhole hkind hroot, String.intercalate_singleton.symm, rfl, rfl⟩
  | case2 note base note' name ih =>
      obtain ⟨front, hfront, rfl⟩ := Option.map_eq_some_iff.mp hpath
      rw [headD_append (path?_ne_nil hfront)] at hroot
      obtain ⟨token, hwhole, hkind, rfl⟩ := h.root.spelled name List.mem_cons_self
      cases h with
      | node hnode hparts =>
          obtain ⟨base', hprints, hprint, hpath', hheight⟩ :=
            ih (hparts base List.mem_cons_self) hfront hroot
          obtain ⟨hcompound, hnumber⟩ :=
            not_isCompound_of_isWatchable (isWatchable_of_path? hpath')
          refine ⟨member ⟨default, none⟩ base' (ofName token) false,
            hprints.member hwhole hkind, ?_, ?_, ?_⟩
          · rw [String.intercalate_append_of_ne_nil (path?_ne_nil hfront) (by simp), ← hprint]
            simp [print, operated, operand, hcompound, hnumber, ofName, String.append_assoc]
          · simp [path?, ofName, hpath']
          · simp [height, hheight]
  | case3 => contradiction

/-- An access has a path if its property is a name behind a point and its base has a path, which the
name then continues. -/
theorem path?_member (note : Note) (base property : Expr) (computed : Bool) :
    (member note base property computed).path? =
      if computed then none
      else base.path?.bind fun front => property.name?.map fun name => front ++ [name] := by
  cases property with
  | identifier note' name =>
      cases computed with
      | true => rfl
      | false => exact (Option.map_eq_bind ..)
  | _ => cases computed <;> simp [path?, name?]

theorem path?_mapSpans (f : Span → Span) : (e : Expr) → (Spanned.mapSpans f e).path? = e.path?
  | member note base property computed => by
      have hname : (Spanned.mapSpans f property).name? = property.name? := by
        cases property <;> rfl
      rw [mapSpans_member, path?_member, path?_member, path?_mapSpans f base, hname]
  | identifier .. | literal .. | call .. | conditional .. | object .. | array .. | unary ..
  | binary .. => rfl

/-- Marked expressions have the paths that they had. Flags are no part of a path, and the property
behind a point stays a name. -/
theorem path?_mark : (e : Expr) → e.mark.path? = e.path?
  | member note base property true => by rw [mark, if_pos rfl, path?_member, path?_member]; rfl
  | member note base property false => by
      rw [mark, if_neg Bool.false_ne_true, path?_member, path?_member, path?_mark base]
  | identifier .. | literal .. | call .. | conditional .. | object .. | array .. | unary ..
  | binary .. => rfl

/-- The text of a path is read as that path. -/
theorem parse_of_path? {e : Expr} {path : List String} (h : e.Everywhere Named)
    (hpath : e.path? = some path) (hroot : keyword? (path.headD "") = none)
    (hheight : e.height ≤ nestingLimit) :
    ∃ e', parse (".".intercalate path) = .ok [e'] ∧ e'.path? = some path := by
  obtain ⟨chain, hprints, hprint, hpath', hheight'⟩ := exists_prints_of_path? h hpath hroot
  obtain ⟨lexemes, hlexes, hderives⟩ := derives_printAll (List.forall_mem_singleton.mpr hprints)
  have hdepth : deepest [chain] ≤ nestingLimit := by
    simp [deepest, printedDepth_of_path? hpath', nestingLimit]
  have hheights : ∀ e ∈ bare [chain], e.height ≤ nestingLimit := by
    refine List.forall_mem_singleton.mpr ?_
    rw [← hheight', ← height_bare] at hheight
    exact hheight
  rw [printAll, List.map_singleton, String.intercalate_singleton, hprint] at hlexes
  obtain ⟨es, hparse, hbare⟩ := parse_of_lexes hlexes (hderives.ofTokens_eq_ok hdepth hheights)
  obtain ⟨e', rfl, hchain⟩ := List.map_eq_singleton_iff.mp hbare
  refine ⟨e', hparse, ?_⟩
  have hsame := congrArg path? hchain
  rwa [path?_mapSpans, path?_mapSpans, hpath'] at hsame

/-! ## Keywords -/

/-- The text of a keyword is read as a literal, which has no path. This is where texts of targets go
wrong. -/
theorem parse_of_keyword {name : String} (h : keyword? name ≠ none) :
    ∃ e, parse name = .ok [e] ∧ e.path? = none := by
  have hname : name = "true" ∨ name = "false" ∨ name = "null" := by
    by_contra hnot
    simp only [not_or] at hnot
    simp [keyword?, hnot] at h
  have hread : ∃ es, parse name = .ok es ∧ es.map path? = [none] := by
    rcases hname with rfl | rfl | rfl <;> exact exists_eq_ok_of_toOption (by decide +kernel)
  obtain ⟨es, hparse, hpaths⟩ := hread
  obtain ⟨e, rfl, he⟩ := List.map_eq_singleton_iff.mp hpaths
  exact ⟨e, hparse, he⟩

/-- A node is one of the expressions of a source or a part of another node. -/
theorem exists_parent {es : List Expr} {site : Site} {e : Expr} (h : at? es site = some e) :
    e ∈ es ∨ ∃ site' parent, at? es site' = some parent ∧ e ∈ parent.children := by
  induction site generalizing es with
  | nil => contradiction
  | cons i site ih =>
      obtain ⟨first, hfirst, hbelow⟩ := Option.bind_eq_some_iff.mp h
      by_cases hsite : site = []
      · subst hsite
        cases hbelow
        exact .inl (List.mem_of_getElem? hfirst)
      · rw [below?_of_ne_nil hsite] at hbelow
        rcases ih hbelow with hmem | ⟨site', parent, hparent, hmem⟩
        · exact .inr ⟨[i], first, at?_cons hfirst [], hmem⟩
        · refine .inr ⟨i :: site', parent, ?_, hmem⟩
          rw [at?_cons hfirst, below?_of_ne_nil (ne_nil_of_at? hparent)]
          exact hparent

theorem height_le_of_below? {e part : Expr} {site : Site} {bound : Nat}
    (hbelow : e.below? site = some part) (h : e.height ≤ bound) : part.height ≤ bound := by
  induction site generalizing e with
  | nil =>
      cases hbelow
      exact h
  | cons i site ih =>
      obtain ⟨child, hchild, hbelow⟩ := Option.bind_eq_some_iff.mp hbelow
      exact ih hbelow (height_le_of_mem_children (List.mem_of_getElem? hchild) h)

theorem at?_map_mark (es : List Expr) (site : Site) :
    at? (es.map mark) site = (at? es site).map mark := by
  cases site with
  | nil => rfl
  | cons i site =>
      rw [at?, at?, List.getElem?_map]
      cases es[i]? with
      | none => rfl
      | some e => exact below?_mark e site

/-- A target is a node of the marked trees. -/
theorem LaidOut.exists_at_of_mem_targets {start stop : Nat} {es : List Expr}
    (h : LaidOut start stop es) {t : Target} (ht : t ∈ targets es) :
    ∃ site, at? es site = some t.expression := by
  rw [targets, reverse_watchAll, List.mem_flatMap] at ht
  obtain ⟨e, he, ht⟩ := ht
  obtain ⟨site, hsite⟩ := exists_below_of_mem_watched (h.regular e he) ht
  obtain ⟨i, hi⟩ := List.mem_iff_getElem?.mp he
  exact ⟨i :: site, (at?_cons hi site).trans hsite⟩

theorem eq_call_of_filter? {e name : Expr} (h : e.filter? = some name) :
    ∃ note arguments, e = call note name arguments true := by
  cases e with
  | call note callee arguments filter =>
      cases filter with
      | true =>
          cases h
          exact ⟨note, arguments, rfl⟩
      | false => contradiction
  | _ => contradiction

theorem exists_below_of_at? {es : List Expr} {site : Site} {e : Expr} (h : at? es site = some e) :
    ∃ first ∈ es, ∃ site', first.below? site' = some e := by
  cases site with
  | nil => contradiction
  | cons i site =>
      obtain ⟨first, hfirst, hbelow⟩ := Option.bind_eq_some_iff.mp h
      exact ⟨first, List.mem_of_getElem? hfirst, site, hbelow⟩

/-- In readable trees, only the name of a filter is a keyword that stands as a name. -/
theorem exists_filter_of_isKeyword {es : List Expr} (h : ∀ e ∈ es, e.Readable) {site : Site}
    {e : Expr} (hsite : at? es site = some e) (hkeyword : e.IsKeyword) :
    ∃ site' note arguments, at? es site' = some (call note e arguments true) := by
  rcases exists_parent hsite with hmem | ⟨site', parent, hparent, hmem⟩
  · exact absurd hkeyword (h e hmem).root
  · obtain ⟨first, hfirst, site, hbelow⟩ := exists_below_of_at? hparent
    have hnamed := ((h first hfirst).named.below? hbelow).root
    have hfilter := hnamed.keyword e hmem hkeyword
    obtain ⟨note, arguments, rfl⟩ := eq_call_of_filter? hfilter
    exact ⟨site', note, arguments, hparent⟩

end Expr

/-- The text of a target is read as the path of the target, unless the target starts with a keyword.
Such a target is the keyword alone. It is the name of a filter, and its text is read as a value,
which has no path. -/
theorem parse_text_of_target {source : String} {es : List Expr} (h : parse source = .ok es)
    {t : Target} (ht : t ∈ targets (es.map mark)) :
    (keyword? t.root = none → ∃ e, parse t.text = .ok [e] ∧ e.path? = some t.path) ∧
    (keyword? t.root ≠ none →
      (∃ e, parse t.text = .ok [e] ∧ e.path? = none) ∧ t.path = [t.root] ∧
      ∃ site note arguments,
        at? (es.map mark) site = some (call note t.expression arguments true)) := by
  have hlaid := (laidOut_of_parse h).mark
  have hread := readable_of_parse h
  obtain ⟨site, hmarked⟩ := hlaid.exists_at_of_mem_targets ht
  obtain ⟨e, hsite, hmark⟩ := Option.map_eq_some_iff.mp ((at?_map_mark es site).symm.trans hmarked)
  obtain ⟨first, hfirst, site', hbelow⟩ := exists_below_of_at? hsite
  have hnamed := (hread first hfirst).1.named.below? hbelow
  have hpath : e.path? = some t.path := by
    rw [← path?_mark, hmark]
    exact hlaid.path?_of_mem_targets ht
  refine ⟨fun hroot => ?_, fun hroot => ?_⟩
  · exact parse_of_path? hnamed hpath hroot (height_le_of_below? hbelow (hread first hfirst).2)
  · have hkeyword := isKeyword_of_root hnamed hpath hroot
    obtain ⟨site', note, arguments, hfilter⟩ :=
      exists_filter_of_isKeyword (fun e he => (hread e he).1) hsite hkeyword
    obtain ⟨note', name, rfl, hname⟩ := hkeyword
    have hword : t.path = [name] := (Option.some.inj hpath).symm
    refine ⟨?_, ?_, ?_⟩
    · rw [Target.text, hword, String.intercalate_singleton]
      exact parse_of_keyword hname
    · rw [Target.root, hword]
      rfl
    · obtain ⟨note, arguments, hmarked⟩ :=
        eq_call_of_filter? (e := (call note (identifier note' name) arguments true).mark) rfl
      refine ⟨site', note, arguments, ?_⟩
      rw [at?_map_mark, hfilter, ← hmark, ← hmarked]
      rfl

/-- The filter of `x.y | true` is a keyword, and it is watched as if it were a variable of that
name. -/
theorem targets_of_filter :
    ∃ es t u, parse "x.y | true" = .ok es ∧ targets (es.map mark) = [t, u] ∧
      t.path = ["true"] ∧ u.path = ["x", "y"] := by
  obtain ⟨es, hparse, hpaths⟩ :
      ∃ es, parse "x.y | true" = .ok es ∧
        (targets (es.map mark)).map Target.path = [["true"], ["x", "y"]] :=
    exists_eq_ok_of_toOption (by decide +kernel)
  obtain ⟨t, us, htargets, ht, hus⟩ := List.map_eq_cons_iff.mp hpaths
  obtain ⟨u, rest, rfl, hu, hrest⟩ := List.map_eq_cons_iff.mp hus
  rw [List.map_eq_nil_iff] at hrest
  exact ⟨es, t, u, hparse, hrest ▸ htargets, ht, hu⟩

/-- A filter with the name of a keyword, and the path that it is applied to. -/
theorem parse_text_of_target_filter :
    ∃ es t u, parse "x.y | true" = .ok es ∧ t ∈ targets (es.map mark) ∧
      u ∈ targets (es.map mark) ∧ t.path = ["true"] ∧ u.path = ["x", "y"] ∧
      ((∃ e, parse t.text = .ok [e] ∧ e.path? = none) ∧ t.path = [t.root] ∧
        ∃ site note arguments,
          at? (es.map mark) site = some (call note t.expression arguments true)) ∧
      ∃ e, parse u.text = .ok [e] ∧ e.path? = some u.path := by
  obtain ⟨es, t, u, hparse, htargets, ht, hu⟩ := targets_of_filter
  have htmem : t ∈ targets (es.map mark) := by simp [htargets]
  have humem : u ∈ targets (es.map mark) := by simp [htargets]
  refine ⟨es, t, u, hparse, htmem, humem, ht, hu,
    (parse_text_of_target hparse htmem).2 ?_, (parse_text_of_target hparse humem).1 ?_⟩
  · rw [Target.root, ht]
    decide
  · rw [Target.root, hu]
    decide

/-- A target may start with a keyword, whose text is no path. -/
theorem not_targets_readable :
    ¬∀ source es, parse source = .ok es → ∀ t ∈ targets (es.map mark),
      ∃ e, parse t.text = .ok [e] ∧ e.path? = some t.path := by
  intro hall
  obtain ⟨es, t, u, hparse, htargets, ht, -⟩ := targets_of_filter
  obtain ⟨e, hread, hpath⟩ := hall _ es hparse t (by simp [htargets])
  obtain ⟨e', hread', hpath'⟩ := parse_of_keyword (show keyword? "true" ≠ none by decide)
  rw [Target.text, ht, String.intercalate_singleton, hread'] at hread
  cases hread
  rw [hpath'] at hpath
  contradiction

end ReactiveTemplate
