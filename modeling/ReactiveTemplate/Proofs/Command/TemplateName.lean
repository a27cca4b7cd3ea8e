import ReactiveTemplate.Command.Run
import ReactiveTemplate.Proofs.Command.Places

/-!
# Names of templates and of their markup

The markup of a template has the name of the template with another ending, and is no template
itself. A template that has no name but its ending keeps it, so its markup goes where that of one
other template goes.
-/

namespace ReactiveTemplate

/-- A name that ends like a template's, and not like that of markup. -/
structure IsTemplate (name : String) : Prop where
  html : ".html".toList <:+ name.toList
  not_markup : ¬".dp.html".toList <:+ name.toList

/-- `IsStem name stem` says that `stem` is the name of a template without its ending; a name that is
all ending is its own stem. -/
inductive IsStem (name stem : String) : Prop where
  | ending (hstem : stem ≠ "") (hname : name = stem ++ ".html")
  | whole (hname : name = ".html") (hstem : stem = ".html")

/-- The test of a name by its ending is the condition on names: an ending for templates, and not
that of markup. -/
theorem isTemplateName_iff {name : String} : isTemplateName name ↔ IsTemplate name := by
  rw [isTemplateName, Bool.and_eq_true, Bool.not_eq_true', ← Bool.not_eq_true, endsWith, endsWith,
    List.isSuffixOf_iff_suffix, List.isSuffixOf_iff_suffix]
  exact ⟨fun h => ⟨h.1, h.2⟩, fun h => ⟨h.html, h.not_markup⟩⟩

instance (name : String) : Decidable (IsTemplate name) :=
  decidable_of_iff _ isTemplateName_iff

theorem IsTemplate.exists_stem {name : String} (h : IsTemplate name) :
    ∃ stem, IsStem name stem ∧ markupName name = stem ++ ".dp.html" := by
  obtain ⟨front, hfront⟩ := h.html
  have htake : name.toList.take (name.length - ".html".length) = front := by
    rw [← String.length_toList, ← hfront, List.length_append]
    exact List.take_left' (Nat.add_sub_cancel _ _).symm
  have hname : name = String.ofList front ++ ".html" := by
    rw [← String.toList_inj, ← hfront, String.toList_append, String.toList_ofList (l := front)]
  rw [markupName, htake]
  cases front with
  | nil => exact ⟨".html", .whole hname rfl, by rw [hname]; rfl⟩
  | cons c front => exact ⟨_, .ending (by simp) hname, rfl⟩

namespace IsStem

variable {name name' stem stem' : String}

/-- The stem of a template's name is determined by the name, so that its markup has one place. -/
theorem unique (h : IsStem name stem) (h' : IsStem name stem') : stem = stem' := by
  have hempty {stem : String} (h : ".html" = stem ++ ".html") : stem = "" := by
    have hlength := congrArg String.length h
    rw [String.length_append] at hlength
    exact String.length_eq_zero_iff.mp (by omega)
  rcases h with ⟨hstem, rfl⟩ | ⟨rfl, rfl⟩
  · rcases h' with ⟨hstem', hname⟩ | ⟨hname, -⟩
    · simpa using hname
    · exact absurd (hempty hname.symm) hstem
  · rcases h' with ⟨hstem', hname⟩ | ⟨-, rfl⟩
    · exact absurd (hempty hname) hstem'
    · rfl

/-- Two templates with one stem have the same name, or the one has no name but its ending and the
other has this ending twice. -/
theorem eq_or (h : IsStem name stem) (h' : IsStem name' stem) :
    name = name' ∨ (name = ".html" ∧ name' = ".html.html") ∨
      (name = ".html.html" ∧ name' = ".html") := by
  rcases h with ⟨-, rfl⟩ | ⟨rfl, rfl⟩ <;> rcases h' with ⟨-, rfl⟩ | ⟨rfl, hstem⟩
  · exact .inl rfl
  · subst hstem
    exact .inr (.inr ⟨rfl, rfl⟩)
  · exact .inr (.inl ⟨rfl, rfl⟩)
  · exact .inl rfl

theorem isName_markup (h : IsStem name stem) (hname : FileTree.IsName name) :
    FileTree.IsName (stem ++ ".dp.html") := by
  have hlength : (stem ++ ".dp.html").length = stem.length + 8 := by
    rw [String.length_append]
    rfl
  have hslash : '/' ∉ stem.toList := by
    rcases h with ⟨-, rfl⟩ | ⟨rfl, rfl⟩
    · have hname := hname.noSlash
      rw [String.toList_append, List.mem_append, not_or] at hname
      exact hname.1
    · decide
  -- The name is too long to be one of those that lead elsewhere.
  have hlong {short : String} (hshort : short.length < 8) : stem ++ ".dp.html" ≠ short := by
    rintro rfl
    omega
  refine ⟨hlong (by decide), hlong (by decide), hlong (by decide), ?_⟩
  rw [String.toList_append, List.mem_append, not_or]
  exact ⟨hslash, by decide⟩

end IsStem

/-- The name of a file for markup is no template's, so that markup is never compiled again. -/
theorem not_isTemplate_markup (stem : String) : ¬IsTemplate (stem ++ ".dp.html") := by
  intro h
  apply h.not_markup
  rw [String.toList_append]
  exact List.suffix_append _ _

end ReactiveTemplate
