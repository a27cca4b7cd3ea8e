import ReactiveTemplate.Command.Run
import ReactiveTemplate.Proofs.Command.Places

/-!
# Writing files

A file that is written in a directory is seen at its place, and all else is seen as before. The same
is true for any number of files; of those at one place, one is seen.
-/

namespace ReactiveTemplate

namespace FileTree

variable {change : Option FileTree → FileTree}

/-! ## Entries -/

theorem lookup_alter (name other : String) (entries : List (String × FileTree)) :
    (alter name change entries).lookup other =
      if other = name then some (change (entries.lookup name)) else entries.lookup other := by
  induction entries with
  | nil => rw [alter, lookup_cons]; rfl
  | cons e entries ih =>
      obtain ⟨first, entry⟩ := e
      rw [alter]
      split
      · next hfirst =>
          subst hfirst
          simp only [lookup_cons, if_true]
          split <;> rfl
      · next hfirst =>
          rw [lookup_cons, ih, lookup_cons, lookup_cons, if_neg (Ne.symm hfirst)]
          by_cases hother : other = first
          · subst hother
            rw [if_pos rfl, if_pos rfl, if_neg hfirst]
          · rw [if_neg hother, if_neg hother]

theorem mem_alter {name : String} {entries : List (String × FileTree)} {e : String × FileTree}
    (h : e ∈ alter name change entries) :
    e ∈ entries ∨ e = (name, change (entries.lookup name)) := by
  induction entries with
  | nil => simpa [alter] using h
  | cons first entries ih =>
      obtain ⟨first, entry⟩ := first
      rw [alter] at h
      split at h
      · next hfirst =>
          subst hfirst
          rw [lookup_cons, if_pos rfl]
          rcases List.mem_cons.mp h with rfl | h
          · exact .inr rfl
          · exact .inl (List.mem_cons_of_mem _ h)
      · next hfirst =>
          rw [lookup_cons, if_neg (Ne.symm hfirst)]
          rcases List.mem_cons.mp h with rfl | h
          · exact .inl List.mem_cons_self
          · exact (ih h).imp_left (List.mem_cons_of_mem _)

theorem nodup_alter {name : String} {entries : List (String × FileTree)}
    (h : (entries.map Prod.fst).Nodup) : ((alter name change entries).map Prod.fst).Nodup := by
  induction entries with
  | nil => simp [alter]
  | cons first entries ih =>
      obtain ⟨first, entry⟩ := first
      rw [List.map_cons, List.nodup_cons] at h
      rw [alter]
      split
      · next hfirst =>
          subst hfirst
          exact List.nodup_cons.mpr h
      · next hfirst =>
          rw [List.map_cons, List.nodup_cons]
          refine ⟨fun hmem => ?_, ih h.2⟩
          obtain ⟨e, he, hname⟩ := List.mem_map.mp hmem
          rcases mem_alter he with hold | rfl
          · exact h.1 (List.mem_map.mpr ⟨e, hold, hname⟩)
          · exact hfirst hname.symm

/-! ## Trees -/

theorem look_update_cons (tree : FileTree) (name : String) (path : List String) (other : String)
    (place : List String) :
    (update change (name :: path) (some tree)).look (other :: place) =
      if other = name then (update change path (tree.entries.lookup name)).look place
      else tree.look (other :: place) := by
  have hentries : (update change (name :: path) (some tree)).entries =
      alter name (update change path) tree.entries := by
    rw [update]
    rfl
  rw [look_cons, hentries, lookup_alter, look_cons]
  split <;> rfl

/-- A file in a directory is seen at its place, and all else as it was. -/
theorem look_update (content : ByteArray) {tree : FileTree} {folder : List String} {name : String}
    (hfolder : tree.look folder = some .directory)
    (hfree : tree.look (folder ++ [name]) ≠ some .directory) (place : List String) :
    (update (fun _ => file content) (folder ++ [name]) (some tree)).look place =
      if place = folder ++ [name] then some (.file content) else tree.look place := by
  induction folder generalizing tree place with
  | nil =>
      rw [List.nil_append] at hfree ⊢
      cases place with
      | nil => rw [hfolder, update]; rfl
      | cons other place =>
          rw [look_update_cons]
          by_cases hother : other = name
          · subst hother
            cases place with
            | nil => rw [if_pos rfl, if_pos rfl, update]; rfl
            | cons next place =>
                have hbelow : tree.look (other :: next :: place) = none := look_below hfree
                rw [if_pos rfl, if_neg (by simp), hbelow, update]
                rfl
          · rw [if_neg hother, if_neg (by simp [hother])]
  | cons first folder ih =>
      obtain ⟨entries, entry, rfl, hlookup, hinner⟩ := exists_of_look_cons hfolder
      cases place with
      | nil => rw [List.cons_append, update, if_neg (by simp)]; rfl
      | cons other place =>
          rw [List.cons_append, look_update_cons]
          by_cases hother : other = first
          · subst hother
            have hentry (place : List String) :
                (directory entries).look (other :: place) = entry.look place := by
              rw [look_cons]
              exact congrArg (Option.bind · _) hlookup
            have hsome : (directory entries).entries.lookup other = some entry := hlookup
            rw [List.cons_append, hentry] at hfree
            rw [if_pos rfl, hsome, ih hinner hfree, hentry]
            simp
          · rw [if_neg hother, if_neg (by simp [hother])]

theorem wellFormed_alter {entries : List (String × FileTree)} {name : String}
    (h : (directory entries).WellFormed) (hname : IsName name)
    (hchange : (change (entries.lookup name)).WellFormed) :
    (directory (alter name change entries)).WellFormed := by
  cases h with
  | directory hnodup hnames hentry =>
      refine .directory (nodup_alter hnodup) (fun e he => ?_) (fun e he => ?_)
      · rcases mem_alter he with hold | rfl
        · exact hnames e hold
        · exact hname
      · rcases mem_alter he with hold | rfl
        · exact hentry e hold
        · exact hchange

/-- Writing a file into a directory that is there keeps a tree well-formed. The file may be new or
replace another one. -/
theorem wellFormed_update (content : ByteArray) {tree : FileTree} (h : tree.WellFormed)
    {folder : List String} {name : String} (hfolder : tree.look folder = some .directory)
    (hname : IsName name) :
    (update (fun _ => file content) (folder ++ [name]) (some tree)).WellFormed := by
  induction folder generalizing tree with
  | nil =>
      obtain ⟨entries, rfl⟩ := sight_eq_directory_iff.mp (Option.some.inj hfolder)
      rw [List.nil_append, update]
      exact wellFormed_alter h hname (by rw [update]; exact .file content)
  | cons first folder ih =>
      have hfirst := h.isName hfolder first List.mem_cons_self
      obtain ⟨entries, entry, rfl, hlookup, hinner⟩ := exists_of_look_cons hfolder
      have hentry := ih (h.lookup hlookup).2 hinner
      rw [← hlookup] at hentry
      rw [List.cons_append, update]
      exact wellFormed_alter h hfirst hentry

end FileTree

/-! ## The writes of a run -/

namespace FileWrite

open FileTree

/-- The place that a file is written at. -/
def place (write : FileWrite) : List String :=
  destination write.path

/-- Whether a file can be written: in a directory, and not where a directory stands. -/
def Fits (write : FileWrite) (tree : FileTree) : Prop :=
  ∃ folder name, write.place = folder ++ [name] ∧ IsName name ∧
    tree.look folder = some .directory ∧ tree.look write.place ≠ some .directory

variable {write other : FileWrite} {tree : FileTree}

/-- A write that fits is seen at its own place, as the file with its content, and nowhere else. -/
theorem Fits.look (h : write.Fits tree) (place : List String) :
    (tree.write write.path write.content.toUTF8).look place =
      if place = write.place then some (.file write.content.toUTF8) else tree.look place := by
  obtain ⟨folder, name, hplace, -, hfolder, hfree⟩ := h
  rw [hplace] at hfree ⊢
  rw [FileTree.write, ← FileWrite.place, hplace]
  exact look_update _ hfolder hfree place

/-- The directories are the same after a write. -/
theorem Fits.look_eq_directory_iff (h : write.Fits tree) {place : List String} :
    (tree.write write.path write.content.toUTF8).look place = some .directory ↔
      tree.look place = some .directory := by
  rw [h.look]
  split
  · next hplace =>
      obtain ⟨-, -, -, -, -, hfree⟩ := h
      subst hplace
      simp [hfree]
  · rfl

/-- What fits a tree still fits it after another write, since writes make no directory and remove
none. -/
theorem Fits.after (h : write.Fits tree) (hother : other.Fits tree) :
    other.Fits (tree.write write.path write.content.toUTF8) := by
  obtain ⟨folder, name, hplace, hname, hfolder, hfree⟩ := hother
  refine ⟨folder, name, hplace, hname, h.look_eq_directory_iff.mpr hfolder, ?_⟩
  rwa [Ne, h.look_eq_directory_iff]

/-- A write that fits leaves a well-formed tree: it replaces a file or adds one with a name of its
own. -/
theorem Fits.wellFormed (h : write.Fits tree) (htree : tree.WellFormed) :
    (tree.write write.path write.content.toUTF8).WellFormed := by
  obtain ⟨folder, name, hplace, hname, hfolder, -⟩ := h
  rw [FileTree.write, ← FileWrite.place, hplace]
  exact wellFormed_update _ htree hfolder hname

end FileWrite

namespace Outcome

open FileTree

/-- What is seen after a run is one of its writes, or else what was seen before. -/
theorem look_apply {outcome : Outcome} {tree : FileTree}
    (h : ∀ write ∈ outcome.writes, write.Fits tree) (place : List String) :
    (∃ write ∈ outcome.writes, write.place = place ∧
      (outcome.apply tree).look place = some (.file write.content.toUTF8)) ∨
    ((∀ write ∈ outcome.writes, write.place ≠ place) ∧
      (outcome.apply tree).look place = tree.look place) := by
  unfold apply
  generalize outcome.writes = writes at h
  induction writes generalizing tree with
  | nil => exact .inr ⟨by simp, rfl⟩
  | cons first writes ih =>
      rw [List.forall_mem_cons] at h
      rw [List.foldl_cons]
      rcases ih fun write hwrite => h.1.after (h.2 write hwrite) with
        ⟨write, hwrite, hplace, hlook⟩ | ⟨hplace, hlook⟩
      · exact .inl ⟨write, List.mem_cons_of_mem _ hwrite, hplace, hlook⟩
      · rw [hlook, h.1.look]
        by_cases hfirst : place = first.place
        · exact .inl ⟨first, List.mem_cons_self, hfirst.symm, if_pos hfirst⟩
        · exact .inr ⟨List.forall_mem_cons.mpr ⟨Ne.symm hfirst, hplace⟩, if_neg hfirst⟩

theorem wellFormed_apply {outcome : Outcome} {tree : FileTree}
    (h : ∀ write ∈ outcome.writes, write.Fits tree) (htree : tree.WellFormed) :
    (outcome.apply tree).WellFormed := by
  unfold apply
  generalize outcome.writes = writes at h
  induction writes generalizing tree with
  | nil => exact htree
  | cons first writes ih =>
      rw [List.forall_mem_cons] at h
      have hrest : ∀ write ∈ writes,
          write.Fits (tree.write first.path first.content.toUTF8) :=
        fun write hwrite => h.1.after (h.2 write hwrite)
      exact ih (h.1.wellFormed htree) hrest

end Outcome

end ReactiveTemplate
