import ReactiveTemplate.Proofs.Command.Visiting
import ReactiveTemplate.Proofs.Command.Walk
import ReactiveTemplate.Proofs.Command.Writing

/-!
# Templates in a directory

The templates in a directory of a tree, and the files that their markup goes to. They are what a
walk through the directory meets, they depend on what is seen of the tree only, and writing their
markup does not change them.
-/

namespace ReactiveTemplate

open FileTree

/-! ## Templates and their markup -/

section

variable (tree : FileTree) (base : List String)

/-- A template in the directory at `base`: its name in the directory at `folder`, and its text. -/
structure TemplateAt (folder : List String) (name source : String) : Prop where
  within : base <+: folder
  isTemplate : IsTemplate name
  text : tree.look (folder ++ [name]) = some (.file source.toUTF8)

/-- The template `name` at `folder`, in the directory at `base`, has this markup, which goes to the
file at `place` beside it. -/
def Renders (folder : List String) (name : String) (place : List String) (markup : String) : Prop :=
  ∃ source stem, TemplateAt tree base folder name source ∧ process source = .ok markup ∧
    IsStem name stem ∧ place = folder ++ [stem ++ ".dp.html"]

/-- The markup of some template in the directory at `base` goes to the file at `place`. -/
def Rendered (place : List String) (markup : String) : Prop :=
  ∃ folder name, Renders tree base folder name place markup

/-- Whether there is a template in the directory at `base`, and every one can be compiled. -/
def Compiles : Prop :=
  (∃ folder name source, TemplateAt tree base folder name source) ∧
    ∀ folder name source, TemplateAt tree base folder name source →
      ∃ compiled, compileTemplate source = .ok compiled

/-- Some directory contains both of the templates whose markup goes to the same file. -/
def Collides : Prop :=
  ∃ folder place markup markup', Renders tree base folder ".html" place markup ∧
    Renders tree base folder ".html.html" place markup'

end

/-- The directory at `path`, or one in it, has the name of a template. -/
def Misnamed (tree : FileTree) (path : String) : Prop :=
  (∃ name ∈ fileName? path, IsTemplate name) ∨
    ∃ folder name, destination path <+: folder ∧ IsTemplate name ∧
      tree.look (folder ++ [name]) = some .directory

/-- A tree in which templates can be read and their markup can be written. -/
structure Processable (tree : FileTree) (path : String) : Prop where
  wellFormed : tree.WellFormed
  texts : ∀ folder name content, destination path <+: folder → IsTemplate name →
    tree.look (folder ++ [name]) = some (.file content) → ∃ source : String, content = source.toUTF8
  writable : ∀ place markup, Rendered tree (destination path) place markup →
    tree.look place ≠ some .directory

section

variable {tree : FileTree} {base folder folder' place : List String}
  {name name' source markup markup' : String}

/-- The markup of a template goes beside it, to the name that the command makes of the template's
name. -/
theorem renders_iff : Renders tree base folder name place markup ↔
    ∃ source, TemplateAt tree base folder name source ∧ process source = .ok markup ∧
      place = folder ++ [markupName name] := by
  constructor
  · rintro ⟨source, stem, htemplate, hprocess, hstem, rfl⟩
    obtain ⟨stem', hstem', hname⟩ := htemplate.isTemplate.exists_stem
    rw [hstem.unique hstem', ← hname]
    exact ⟨source, htemplate, hprocess, rfl⟩
  · rintro ⟨source, htemplate, hprocess, rfl⟩
    obtain ⟨stem, hstem, hname⟩ := htemplate.isTemplate.exists_stem
    exact ⟨source, stem, htemplate, hprocess, hstem, by rw [hname]⟩

theorem TemplateAt.unique (h : TemplateAt tree base folder name source) {source' : String}
    (h' : TemplateAt tree base folder name source') : source = source' := by
  have htext := h.text.symm.trans h'.text
  rw [Option.some.injEq, Sight.file.injEq] at htext
  exact String.toByteArray_inj.mp htext

/-- Two templates have their markup in different files when no directory contains both of the ones
that are in each other's way. -/
theorem Renders.separate (hcollides : ¬Collides tree base)
    (h : Renders tree base folder name place markup)
    (h' : Renders tree base folder' name' place markup') : folder = folder' ∧ name = name' := by
  have hfolder : folder = folder' := by
    obtain ⟨_, _, _, _, _, rfl⟩ := h
    obtain ⟨_, _, _, _, _, hplace⟩ := h'
    exact List.append_inj_left' hplace rfl
  subst hfolder
  refine ⟨rfl, ?_⟩
  have hstem : ∃ stem, IsStem name stem ∧ IsStem name' stem := by
    obtain ⟨_, stem, _, _, hstem, rfl⟩ := h
    obtain ⟨_, stem', _, _, hstem', hplace⟩ := h'
    have hsame : stem = stem' := by simpa using hplace
    exact ⟨stem, hstem, hsame ▸ hstem'⟩
  obtain ⟨stem, hstem, hstem'⟩ := hstem
  rcases hstem.eq_or hstem' with hname | ⟨rfl, rfl⟩ | ⟨rfl, rfl⟩
  · exact hname
  · exact absurd ⟨folder, place, markup, markup', h, h'⟩ hcollides
  · exact absurd ⟨folder, place, markup', markup, h', h⟩ hcollides

/-- The markup that goes to a file is determined when no two templates share it. -/
theorem Rendered.unique (hcollides : ¬Collides tree base) (h : Rendered tree base place markup)
    (h' : Rendered tree base place markup') : markup = markup' := by
  obtain ⟨folder, name, h⟩ := h
  obtain ⟨folder', name', h'⟩ := h'
  obtain ⟨rfl, rfl⟩ := h.separate hcollides h'
  obtain ⟨source, htemplate, hprocess, -⟩ := renders_iff.mp h
  obtain ⟨source', htemplate', hprocess', -⟩ := renders_iff.mp h'
  rw [htemplate.unique htemplate', hprocess'] at hprocess
  exact (Except.ok.inj hprocess).symm

/-- Markup goes to no template. -/
theorem Rendered.ne_template (h : Rendered tree base place markup) (hname : IsTemplate name) :
    place ≠ folder ++ [name] := by
  obtain ⟨folder', name', source, stem, -, -, -, rfl⟩ := h
  intro hplace
  have hmarkup : stem ++ ".dp.html" = name := by simpa using List.append_inj_right' hplace rfl
  exact not_isTemplate_markup stem (hmarkup ▸ hname)

/-- Markup can be written where it goes. -/
theorem Rendered.fits {path : String} (htree : Processable tree path)
    (h : Rendered tree (destination path) place markup) {write : FileWrite}
    (hwrite : write.place = place) : write.Fits tree := by
  have hfree := htree.writable _ _ h
  obtain ⟨folder, name, source, stem, htemplate, -, hstem, rfl⟩ := h
  have hname := htree.wellFormed.isName htemplate.text name (by simp)
  have hfolder : tree.look folder = some .directory := by
    by_contra hfolder
    have hbelow := htemplate.text
    rw [look_below hfolder] at hbelow
    contradiction
  exact ⟨folder, _, hwrite, hstem.isName_markup hname, hfolder, hwrite ▸ hfree⟩

end

/-! ## Trees with the same templates -/

/-- Two trees with the same directories and the same files under the names of templates. -/
structure SameTemplates (tree other : FileTree) : Prop where
  folders : ∀ place, other.look place = some .directory ↔ tree.look place = some .directory
  files : ∀ folder name, IsTemplate name →
    other.look (folder ++ [name]) = tree.look (folder ++ [name])

theorem SameTemplates.refl (tree : FileTree) : SameTemplates tree tree :=
  ⟨fun _ => Iff.rfl, fun _ _ _ => rfl⟩

namespace SameTemplates

variable {tree other : FileTree} (h : SameTemplates tree other) {base folder place : List String}
  {name source markup path : String}

include h

/-- Trees with the same directories and the same files under the names of templates have the same
templates. -/
theorem templateAt_iff :
    TemplateAt other base folder name source ↔ TemplateAt tree base folder name source :=
  ⟨fun ⟨hbase, hname, htext⟩ => ⟨hbase, hname, by rwa [h.files folder name hname] at htext⟩,
    fun ⟨hbase, hname, htext⟩ => ⟨hbase, hname, by rwa [h.files folder name hname]⟩⟩

theorem renders_iff :
    Renders other base folder name place markup ↔ Renders tree base folder name place markup := by
  simp only [Renders, h.templateAt_iff]

theorem rendered_iff : Rendered other base place markup ↔ Rendered tree base place markup := by
  simp only [Rendered, h.renders_iff]

theorem compiles_iff : Compiles other base ↔ Compiles tree base := by
  simp only [Compiles, h.templateAt_iff]

theorem collides_iff : Collides other base ↔ Collides tree base := by
  simp only [Collides, h.renders_iff]

theorem misnamed_iff : Misnamed other path ↔ Misnamed tree path := by
  simp only [Misnamed, h.folders]

/-- A well-formed tree with the same templates as one that can be processed can be processed,
too. -/
theorem processable (htree : Processable tree path) (hother : other.WellFormed) :
    Processable other path where
  wellFormed := hother
  texts folder name content hbase hname hlook :=
    htree.texts folder name content hbase hname (by rwa [h.files folder name hname] at hlook)
  writable place markup hrendered := by
    rw [Ne, h.folders]
    exact htree.writable place markup (h.rendered_iff.mp hrendered)

end SameTemplates

/-! ## What a walk meets of them -/

/-- The paths of the directories that a walk meets. -/
def folderPaths (path : String) (tree : FileTree) : List String :=
  ((tree.walk path).filter (·.entry.isDirectory)).map (·.path)

section

variable {tree : FileTree} {path : String} (htree : tree.WellFormed)

include htree

theorem destination_visitAt {folder : List String} {name last : String} {entry : FileTree}
    (hat : tree.at? (destination path ++ folder ++ [name]) = some entry) (hlast : IsName last) :
    destination (join (joinAll path folder) last) = destination path ++ folder ++ [last] := by
  have hnames := (htree.at? hat).1
  rw [destination_join _ hlast, destination_joinAll]
  exact fun name hname => hnames name (by simp [hname])

/-- The markup of a template that is met goes to a file beside it. -/
theorem destination_target {folder : List String} {name : String} {entry : FileTree}
    (hat : tree.at? (destination path ++ folder ++ [name]) = some entry) (hname : IsTemplate name) :
    destination (visitAt path folder name entry).target =
      destination path ++ folder ++ [markupName name] := by
  obtain ⟨stem, hstem, hmarkup⟩ := hname.exists_stem
  apply destination_visitAt htree hat
  rw [visitAt, hmarkup]
  exact hstem.isName_markup ((htree.at? hat).1 name (by simp))

variable {entries : List (String × FileTree)} (hfind : tree.find? path = some (.directory entries))

include hfind

/-- A walk through a directory meets this directory, and what is at the places in it. -/
theorem mem_walk_directory_iff {v : Visit} :
    v ∈ (FileTree.directory entries).walk path ↔
      v = firstVisit path (.directory entries) ∨
        ∃ folder name entry, tree.at? (destination path ++ folder ++ [name]) = some entry ∧
          v = visitAt path folder name entry := by
  have hat := at?_of_find? hfind
  have hmore (more : List String) :
      tree.at? (destination path ++ more) = (FileTree.directory entries).at? more := by
    rw [at?_append, hat]
    rfl
  rw [mem_walk_iff (htree.at? hat).2]
  simp only [List.append_assoc, hmore]

/-- What a walk reads as a template is one of the directory, at the place that its path leads to. -/
theorem templateAt_of_visit {v : Visit} (hv : v ∈ (FileTree.directory entries).walk path)
    {source : String} (hsource : v.source? = some source) :
    ∃ folder, TemplateAt tree (destination path) folder v.name source ∧
      destination v.target = folder ++ [markupName v.name] := by
  obtain ⟨hname, hentry⟩ := Visit.source?_eq_some_iff.mp hsource
  have htemplate := isTemplateName_iff.mp hname
  rcases (mem_walk_directory_iff htree hfind).mp hv with rfl | ⟨folder, name, entry, hat, rfl⟩
  · contradiction
  · have htarget := destination_target htree hat htemplate
    rw [show entry = _ from hentry] at hat
    exact ⟨_, ⟨List.prefix_append _ _, htemplate, look_eq_file_iff.mpr hat⟩, htarget⟩

/-- Every template of the directory is met on a walk through it, under its name and with its
text. -/
theorem TemplateAt.exists_visit {folder : List String} {name source : String}
    (h : TemplateAt tree (destination path) folder name source) :
    ∃ v ∈ (FileTree.directory entries).walk path, v.name = name ∧ v.source? = some source ∧
      destination v.target = folder ++ [markupName name] := by
  obtain ⟨⟨folder, rfl⟩, hname, htext⟩ := h
  have hat := look_eq_file_iff.mp htext
  have htarget := destination_target htree hat hname
  refine ⟨visitAt path folder name (.file source.toUTF8), ?_, rfl, ?_, htarget⟩
  · exact (mem_walk_directory_iff htree hfind).mpr (.inr ⟨folder, name, _, hat, rfl⟩)
  · exact Visit.source?_eq_some_iff.mpr ⟨isTemplateName_iff.mpr hname, rfl⟩

/-- What is true of the text of some template is true of a text that is met. -/
theorem exists_source_iff {P : String → Prop} :
    (∃ v ∈ (FileTree.directory entries).walk path, ∃ source, v.source? = some source ∧ P source) ↔
      ∃ folder name source, TemplateAt tree (destination path) folder name source ∧ P source := by
  constructor
  · rintro ⟨v, hv, source, hsource, hP⟩
    obtain ⟨folder, htemplate, -⟩ := templateAt_of_visit htree hfind hv hsource
    exact ⟨folder, v.name, source, htemplate, hP⟩
  · rintro ⟨folder, name, source, htemplate, hP⟩
    obtain ⟨v, hv, -, hsource, -⟩ := htemplate.exists_visit htree hfind
    exact ⟨v, hv, source, hsource, hP⟩

/-- The markup of templates is what the visits of a walk write. -/
theorem rendered_iff {place : List String} {markup : String} :
    Rendered tree (destination path) place markup ↔
      ∃ v ∈ (FileTree.directory entries).walk path, ∃ write : FileWrite, v.write? = some write ∧
        write.place = place ∧ write.content = markup := by
  simp only [Rendered, renders_iff, Visit.write?_eq_some_iff]
  constructor
  · rintro ⟨folder, name, source, htemplate, hprocess, rfl⟩
    obtain ⟨v, hv, rfl, hsource, hplace⟩ := htemplate.exists_visit htree hfind
    exact ⟨v, hv, ⟨v.target, markup⟩, ⟨source, hsource, hprocess, rfl⟩, hplace, rfl⟩
  · rintro ⟨v, hv, write, ⟨source, hsource, hprocess, hpath⟩, rfl, rfl⟩
    obtain ⟨folder, htemplate, hplace⟩ := templateAt_of_visit htree hfind hv hsource
    exact ⟨folder, v.name, source, htemplate, hprocess, by rw [FileWrite.place, hpath, hplace]⟩

theorem look_of_mem_folderPaths {folder : String}
    (h : folder ∈ folderPaths path (.directory entries)) :
    tree.look (destination folder) = some .directory := by
  obtain ⟨v, hv, rfl⟩ := List.mem_map.mp h
  obtain ⟨hv, hdirectory⟩ := List.mem_filter.mp hv
  rw [look_eq_directory_iff]
  rcases (mem_walk_directory_iff htree hfind).mp hv with rfl | ⟨folder, name, entry, hat, rfl⟩
  · exact ⟨entries, at?_of_find? hfind⟩
  · have hname := (htree.at? hat).1 name (by simp)
    cases entry with
    | file => contradiction
    | directory inner => exact ⟨inner, by rw [visitAt, destination_visitAt htree hat hname, hat]⟩

/-- A template that cannot be read is a directory. -/
theorem misnamed_of_visit (hprocessable : Processable tree path) {v : Visit}
    (hv : v ∈ (FileTree.directory entries).walk path) (hname : isTemplateName v.name)
    (hsource : v.source? = none) : Misnamed tree path := by
  have htemplate := isTemplateName_iff.mp hname
  rcases (mem_walk_directory_iff htree hfind).mp hv with rfl | ⟨folder, name, entry, hat, rfl⟩
  · cases hlast : fileName? path with
    | none =>
        rw [firstVisit, hlast] at hname
        contradiction
    | some name =>
        rw [firstVisit, hlast] at htemplate
        exact .inl ⟨name, hlast, htemplate⟩
  · cases entry with
    | directory inner =>
        exact .inr ⟨_, name, List.prefix_append _ _, htemplate,
          look_eq_directory_iff.mpr ⟨inner, hat⟩⟩
    | file content =>
        obtain ⟨source, rfl⟩ := hprocessable.texts _ name content (List.prefix_append _ _) htemplate
          (look_eq_file_iff.mpr hat)
        rw [Visit.source?_eq_some_iff.mpr ⟨hname, rfl⟩] at hsource
        contradiction

/-- A directory with the name of a template is met on the walk, and it has no text to read. -/
theorem Misnamed.exists_visit (h : Misnamed tree path) :
    ∃ v ∈ (FileTree.directory entries).walk path, isTemplateName v.name ∧ v.source? = none := by
  rcases h with ⟨name, hlast, htemplate⟩ | ⟨_, name, ⟨folder, rfl⟩, htemplate, hlook⟩
  · refine ⟨firstVisit path (.directory entries), ?_, ?_, rfl⟩
    · exact (mem_walk_directory_iff htree hfind).mpr (.inl rfl)
    · rw [firstVisit, Option.mem_def.mp hlast]
      exact isTemplateName_iff.mpr htemplate
  · obtain ⟨inner, hat⟩ := look_eq_directory_iff.mp hlook
    refine ⟨visitAt path folder name (.directory inner), ?_, isTemplateName_iff.mpr htemplate, rfl⟩
    exact (mem_walk_directory_iff htree hfind).mpr (.inr ⟨folder, name, _, hat, rfl⟩)

/-- A walk comes to its end unless a directory has the name of a template. -/
theorem obstructs_iff (hprocessable : Processable tree path) :
    (∃ v ∈ (FileTree.directory entries).walk path,
      v.Obstructs (folderPaths path (.directory entries))) ↔ Misnamed tree path := by
  constructor
  · rintro ⟨v, hv, hname, hsource | ⟨hwrite, hfolder⟩⟩
    · exact misnamed_of_visit htree hfind hprocessable hv hname hsource
    · obtain ⟨write, hwrite⟩ := Option.ne_none_iff_exists'.mp hwrite
      have hrendered := (rendered_iff htree hfind).mpr ⟨v, hv, write, hwrite, rfl, rfl⟩
      obtain ⟨-, -, -, hpath⟩ := Visit.write?_eq_some_iff.mp hwrite
      rw [FileWrite.place, hpath] at hrendered
      have hlook := look_of_mem_folderPaths htree hfind hfolder
      exact absurd hlook (hprocessable.writable _ _ hrendered)
  · intro h
    obtain ⟨v, hv, hname, hsource⟩ := h.exists_visit htree hfind
    exact ⟨v, hv, hname, .inl hsource⟩

end

/-! ## A directory in a directory -/

/-- A directory `d` with a directory in it, and files with texts in that one. -/
def nest (inner : String) (files : List (String × String)) : FileTree :=
  .directory [("d", .directory [(inner,
    .directory (files.map fun f => (f.1, .file f.2.toUTF8)))])]

section

variable {inner : String} {files : List (String × String)} {place : List String}

theorem find?_nest : ∃ entries, (nest inner files).find? "d" = some (.directory entries) :=
  ⟨_, rfl⟩

/-- A tree of two directories with files in the inner one has nothing else in it. All witnesses are
such trees. -/
theorem look_nest {seen : Sight} (h : (nest inner files).look place = some seen) :
    (seen = .directory ∧ place <+: ["d", inner]) ∨
      ∃ f ∈ files, place = ["d", inner] ++ [f.1] ∧ seen = .file f.2.toUTF8 := by
  rcases mem_of_look h with ⟨rfl, rfl⟩ | ⟨_, _, _, hmem, rfl, h⟩
  · simp
  cases List.mem_singleton.mp hmem
  rcases mem_of_look h with ⟨rfl, rfl⟩ | ⟨_, _, _, hmem, rfl, h⟩
  · simp
  cases List.mem_singleton.mp hmem
  rcases mem_of_look h with ⟨rfl, rfl⟩ | ⟨_, _, _, hmem, rfl, h⟩
  · simp
  obtain ⟨f, hf, heq⟩ := List.mem_map.mp hmem
  cases heq
  obtain ⟨rfl, rfl⟩ := look_file h
  exact .inr ⟨f, hf, rfl, rfl⟩

/-- What is seen in the inner directory. -/
theorem look_inner (rest : List String) : (nest inner files).look (["d", inner] ++ rest) =
    (FileTree.directory (files.map fun f => (f.1, .file f.2.toUTF8))).look rest := by
  simp [nest, look_cons, entries]

theorem templateAt_nest_iff (hnodup : (files.map Prod.fst).Nodup) {folder : List String}
    {name source : String} :
    TemplateAt (nest inner files) (destination "d") folder name source ↔
      folder = ["d", inner] ∧ IsTemplate name ∧ (name, source) ∈ files := by
  constructor
  · rintro ⟨-, htemplate, htext⟩
    rcases look_nest htext with ⟨hseen, -⟩ | ⟨f, hf, hplace, hseen⟩
    · contradiction
    · obtain ⟨rfl, hname⟩ := List.append_inj' hplace rfl
      cases hname
      rw [Sight.file.injEq] at hseen
      have hsource : source = f.2 := String.toByteArray_inj.mp hseen
      exact ⟨rfl, htemplate, hsource ▸ hf⟩
  · rintro ⟨rfl, htemplate, hmem⟩
    refine ⟨⟨[inner], rfl⟩, htemplate, ?_⟩
    have hlookup : (files.map fun f => (f.1, file f.2.toUTF8)).lookup name =
        some (.file source.toUTF8) := by
      apply lookup_of_mem
      · rwa [List.map_map]
      · exact List.mem_map.mpr ⟨(name, source), hmem, rfl⟩
    rw [look_inner, look_cons]
    exact congrArg (Option.bind · _) hlookup

theorem compiles_nest_iff (hnodup : (files.map Prod.fst).Nodup) :
    Compiles (nest inner files) (destination "d") ↔ (∃ f ∈ files, IsTemplate f.1) ∧
      ∀ f ∈ files, IsTemplate f.1 → ∃ compiled, compileTemplate f.2 = .ok compiled := by
  simp only [Compiles, templateAt_nest_iff hnodup]
  constructor
  · rintro ⟨⟨_, name, source, rfl, htemplate, hmem⟩, hall⟩
    exact ⟨⟨_, hmem, htemplate⟩, fun f hf htemplate => hall _ f.1 f.2 ⟨rfl, htemplate, hf⟩⟩
  · rintro ⟨⟨f, hf, htemplate⟩, hall⟩
    refine ⟨⟨_, f.1, f.2, rfl, htemplate, hf⟩, ?_⟩
    rintro _ name source ⟨rfl, htemplate, hmem⟩
    exact hall _ hmem htemplate

theorem renders_nest_iff (hnodup : (files.map Prod.fst).Nodup) {folder : List String}
    {name markup : String} :
    Renders (nest inner files) (destination "d") folder name place markup ↔
      folder = ["d", inner] ∧ IsTemplate name ∧ place = ["d", inner, markupName name] ∧
        ∃ source, (name, source) ∈ files ∧ process source = .ok markup := by
  rw [renders_iff]
  constructor
  · rintro ⟨source, htemplate, hprocess, rfl⟩
    obtain ⟨rfl, hname, hmem⟩ := (templateAt_nest_iff hnodup).mp htemplate
    exact ⟨rfl, hname, rfl, source, hmem, hprocess⟩
  · rintro ⟨rfl, hname, rfl, source, hmem, hprocess⟩
    exact ⟨source, (templateAt_nest_iff hnodup).mpr ⟨rfl, hname, hmem⟩, hprocess, rfl⟩

theorem processable_nest (hinner : IsName inner) (hnodup : (files.map Prod.fst).Nodup)
    (hname : ∀ f ∈ files, IsName f.1) : Processable (nest inner files) "d" where
  wellFormed := by
    refine wellFormed_singleton (by decide) (wellFormed_singleton hinner (.directory ?_ ?_ ?_))
    · rwa [List.map_map]
    · exact List.forall_mem_map.mpr hname
    · exact List.forall_mem_map.mpr fun f _ => .file f.2.toUTF8
  texts folder name content _ _ hlook := by
    rcases look_nest hlook with ⟨hseen, -⟩ | ⟨f, -, -, hseen⟩
    · contradiction
    · exact ⟨f.2, Sight.file.inj hseen⟩
  writable place markup hrendered hlook := by
    obtain ⟨folder, name, source, stem, htemplate, -, -, rfl⟩ := hrendered
    obtain ⟨rfl, -⟩ := (templateAt_nest_iff hnodup).mp htemplate
    rcases look_nest hlook with ⟨-, hplace⟩ | ⟨f, -, -, hseen⟩
    · have hlength := hplace.length_le
      simp at hlength
    · contradiction

/-- The inner directory alone may have the name of a template. -/
theorem misnamed_nest_iff : Misnamed (nest inner files) "d" ↔ IsTemplate inner := by
  have hlast : fileName? "d" = some "d" := by decide
  have hbase : destination "d" = ["d"] := by decide
  rw [Misnamed, hlast, hbase]
  constructor
  · rintro (⟨name, hname, htemplate⟩ | ⟨_, name, ⟨folder, rfl⟩, htemplate, hlook⟩)
    · cases hname
      exact absurd htemplate (by decide)
    · rcases look_nest hlook with ⟨-, hprefix⟩ | ⟨f, -, -, hseen⟩
      · cases folder with
        | nil =>
            obtain rfl : name = inner := by simpa using hprefix
            exact htemplate
        | cons => simpa using hprefix.length_le
      · contradiction
  · intro h
    exact .inr ⟨["d"], inner, List.prefix_rfl, h, look_inner []⟩

end

end ReactiveTemplate
