/-
Looking a component up and reading its file. The lookup takes the first
component with the name, while the file keeps what was written to it last. So
the two agree where the names lead to files of their own
(`Project.component_files_hold_last`), and not where a name is repeated.
-/
import StyleTree.Proofs.Build.Written

namespace StyleTree

/-- The first of several values is the one that is found. -/
theorem Entries.get?_append_cons {α : Type} {earlier later : Entries α}
    {key : Text} {value : α} (h : key ∉ keys earlier) :
    get? (earlier ++ (key, value) :: later) key = some value := by
  induction earlier with
  | nil => rw [List.nil_append, get?_cons, if_pos rfl]
  | cons entry rest ih =>
    rw [keys_cons, List.mem_cons, not_or] at h
    rw [List.cons_append, get?_cons, if_neg (Ne.symm h.1), ih h.2]

namespace Bundle

/-- Where every name has a file of its own, the last component that has the
file of a name is the first one of that name. -/
theorem component?_eq_lastCss? {bundle : Bundle} {directory : Text}
    (happart : (bundle.components.map Prod.fst).Pairwise
      fun a b => ¬sharesFile directory a b)
    {name : Text} (hname : name ∈ bundle.components.map Prod.fst) :
    bundle.component? name = bundle.lastCss? directory name := by
  obtain ⟨earlier, last, css, later, hsplit, hcss, hshares, hlater⟩ :=
    exists_components_eq directory hname
  rw [hsplit, List.map_append, List.map_cons] at happart hname
  have hearlier : name ∉ earlier.map Prod.fst := fun hmem => by
    have hdiffers := (List.pairwise_append.1 happart).2.2 name hmem last
      (List.mem_cons_self ..)
    exact hdiffers (decide_eq_true (of_decide_eq_true hshares).symm)
  have heq : name = last := by
    rcases List.mem_append.1 hname with hmem | hmem
    · exact absurd hmem hearlier
    · rcases List.mem_cons.1 hmem with heq | hmem
      · exact heq
      · obtain ⟨component, hcomponent, rfl⟩ := List.mem_map.1 hmem
        exact absurd (decide_eq_true rfl) (hlater component hcomponent)
  subst heq
  rw [hcss, component?, hsplit]
  exact Entries.get?_append_cons hearlier

end Bundle

namespace Project

open StyleTree.Path

/-- A component name that leads to no other stylesheet of the output directory:
it does not lead up, and not to the root either if the directory starts
there. -/
def StaysClear (directory name : Text) : Prop :=
  "..".toList ∉ segments name
    ∧ (isAbsolute directory = false ∨ isAbsolute name = false)

/-- The file of a component holds the CSS of the last component that has the
file. Where every component has a file of its own, this is what is found when
the component is looked up. -/
theorem component_files_hold_last {options : AssembleOptions}
    {inputs : BundleInputs} {bundle : Bundle} {directory : Text}
    {theme : Option Text} {before after : Files}
    (hbuild : Bundle.build options inputs = .ok bundle)
    (hwrite : before.writeAll (outputs directory bundle theme) = (after, none))
    (hclear : ∀ name ∈ inputs.components.map Prod.fst,
      StaysClear directory name) :
    (∀ name ∈ inputs.components.map Prod.fst,
      ∃ css, bundle.lastCss? directory name = some css
        ∧ after.read (componentFile directory name) = some css)
    ∧ ((inputs.components.map Prod.fst).Pairwise
        (fun a b => ¬Bundle.sharesFile directory a b) →
      ∀ name ∈ inputs.components.map Prod.fst,
        after.read (componentFile directory name)
          = bundle.component? name) := by
  have hlocal : ∀ name ∈ inputs.components.map Prod.fst,
      isAbsolute directory = false ∨ isAbsolute name = false :=
    fun name hname => (hclear name hname).2
  refine ⟨fun name hname => read_component hbuild hwrite hlocal hname,
    fun happart name hname => ?_⟩
  obtain ⟨css, hcss, hfile⟩ := read_component hbuild hwrite hlocal hname
  rw [← Bundle.map_fst_components hbuild] at happart hname
  rw [hfile, ← hcss, Bundle.component?_eq_lastCss? happart hname]

/-- The inputs of a bundle with nothing but components. -/
def componentInputs (components : List (Text × Sheet)) : BundleInputs :=
  ⟨[], [], [], [], [], [], [], components⟩

/-- The readable bundle of such inputs. -/
def componentBundle (components : List (Text × Text)) : Bundle :=
  ⟨Domain.all.map (·, []), components, []⟩

/-- Two components with the name `tab`. -/
theorem component_files_hold_last_tab :
    let inputs := componentInputs [
      ("tab".toList, [("i".toList, [("top".toList, .number 0)])]),
      ("tab/icon".toList, [("b".toList, [("left".toList, .number 0)])])]
    let bundle := componentBundle [
      ("tab".toList, "i \x7b\n  top: 0;\n\x7d".toList),
      ("tab/icon".toList, "b \x7b\n  left: 0;\n\x7d".toList)]
    let after := (Files.writeAll [] (outputs "out".toList bundle none)).1
    Bundle.build ⟨true, .lenient, .whitespace⟩ inputs = .ok bundle
    ∧ Files.writeAll [] (outputs "out".toList bundle none) = (after, none)
    ∧ (∀ name ∈ inputs.components.map Prod.fst, StaysClear "out".toList name)
    ∧ ∀ name ∈ inputs.components.map Prod.fst,
      after.read (componentFile "out".toList name)
        = bundle.component? name := by
  intro inputs bundle after
  have hbuild : Bundle.build ⟨true, .lenient, .whitespace⟩ inputs
      = .ok bundle := by
    decide +kernel
  have hwrite : Files.writeAll [] (outputs "out".toList bundle none)
      = (after, none) := by
    decide +kernel
  have hclear : ∀ name ∈ inputs.components.map Prod.fst,
      StaysClear "out".toList name := by
    unfold StaysClear
    decide
  exact ⟨hbuild, hwrite, hclear,
    (component_files_hold_last hbuild hwrite hclear).2 (by decide +kernel)⟩

/-- Of two components with one name, the lookup finds the first, and the file
holds the second. -/
theorem repeated_component_differs_from_file :
    let sheet (color : String) : Sheet :=
      [("i".toList, [("color".toList, .text color.toList)])]
    let red := "i \x7b\n  color: red;\n\x7d".toList
    let blue := "i \x7b\n  color: blue;\n\x7d".toList
    let bundle := componentBundle [("card".toList, red), ("card".toList, blue)]
    let (after, fault) := Files.writeAll [] (outputs "out".toList bundle none)
    Bundle.build ⟨true, .lenient, .whitespace⟩ (componentInputs
        [("card".toList, sheet "red"), ("card".toList, sheet "blue")])
          = .ok bundle
    ∧ fault = none
    ∧ bundle.component? "card".toList = some red
    ∧ after.read (componentFile "out".toList "card".toList) = some blue := by
  decide +kernel

end Project

end StyleTree
