/-
What strictness refuses. It is a check and nothing else: a bundle that is built
strictly is the one that is built leniently, and one that is refused has a
sheet with an entry that the lenient build passes over, wholly or in part.

# The layers

An entry of a sheet has a fault if it has no usable selector or if the walk
through its style leaves something out (`Sheet.fault?`). Each layer ends at the
first fault of the one below: a sheet at its first faulty entry
(`Sheet.compile_strict`), the bundle at its first refused sheet
(`Bundle.fault?_build`). The minifier comes after the entries of a sheet, so it
is to blame only where none of them is (`Sheet.refusal?`).
-/
import StyleTree.Bundle
import StyleTree.Proofs.Fault
import StyleTree.Proofs.Sheet.Emitted

namespace StyleTree

namespace Sheet

-- ============================================================ entries

/-- What strictness finds wrong with an entry: it has no usable selector, or
some of its style is left out. -/
def fault? (entry : Text × Style) : Option CompileError :=
  match target? entry.1 entry.2 with
  | none => some (unusable entry.1)
  | some (root, style) =>
    match (Style.report style root).skipped with
    | [] => none
    | skipped => some (.skippedEntries skipped)

/-- A strict compilation is refused exactly if something is left out, and else
it is the lenient one. -/
theorem compile_strict_eq (style : Style) (root : Text) :
    Style.compile .strict style root
      = match (Style.report style root).skipped with
        | [] => Style.compile .lenient style root
        | skipped => .error (.skippedEntries skipped) := by
  unfold Style.compile
  cases hskipped : (Style.report style root).skipped with
  | nil => simp [hskipped]
  | cons first others => simp [hskipped]

/-- Strictness refuses the entries with a fault and changes no other. -/
theorem compileEntry_strict (selector : Text) (style : Style) :
    compileEntry .strict selector style
      = match fault? (selector, style) with
        | some error => .error error
        | none => compileEntry .lenient selector style := by
  rw [compileEntry_eq, compileEntry_eq]
  unfold fault?
  dsimp only
  cases target? selector style with
  | none => rfl
  | some target =>
    obtain ⟨root, own⟩ := target
    dsimp only
    rw [compile_strict_eq]
    cases (Style.report own root).skipped <;> rfl

-- ============================================================= sheets

/-- The readable CSS of a sheet: what the walk emits for its entries. -/
def text (sheet : Sheet) : Text :=
  blankLine.intercalate
    ((sheet.map fun entry => Rule.sheetText (rulesOfEntry entry)).filter
      (!·.isEmpty))

/-- Of several entries the first that is refused decides. -/
theorem compileAll_strict (sheet : Sheet) :
    compileAll .strict sheet
      = match sheet.findSome? fault? with
        | some error => .error error
        | none => compileAll .lenient sheet := by
  induction sheet with
  | nil => rfl
  | cons entry rest ih =>
    obtain ⟨selector, style⟩ := entry
    rw [compileAll, compileAll, compileEntry_strict, ih, List.findSome?_cons]
    cases fault? (selector, style) with
    | some error => rfl
    | none =>
      dsimp only
      obtain ⟨skipped, hentry⟩ := compileEntry_lenient (selector, style)
      rw [hentry]
      cases List.findSome? fault? rest <;> rfl

/-- The strict text of a sheet is the lenient one, or there is none. -/
theorem compile_strict (sheet : Sheet) :
    compile .strict sheet
      = match sheet.findSome? fault? with
        | some error => .error error
        | none => .ok sheet.text := by
  unfold compile
  rw [compileAll_strict, compileAll_lenient]
  cases sheet.findSome? fault? <;> rfl

variable (prettify : Bool) (minifier : Minifier)

/-- Why the minifier does not take the CSS of a sheet. It is not asked for
readable output. -/
def refusal? (sheet : Sheet) : Option MinifyError :=
  if prettify then none else StyleTree.fault? (minifier sheet.text)

/-- A lenient sheet fails in the minifier only. -/
theorem fault?_assemble_lenient (sheet : Sheet) :
    StyleTree.fault? (assemble ⟨prettify, .lenient, minifier⟩ sheet)
      = (refusal? prettify minifier sheet).map .minify := by
  unfold assemble refusal?
  rw [compile_lenient]
  cases prettify with
  | true => rfl
  | false =>
    show StyleTree.fault?
      ((minifier sheet.text).mapError AssembleError.minify >>= _) = _
    rw [fault?_bind_of_none fun _ => rfl, fault?_mapError]
    rfl

/-- A strict sheet is compiled first, so a compile error comes before what the
minifier has to say. -/
theorem assemble_strict (sheet : Sheet) :
    assemble ⟨prettify, .strict, minifier⟩ sheet
      = match sheet.findSome? fault? with
        | some error => .error (.compile error)
        | none => assemble ⟨prettify, .lenient, minifier⟩ sheet := by
  unfold assemble
  dsimp only
  rw [compile_strict, compile_lenient]
  cases sheet.findSome? fault? <;> rfl

/-- What a strict build finds wrong with a sheet: the fault of its first bad
entry, or else the refusal of the minifier. -/
def strictError? (sheet : Sheet) : Option AssembleError :=
  ((sheet.findSome? fault?).map .compile).or
    ((refusal? prettify minifier sheet).map .minify)

/-- The fault of a strict sheet, read off the sheet. -/
theorem fault?_assemble_strict (sheet : Sheet) :
    StyleTree.fault? (assemble ⟨prettify, .strict, minifier⟩ sheet)
      = strictError? prettify minifier sheet := by
  unfold strictError?
  rw [assemble_strict, ← fault?_assemble_lenient]
  cases sheet.findSome? fault? <;> rfl

/-- The minifier refuses a sheet if it is asked and refuses its text. -/
theorem isSome_refusal?_iff {sheet : Sheet} :
    (refusal? prettify minifier sheet).isSome
      ↔ prettify = false ∧ ∃ error, minifier sheet.text = .error error := by
  unfold refusal?
  cases prettify with
  | true => simp
  | false => simp [Option.isSome_iff_exists, fault?_eq_some_iff]

/-- A strict sheet fails if one of its entries is refused, or else as a lenient
one does. -/
theorem isSome_strictError?_iff {sheet : Sheet} :
    (strictError? prettify minifier sheet).isSome
      ↔ (∃ entry ∈ sheet, (fault? entry).isSome)
        ∨ prettify = false ∧ ∃ error, minifier sheet.text = .error error := by
  unfold strictError?
  rw [Option.isSome_or, Bool.or_eq_true, Option.isSome_map, Option.isSome_map,
    List.findSome?_isSome_iff, isSome_refusal?_iff]

/-- What is assembled strictly is assembled leniently as well, to the same
text. -/
theorem assemble_lenient_of_strict {sheet : Sheet} {css : Text}
    (h : assemble ⟨prettify, .strict, minifier⟩ sheet = .ok css) :
    assemble ⟨prettify, .lenient, minifier⟩ sheet = .ok css := by
  rw [assemble_strict] at h
  cases hfault : sheet.findSome? fault? with
  | some error =>
    rw [hfault] at h
    cases h
  | none =>
    rw [hfault] at h
    exact h

end Sheet

-- ========================================================= the bundle

/-- The sheets of a bundle with their names, in the order in which they are
built. -/
def BundleInputs.parts (inputs : BundleInputs) : List (Text × Sheet) :=
  (Domain.all.map fun domain => (domain.name, inputs.sheet domain))
    ++ inputs.components.map fun (name, sheet) =>
      (Bundle.componentsName ++ '/' :: name, sheet)

namespace Bundle

/-- Domains are built one after the other, each under its name. -/
theorem buildDomains_eq (options : AssembleOptions) (inputs : BundleInputs)
    (domains : List Domain) :
    buildDomains options inputs domains
      = domains.mapM fun domain =>
        (buildPart options domain.name (inputs.sheet domain)).map
          fun css => (domain, css) := by
  induction domains with
  | nil => rfl
  | cons domain rest ih =>
    rw [buildDomains, List.mapM_cons, ih]
    cases buildPart options domain.name (inputs.sheet domain) <;> rfl

/-- So are components, under their names in the directory. -/
theorem buildComponents_eq (options : AssembleOptions)
    (components : List (Text × Sheet)) :
    buildComponents options components
      = components.mapM fun component =>
        (buildPart options (componentsName ++ '/' :: component.1)
          component.2).map fun css => (component.1, css) := by
  induction components with
  | nil => rfl
  | cons component rest ih =>
    obtain ⟨name, sheet⟩ := component
    rw [buildComponents, List.mapM_cons, ih]
    cases buildPart options (componentsName ++ '/' :: name) sheet <;> rfl

/-- The fault of a bundle is that of its first refused sheet. -/
theorem fault?_build (options : AssembleOptions) (inputs : BundleInputs) :
    fault? (build options inputs)
      = inputs.parts.findSome? fun part =>
        (fault? (part.2.assemble options)).map fun cause =>
          ⟨part.1, cause⟩ := by
  have hpart : ∀ name (sheet : Sheet), fault? (buildPart options name sheet)
      = (fault? (sheet.assemble options)).map fun cause => ⟨name, cause⟩ :=
    fun name sheet => fault?_mapError _ _
  have hparts : fault? (build options inputs)
      = (fault? (buildDomains options inputs Domain.all)).or
        (fault? (buildComponents options inputs.components)) :=
    fault?_bind fun _ => fault?_bind_of_none fun _ => rfl
  unfold BundleInputs.parts
  rw [hparts, buildDomains_eq, buildComponents_eq, fault?_mapM, fault?_mapM,
    List.findSome?_append, List.findSome?_map, List.findSome?_map]
  simp only [fault?_map, hpart]
  rfl

/-- A bundle is its parts and their joint text. -/
theorem build_eq_ok_iff {options : AssembleOptions} {inputs : BundleInputs}
    {bundle : Bundle} :
    build options inputs = .ok bundle
      ↔ buildDomains options inputs Domain.all = .ok bundle.domains
        ∧ buildComponents options inputs.components = .ok bundle.components
        ∧ bundle.full
          = join options.prettify (bundle.domains.map Prod.snd) := by
  constructor
  · intro h
    obtain ⟨domains, hdomains, h⟩ := bind_eq_ok_iff.1 h
    obtain ⟨components, hcomponents, h⟩ := bind_eq_ok_iff.1 h
    cases h
    exact ⟨hdomains, hcomponents, rfl⟩
  · rintro ⟨hdomains, hcomponents, hfull⟩
    exact bind_eq_ok_iff.2 ⟨_, hdomains,
      bind_eq_ok_iff.2 ⟨_, hcomponents, hfull ▸ rfl⟩⟩

/-- If every sheet is assembled to the same text, the bundle is the same. -/
theorem build_ok_of_ok {options options' : AssembleOptions}
    (hprettify : options.prettify = options'.prettify)
    (hassemble : ∀ (sheet : Sheet) css, sheet.assemble options = .ok css →
      sheet.assemble options' = .ok css)
    {inputs : BundleInputs} {bundle : Bundle}
    (h : build options inputs = .ok bundle) :
    build options' inputs = .ok bundle := by
  have hpart : ∀ name sheet css, buildPart options name sheet = .ok css →
      buildPart options' name sheet = .ok css := fun name sheet css hcss =>
    mapError_eq_ok_iff.2 (hassemble sheet css (mapError_eq_ok_iff.1 hcss))
  obtain ⟨hdomains, hcomponents, hfull⟩ := build_eq_ok_iff.1 h
  rw [buildDomains_eq] at hdomains
  rw [buildComponents_eq] at hcomponents
  refine build_eq_ok_iff.2 ⟨?_, ?_, hprettify ▸ hfull⟩
  · rw [buildDomains_eq]
    exact mapM_ok_of_ok (fun _ _ => map_ok_of_ok (hpart _ _)) hdomains
  · rw [buildComponents_eq]
    exact mapM_ok_of_ok (fun _ _ => map_ok_of_ok (hpart _ _)) hcomponents

/-- The strict build is a check. What it builds is what the lenient build
builds. It fails just if some sheet has an entry without a usable selector or
with style that is left out, or has, in an output that is not readable, CSS
that the minifier refuses; and it names the first such sheet. The lenient build
fails only through the minifier. -/
theorem strict_build_checks (prettify : Bool) (minifier : Minifier)
    (inputs : BundleInputs) :
    (∀ bundle, build ⟨prettify, .strict, minifier⟩ inputs = .ok bundle →
      build ⟨prettify, .lenient, minifier⟩ inputs = .ok bundle)
    ∧ ((∃ error, build ⟨prettify, .strict, minifier⟩ inputs = .error error)
      ↔ ∃ part ∈ inputs.parts,
        (∃ entry ∈ part.2, (Sheet.fault? entry).isSome)
        ∨ prettify = false ∧ ∃ error, minifier part.2.text = .error error)
    ∧ (∀ error, build ⟨prettify, .strict, minifier⟩ inputs = .error error
      ↔ (inputs.parts.findSome? fun part =>
        (part.2.strictError? prettify minifier).map fun cause =>
          ⟨part.1, cause⟩)
          = some error)
    ∧ ∀ error, build ⟨prettify, .lenient, minifier⟩ inputs = .error error
      ↔ (inputs.parts.findSome? fun part =>
        (part.2.refusal? prettify minifier).map fun cause =>
          ⟨part.1, .minify cause⟩) = some error := by
  -- the first fault of a build is the first one among its sheets
  have hstrict : ∀ error,
      build ⟨prettify, .strict, minifier⟩ inputs = .error error
      ↔ (inputs.parts.findSome? fun part =>
        (part.2.strictError? prettify minifier).map fun cause =>
          ⟨part.1, cause⟩)
          = some error := fun error => by
    rw [← fault?_eq_some_iff, fault?_build]
    simp only [Sheet.fault?_assemble_strict]
  refine ⟨fun bundle hbundle => ?_, ?_, hstrict, fun error => ?_⟩
  · refine build_ok_of_ok ?_ (fun sheet css => ?_) hbundle
    · rfl
    · exact Sheet.assemble_lenient_of_strict prettify minifier
  · simp only [hstrict]
    rw [← Option.isSome_iff_exists, List.findSome?_isSome_iff]
    simp only [Option.isSome_map, Sheet.isSome_strictError?_iff]
  · rw [← fault?_eq_some_iff, fault?_build]
    simp only [Sheet.fault?_assemble_lenient, Option.map_map]
    rfl

end Bundle

end StyleTree
