/-
Compiling one style object. Its selector is given, or it is named by the
object's own classes. A compiler is lenient or strict: leniently, an object
without a usable selector gives no CSS, and entries that were left out are only
listed beside the CSS; strictly, either is an error.
-/
import StyleTree.Report

namespace StyleTree

/-- Whether faults of the input are errors. -/
inductive Strictness where
  | lenient
  | strict
  deriving DecidableEq, Repr

/-- The CSS of a style object, and the entries that it does not show. -/
structure Compilation where
  css : Text
  skipped : List SkippedEntry
  deriving DecidableEq, Repr

/-- Why a style object is refused. -/
inductive CompileError where
  /-- There is no class name that could be a selector. -/
  | missingClassName
  /-- The given selector is blank. -/
  | emptySelector
  /-- Entries were left out. -/
  | skippedEntries (entries : List SkippedEntry)
  deriving DecidableEq, Repr

/-- The wording of an error. -/
def CompileError.message : CompileError → Text
  | missingClassName => "style object has no usable className".toList
  | emptySelector => "selector is empty".toList
  | skippedEntries entries =>
    Nat.toDigits 10 entries.length ++ " malformed style entries skipped".toList

namespace Compilation

/-- No CSS and nothing left out. -/
def empty : Compilation := ⟨[], []⟩

/-- The compilation that a report amounts to. -/
def ofReport (report : Report) : Compilation :=
  ⟨Rule.sheetText report.rules, report.skipped⟩

end Compilation

/-- What becomes of a style object that has no usable selector. -/
def CompileError.refuse (error : CompileError) :
    Strictness → Except CompileError Compilation
  | .lenient => .ok .empty
  | .strict => .error error

namespace Style

/-- Compiles a style object under a selector that is used as it is. -/
def compile (strictness : Strictness) (style : Style) (selector : Text) :
    Except CompileError Compilation :=
  let report := Style.report style selector
  if strictness = .strict && !report.skipped.isEmpty then
    .error (.skippedEntries report.skipped)
  else .ok (.ofReport report)

/-- The selector that the class name of a style object stands for. -/
def classSelector? (style : Style) : Option Text :=
  (Entries.get? style classNameKey).bind Selector.ofClassName?

/-- Compiles a style object under the selector of its own classes. -/
def compileClass (strictness : Strictness) (style : Style) :
    Except CompileError Compilation :=
  match classSelector? style with
  | some selector => compile strictness style selector
  | none => CompileError.missingClassName.refuse strictness

/-- Compiles a style object under a given selector, without the blanks around
it. -/
def compileSelector (strictness : Strictness) (style : Style)
    (selector : Text) : Except CompileError Compilation :=
  if selector.trim.isEmpty then CompileError.emptySelector.refuse strictness
  else compile strictness style selector.trim

/-- The CSS of a style object that names its own classes; none of it is missing
only because of a fault. -/
def classCss (style : Style) : Text :=
  match compileClass .lenient style with
  | .ok compilation => compilation.css
  | .error _ => []

/-- The CSS of a style object under a given selector. -/
def selectorCss (style : Style) (selector : Text) : Text :=
  match compileSelector .lenient style selector with
  | .ok compilation => compilation.css
  | .error _ => []

/-- The lenient compiler refuses nothing. -/
theorem compile_lenient (style : Style) (selector : Text) :
    compile .lenient style selector
      = .ok (.ofReport (Style.report style selector)) := by
  simp [compile]

end Style

end StyleTree
