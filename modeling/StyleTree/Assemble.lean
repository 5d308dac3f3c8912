/-
From a sheet to CSS text. Every entry of the sheet is compiled on its own; the
results that are not empty are joined. Unless readable output is wanted, the
joined text is then minified and freed of duplicates. Minifying is a step that
may refuse a text; the step used by default only removes white space and never
refuses.
-/
import StyleTree.Compile
import StyleTree.Css.Collapse
import StyleTree.Css.Dedupe

namespace StyleTree

-- ======================================================== minifying

/-- Why a minifier gives no text. -/
inductive MinifyError where
  /-- The text could not be read. -/
  | rejected (message : Text)
  /-- The text was read but could not be written. -/
  | unprintable (message : Text)
  deriving DecidableEq, Repr

/-- The wording of a minifier's refusal. -/
def MinifyError.message : MinifyError → Text
  | rejected message => "minifier rejected stylesheet: ".toList ++ message
  | unprintable message =>
    "minifier could not print stylesheet: ".toList ++ message

/-- A step that makes CSS text smaller. -/
abbrev Minifier := Text → Except MinifyError Text

/-- The minifier that removes dispensable white space. -/
def Minifier.whitespace : Minifier := fun css => .ok (Css.collapse css)

-- ======================================================= assembling

/-- How a sheet is assembled. -/
structure AssembleOptions where
  /-- Whether the output stays readable, with neither minifying nor removal of
  duplicates. -/
  prettify : Bool
  strictness : Strictness
  minifier : Minifier

/-- Small output, lenient, with the minifier that never refuses. -/
def AssembleOptions.default : AssembleOptions := ⟨false, .lenient, .whitespace⟩

/-- Why a sheet gives no CSS. -/
inductive AssembleError where
  | compile (error : CompileError)
  | minify (error : MinifyError)
  deriving DecidableEq, Repr

/-- The wording of an error. -/
def AssembleError.message : AssembleError → Text
  | compile error => error.message
  | minify error => error.message

/-- The style object of a class with some properties. A class name among the
properties takes precedence, at the first place. -/
def Style.ofClass (name : Text) (properties : Style) : Style :=
  Entries.extend [(classNameKey, .text name)] properties

namespace Sheet

/-- Compiles one entry. A selector that is a dot and a name is a class name, so
that the properties may name other classes instead; any other selector is used
as it stands. -/
def compileEntry (strictness : Strictness) (selector : Text) (style : Style) :
    Except CompileError Compilation :=
  match selector with
  | '.' :: name => Style.compileClass strictness (Style.ofClass name style)
  | _ => Style.compileSelector strictness style selector

/-- The CSS of the entries, in order; the first refused one ends it. -/
def compileAll (strictness : Strictness) :
    Sheet → Except CompileError (List Text)
  | [] => .ok []
  | (selector, style) :: rest => do
    let compilation ← compileEntry strictness selector style
    let following ← compileAll strictness rest
    return compilation.css :: following

/-- The readable CSS of a sheet: what its entries compile to, without the empty
ones, joined by blank lines. -/
def compile (strictness : Strictness) (sheet : Sheet) :
    Except CompileError Text := do
  let blocks ← compileAll strictness sheet
  return blankLine.intercalate (blocks.filter (!·.isEmpty))

/-- The CSS of a sheet as the options want it. -/
def assemble (options : AssembleOptions) (sheet : Sheet) :
    Except AssembleError Text := do
  let css ← (compile options.strictness sheet).mapError .compile
  if options.prettify then return css
  let minified ← (options.minifier css).mapError .minify
  return Css.dedupe minified

end Sheet

end StyleTree
