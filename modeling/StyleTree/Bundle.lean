/-
The style bundle of a design system. Its global styles fall into seven domains,
each with a sheet of its own and one of them made from the design tokens;
beside them stand the sheets of components, by name. Every sheet is assembled
on its own. The domains, in their fixed order, also make one joint text, which
is freed of duplicates once more, because a domain may override an earlier one.
Components are not part of it.
-/
import StyleTree.Assemble
import StyleTree.Theme

namespace StyleTree

/-- The domains of global styles. -/
inductive Domain where
  | tokens
  | base
  | typography
  | layout
  | elements
  | animation
  | accessibility
  deriving DecidableEq, Repr

namespace Domain

/-- The order of the domains in the joint text, which is also the order in
which they are built. -/
def all : List Domain :=
  [tokens, base, typography, layout, elements, animation, accessibility]

/-- The name of a domain. -/
def name : Domain → Text
  | tokens => "tokens".toList
  | base => "base".toList
  | typography => "typography".toList
  | layout => "layout".toList
  | elements => "elements".toList
  | animation => "animation".toList
  | accessibility => "accessibility".toList

end Domain

/-- Everything that a bundle is built from. -/
structure BundleInputs where
  tokens : List TokenGroup
  base : Sheet
  typography : Sheet
  layout : Sheet
  elements : Sheet
  animation : Sheet
  accessibility : Sheet
  /-- The sheets of components by name; a name may come more than once. -/
  components : List (Text × Sheet)

/-- The sheet of a domain. -/
def BundleInputs.sheet (inputs : BundleInputs) : Domain → Sheet
  | .tokens => TokenGroup.sheet inputs.tokens
  | .base => inputs.base
  | .typography => inputs.typography
  | .layout => inputs.layout
  | .elements => inputs.elements
  | .animation => inputs.animation
  | .accessibility => inputs.accessibility

/-- The CSS of every domain and component, and the joint text. -/
structure Bundle where
  domains : List (Domain × Text)
  components : List (Text × Text)
  full : Text
  deriving DecidableEq, Repr

/-- Which sheet could not be assembled, and why. -/
structure BundleError where
  domain : Text
  cause : AssembleError
  deriving DecidableEq, Repr

/-- The wording of an error. -/
def BundleError.message (error : BundleError) : Text :=
  "failed to build `".toList ++ error.domain ++ "` styles: ".toList
    ++ error.cause.message

namespace Bundle

/-- The CSS of a domain; empty if the domain produced nothing. -/
def domainCss (bundle : Bundle) (domain : Domain) : Text :=
  ((bundle.domains.find? (·.1 = domain)).map Prod.snd).getD []

/-- The CSS of the first component with a name. -/
def component? (bundle : Bundle) (name : Text) : Option Text :=
  Entries.get? bundle.components name

/-- The directory of component styles, which also leads their names in error
messages. -/
def componentsName : Text := "components".toList

/-- The joint text of the domains. -/
def join (prettify : Bool) (parts : List Text) : Text :=
  if prettify then blankLine.intercalate (parts.filter (!·.isEmpty))
  else Css.dedupe parts.flatten

/-- Assembles one sheet on behalf of a part of the bundle. -/
def buildPart (options : AssembleOptions) (name : Text) (sheet : Sheet) :
    Except BundleError Text :=
  (sheet.assemble options).mapError fun cause => ⟨name, cause⟩

/-- Assembles the sheets of the domains, in order; the first refused one ends
it. -/
def buildDomains (options : AssembleOptions) (inputs : BundleInputs) :
    List Domain → Except BundleError (List (Domain × Text))
  | [] => .ok []
  | domain :: rest => do
    let css ← buildPart options domain.name (inputs.sheet domain)
    let following ← buildDomains options inputs rest
    return (domain, css) :: following

/-- Assembles the sheets of the components, in order; the first refused one
ends it. -/
def buildComponents (options : AssembleOptions) :
    List (Text × Sheet) → Except BundleError (List (Text × Text))
  | [] => .ok []
  | (name, sheet) :: rest => do
    let css ← buildPart options (componentsName ++ '/' :: name) sheet
    let following ← buildComponents options rest
    return (name, css) :: following

/-- Builds the bundle: the domains, then the components, then the joint
text. -/
def build (options : AssembleOptions) (inputs : BundleInputs) :
    Except BundleError Bundle := do
  let domains ← buildDomains options inputs Domain.all
  let components ← buildComponents options inputs.components
  return ⟨domains, components, join options.prettify (domains.map Prod.snd)⟩

end Bundle

end StyleTree
