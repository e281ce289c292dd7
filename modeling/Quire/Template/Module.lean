import Quire.Digest.Blake3
import Quire.Digest.Hex
import Quire.Template.Piece

/-!
The script module that a template becomes: imports of the components it renders on the server, the
escape helper, and one function whose template literal spells the body. Islands are numbered in
the order of the body, and every island is reported with the number that its placeholder carries.
-/

namespace Quire.Template

/-- The extensions, without dots, of templates and of the modules made from them. -/
structure Extensions where
  template : Text
  module : Text
deriving DecidableEq

/-- A use of a component in the browser: its id, the name it was imported under, and the path as
declared. -/
structure Island where
  id : Text
  name : Text
  path : Text
deriving DecidableEq

/-- A module and the islands it leaves to the browser. -/
structure Module where
  code : Text
  islands : List Island
deriving DecidableEq

/-- The helper that escapes every shown value, at the head of each module. -/
def escapeHelper : Text :=
  "const __esc = (value) => String(value ?? \"\").replace(/[&<>\"']/g, ".toList ++
    "(c) => `&#$\x7bc.charCodeAt(0)\x7d;`);\n".toList

/-- What stands between the helper and the body. -/
def bodyOpen : Text :=
  "\nexport default function render(props = \x7b\x7d) \x7b\n  return `".toList

/-- What follows the body. -/
def bodyClose : Text := "`;\n\x7d\n".toList

/-- Where the module of an imported template is: the template's extension gives way to that of
modules, and any other path stays. -/
def Extensions.specifier (ext : Extensions) (path : Text) : Text :=
  match Text.cutEnd? ('.' :: ext.template) path with
  | some stem => stem ++ '.' :: ext.module
  | none => path

/-- The line that imports a component for the server. -/
def Import.line (ext : Extensions) (i : Import) : Text :=
  "import ".toList ++ i.name ++ " from ".toList ++ Text.quoted (ext.specifier i.path) ++
    ";\n".toList

/-- Whether the pieces render the named component on the server. -/
def isServerUse (name : Text) : Piece → Bool
  | .component n _ false => n = name
  | _ => false

/-- The imports that the server needs, in the order of the header. -/
def serverImports (imports : List Import) (pieces : List Piece) : List Import :=
  imports.filter fun i => pieces.any (isServerUse i.name)

/-- Literal text as a template literal spells it. -/
def literal : Text → Text
  | [] => []
  | '\\' :: rest => '\\' :: '\\' :: literal rest
  | '\x60' :: rest => '\\' :: '\x60' :: literal rest
  | '$' :: '{' :: rest => '\\' :: '$' :: '{' :: literal rest
  | c :: rest => c :: literal rest

/-- The value of an attribute as an expression. -/
def AttributeValue.code : AttributeValue → Text
  | .text t => Text.quoted t
  | .expr e => '(' :: (e ++ [')'])
  | .flag => "true".toList

/-- One field of the properties that a component is given. -/
def Attribute.code (a : Attribute) : Text := Text.quoted a.name ++ ": ".toList ++ a.value.code

/-- The properties that a component is given. -/
def properties (attributes : List Attribute) : Text :=
  if attributes = [] then ['{', '}']
  else ['{', ' '] ++ ", ".toList.intercalate (attributes.map Attribute.code) ++ [' ', '}']

/-- A substitution in a template literal. -/
def substitution (code : Text) : Text := ['$', '{'] ++ code ++ ['}']

/-- The placeholder of an island. -/
def placeholder (id name : Text) (attributes : List Attribute) : Text :=
  "<div data-island=\"".toList ++ id ++ "\" data-component=\"".toList ++ name ++
    "\" data-props=\"".toList ++
    substitution ("__esc(JSON.stringify(".toList ++ properties attributes ++ "))".toList) ++
    "\"></div>".toList

/-- A piece that is no island, as the template literal spells it. -/
def Piece.code : Piece → Text
  | .text t => literal t
  | .expr e => substitution ("__esc(".toList ++ e ++ [')'])
  | .raw e => substitution ('(' :: (e ++ ") ?? \"\"".toList))
  | .component name attributes _ => substitution (name ++ '(' :: (properties attributes ++ [')']))

/-- The id of the `n`th island. -/
def islandId (stem : Text) (n : Nat) : Text := stem ++ '-' :: Text.ofNat n

/-- The body as the template literal spells it, its first island having the given number. -/
def bodyCode (stem : Text) : Nat → List Piece → Text
  | _, [] => []
  | n, .component name attributes true :: rest =>
    placeholder (islandId stem n) name attributes ++ bodyCode stem (n + 1) rest
  | n, piece :: rest => piece.code ++ bodyCode stem n rest

/-- The path under which a component was imported. -/
def declaredPath (imports : List Import) (name : Text) : Text :=
  ((imports.find? (·.name = name)).map (·.path)).getD []

/-- The islands of a body, the first having the given number. -/
def bodyIslands (stem : Text) (imports : List Import) : Nat → List Piece → List Island
  | _, [] => []
  | n, .component name _ true :: rest =>
    ⟨islandId stem n, name, declaredPath imports name⟩ :: bodyIslands stem imports (n + 1) rest
  | n, _ :: rest => bodyIslands stem imports n rest

/-- What the ids of all islands of a module begin with: the first eight bytes of the hash of the
module's own id. -/
def idStem (moduleId : Text) : Text :=
  Digest.hexText ((Digest.Blake3.hash moduleId.toBytes.toList).take 8)

/-- The import lines, with an empty line after them if there are any. -/
def importBlock (ext : Extensions) (imports : List Import) : Text :=
  match imports.flatMap (Import.line ext) with
  | [] => []
  | block => block ++ ['\n']

/-- The module of a template that has been read. -/
def generate (ext : Extensions) (moduleId : Text) (imports : List Import) (pieces : List Piece) :
    Module where
  code := importBlock ext (serverImports imports pieces) ++ escapeHelper ++ bodyOpen ++
    bodyCode (idStem moduleId) 0 pieces ++ bodyClose
  islands := bodyIslands (idStem moduleId) imports 0 pieces

/-- A template that has been read: its imports and the pieces of its body. -/
structure Source where
  imports : List Import
  pieces : List Piece
deriving DecidableEq

/-- Reads a template. -/
def read (source : Text) : Except Fault Source := do
  let parts ← splitHeader source
  let pieces ← pieces parts.imports parts.bodyLine parts.body
  return ⟨parts.imports, pieces⟩

/-- Turns the text of a template into its module. -/
def compile (ext : Extensions) (moduleId source : Text) : Except Fault Module :=
  (read source).map fun s => generate ext moduleId s.imports s.pieces

/-- The line that keeps a template from the server. -/
def clientDirective : Text := "\"use client\"".toList

/-- Whether the first line that is not blank is the directive alone. -/
def hasClientDirective (source : Text) : Bool :=
  match (source.lines.map Text.trim).find? (· ≠ []) with
  | some line => line = clientDirective
  | none => false

end Quire.Template
