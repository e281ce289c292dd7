import Mathlib.Data.List.Forall2
import Quire.Proofs.Interchange.Strings
import Quire.Proofs.Text.Joining
import Quire.Template.Module

/-!
What the module of a template is to hold, told without the generator: how values, properties and
lines of imports are spelled, which parts the template literal of a body has, and what stands around
it. Strings are told by what a strict reader makes of them. Main statements: the properties and the
lines that the generator writes are of these forms.
-/

namespace Quire.Template

open Interchange (readString)

/-- What a template literal holds. -/
inductive Part
  | char (c : Char)
  | substitution (code : Text)
deriving DecidableEq

/-- A text that is a string and nothing else, of the given characters. -/
def IsString (t code : Text) : Prop := readString code = some (t, [])

/-- The value of an attribute as an expression: a text as a string, an expression between
parentheses, and `true` for an attribute without a value. -/
inductive IsValue : AttributeValue → Text → Prop
  | text {t code : Text} (hcode : IsString t code) : IsValue (.text t) code
  | expr {e : Text} : IsValue (.expr e) ("(".toList ++ e ++ ")".toList)
  | flag : IsValue .flag "true".toList

/-- A property: the name of the attribute as a string, a colon, and the value. -/
inductive IsProperty : Attribute → Text → Prop
  | mk {a : Attribute} {name value : Text} (hname : IsString a.name name)
      (hvalue : IsValue a.value value) : IsProperty a (name ++ ": ".toList ++ value)

/-- The properties of a component: one for each attribute, in their order. -/
inductive IsProperties : List Attribute → Text → Prop
  | none : IsProperties [] "\x7b\x7d".toList
  | some {a : Attribute} {attributes : List Attribute} {fields : List Text}
      (hfields : List.Forall₂ IsProperty (a :: attributes) fields) :
      IsProperties (a :: attributes) ("\x7b ".toList ++ ", ".toList.intercalate fields ++ " \x7d".toList)

/-- The module that an import leads to: of a template, the file with the extension of modules in its
place, and else the path itself. -/
inductive IsSpecifier (ext : Extensions) : Text → Text → Prop
  | template {stem : Text} :
      IsSpecifier ext (stem ++ ".".toList ++ ext.template) (stem ++ ".".toList ++ ext.module)
  | other {path : Text} (hpath : ∀ stem, path ≠ stem ++ ".".toList ++ ext.template) :
      IsSpecifier ext path path

/-- The line that imports a component. -/
inductive IsImportLine (ext : Extensions) : Import → Text → Prop
  | mk {i : Import} {specifier code : Text} (hspecifier : IsSpecifier ext i.path specifier)
      (hcode : IsString specifier code) :
      IsImportLine ext i ("import ".toList ++ i.name ++ " from ".toList ++ code ++ ";\n".toList)

/-- The markup of an island, around the one substitution that carries its properties. -/
def islandParts (id name properties : Text) : List Part :=
  ("<div data-island=\"".toList ++ id ++ "\" data-component=\"".toList ++ name ++
    "\" data-props=\"".toList).map .char ++
  .substitution ("__esc(JSON.stringify(".toList ++ properties ++ "))".toList) ::
    "\"></div>".toList.map .char

/-- The parts of the template literal that shows the pieces of a body, the islands being those that
are left to the browser: the characters of a text, one substitution for each expression and for each
component that is rendered on the server, and the markup of each island. -/
inductive Shows : List Piece → List Island → List Part → Prop
  | nil : Shows [] [] []
  | text {t : Text} {pieces : List Piece} {islands : List Island} {parts : List Part}
      (hrest : Shows pieces islands parts) :
      Shows (.text t :: pieces) islands (t.map .char ++ parts)
  | expr {e : Text} {pieces : List Piece} {islands : List Island} {parts : List Part}
      (hrest : Shows pieces islands parts) :
      Shows (.expr e :: pieces) islands
        (.substitution ("__esc(".toList ++ e ++ ")".toList) :: parts)
  | raw {e : Text} {pieces : List Piece} {islands : List Island} {parts : List Part}
      (hrest : Shows pieces islands parts) :
      Shows (.raw e :: pieces) islands
        (.substitution ("(".toList ++ e ++ ") ?? \"\"".toList) :: parts)
  | server {name properties : Text} {attributes : List Attribute} {pieces : List Piece}
      {islands : List Island} {parts : List Part} (hproperties : IsProperties attributes properties)
      (hrest : Shows pieces islands parts) :
      Shows (.component name attributes false :: pieces) islands
        (.substitution (name ++ "(".toList ++ properties ++ ")".toList) :: parts)
  | island {i : Island} {properties : Text} {attributes : List Attribute} {pieces : List Piece}
      {islands : List Island} {parts : List Part} (hproperties : IsProperties attributes properties)
      (hrest : Shows pieces islands parts) :
      Shows (.component i.name attributes true :: pieces) (i :: islands)
        (islandParts i.id i.name properties ++ parts)

/-- What stands in every module before the body: the helper that escapes, and the head of the function
up to the backtick. -/
def preamble : Text :=
  "const __esc = (value) => String(value ?? \"\").replace(/[&<>\"']/g, ".toList ++
    "(c) => `&#$\x7bc.charCodeAt(0)\x7d;`);\n".toList ++
    "\nexport default function render(props = \x7b\x7d) \x7b\n  return `".toList

/-- What stands in every module behind the last backtick. -/
def epilogue : Text := ";\n\x7d\n".toList

/-- The code of a module with the given import lines and the given body. -/
def moduleText (lines : List Text) (body : Text) : Text :=
  lines.flatten ++ (if lines = [] then [] else ['\n']) ++ preamble ++ (body ++ '\x60' :: epilogue)

variable {ext : Extensions} {i : Import} {a : Attribute} {attributes : List Attribute} {path : Text}

theorem isString_quoted (t : Text) : IsString t (Text.quoted t) := by
  have hread := Interchange.readString_quoted t []
  rwa [List.append_nil] at hread

theorem isValue_code (v : AttributeValue) : IsValue v v.code := by
  cases v with
  | text t => exact .text (isString_quoted t)
  | expr e => exact .expr
  | flag => exact .flag

theorem isProperty_code (a : Attribute) : IsProperty a a.code :=
  .mk (isString_quoted a.name) (isValue_code a.value)

/-- The properties that the generator writes. -/
theorem isProperties_properties (attributes : List Attribute) :
    IsProperties attributes (properties attributes) := by
  cases attributes with
  | nil => exact .none
  | cons a attributes =>
      have hfields : List.Forall₂ IsProperty (a :: attributes) ((a :: attributes).map Attribute.code) :=
        List.forall₂_map_right_iff.2 (List.forall₂_same.2 fun b _ => isProperty_code b)
      rw [properties, if_neg (List.cons_ne_nil a attributes)]
      exact .some hfields

/-- The specifier that the generator writes. -/
theorem isSpecifier_specifier (ext : Extensions) (path : Text) :
    IsSpecifier ext path (ext.specifier path) := by
  have hdot : ∀ stem tail : Text, stem ++ ".".toList ++ tail = stem ++ '.' :: tail := by
    intro stem tail
    rw [List.append_assoc]
    rfl
  unfold Extensions.specifier
  cases hcut : Text.cutEnd? ('.' :: ext.template) path with
  | some stem =>
      rw [Text.cutEnd?_eq_some_iff.1 hcut]
      dsimp only
      rw [← hdot, ← hdot]
      exact .template
  | none =>
      refine .other fun stem heq => Text.cutEnd?_eq_none_iff.1 hcut stem ?_
      rw [heq, hdot]

/-- The import line that the generator writes. -/
theorem isImportLine_line (ext : Extensions) (i : Import) : IsImportLine ext i (i.line ext) :=
  .mk (isSpecifier_specifier ext i.path) (isString_quoted _)

theorem line_eq_append : i.line ext = "import ".toList ++ (i.name ++ (" from ".toList ++
    (Text.quoted (ext.specifier i.path) ++ ";\n".toList))) := by
  have hassoc : ∀ a b c d e : Text, a ++ b ++ c ++ d ++ e = a ++ (b ++ (c ++ (d ++ e))) := by simp
  exact hassoc _ _ _ _ _

/-- The import lines, with an empty line after them if there are any. -/
theorem importBlock_eq (ext : Extensions) (used : List Import) :
    importBlock ext used = (used.map (Import.line ext)).flatten ++
      (if used.map (Import.line ext) = [] then [] else ['\n']) := by
  cases used with
  | nil => rfl
  | cons i used =>
      rw [importBlock, ← List.flatMap_def, List.map_cons, if_neg (List.cons_ne_nil _ _)]
      split
      · next hnone =>
          rw [List.flatMap_cons, line_eq_append] at hnone
          cases hnone
      · rfl

/-- What the generator writes, told by its import lines and its body. -/
theorem code_generate (ext : Extensions) (moduleId : Text) (imports : List Import)
    (pieces : List Piece) :
    (generate ext moduleId imports pieces).code =
      moduleText ((serverImports imports pieces).map (Import.line ext))
        (bodyCode (idStem moduleId) 0 pieces) := by
  have hpreamble : escapeHelper ++ bodyOpen = preamble := rfl
  have hepilogue : bodyClose = '\x60' :: epilogue := by decide
  simp only [generate, moduleText, importBlock_eq, ← hpreamble, hepilogue, List.append_assoc]

end Quire.Template
