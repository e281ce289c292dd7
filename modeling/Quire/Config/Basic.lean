import Quire.Path.Basic

/-!
The configuration of a project and the rules that its values have to keep.
-/

namespace Quire

namespace Config

/-- How sources become output. -/
structure Build where
  /-- The extension of templates, without its dot. -/
  templateExt : Text := "pw".toList
  /-- The extension of the modules made from them, without its dot. -/
  moduleExt : Text := "js".toList
  /-- Where a directory build writes. -/
  output : Path := ⟨".pagewright".toList⟩
  /-- The directories that are copied as they are. -/
  copyDirs : List Text := ["assets".toList, "public".toList]
deriving DecidableEq

/-- How the browser's scripts are bundled. -/
structure Bundler where
  enable : Bool := true
  /-- The bundler and its first arguments. -/
  command : List Text := ["esbuild".toList]
  minify : Bool := false
deriving DecidableEq

end Config

/-- The configuration of a project. -/
structure Config where
  build : Config.Build := {}
  bundler : Config.Bundler := {}
deriving DecidableEq

namespace Config

/-- The file that makes a directory of the output a routed page. -/
def pageMarker (c : Config) : Text := "page.".toList ++ c.build.moduleExt

/-- The file that gives a routed directory its layout. -/
def layoutMarker (c : Config) : Text := "layout.".toList ++ c.build.moduleExt

/-- The configuration with the output directory of a command line, if that names one. -/
def withOutput (c : Config) (output : Option Path) : Config :=
  match output with
  | some o => { c with build := { c.build with output := o } }
  | none => c

/-- The two extensions. -/
inductive ExtField
  | template
  | module
deriving DecidableEq

/-- The rules that a configuration can break. -/
inductive Violation
  | emptyExt (field : ExtField)
  | dottedExt (field : ExtField)
  | equalExts
  | noCommand
deriving DecidableEq

/-- The name of a field in the configuration file. -/
def ExtField.label : ExtField → Text
  | .template => "[build.template_ext]".toList
  | .module => "[build.module_ext]".toList

/-- The wording of a violation. -/
def Violation.message : Violation → Text
  | .emptyExt field => field.label ++ " must not be empty".toList
  | .dottedExt field => field.label ++ " must not start with a dot".toList
  | .equalExts => "[build.template_ext] and [build.module_ext] must differ".toList
  | .noCommand => "[bundler.command] must have at least one element".toList

/-- The rule that an extension breaks, if it breaks one. -/
def extViolation? (field : ExtField) (ext : Text) : Option Violation :=
  if ext = [] then some (.emptyExt field)
  else if ext.head? = some '.' then some (.dottedExt field)
  else none

/-- The first rule that a configuration breaks, if it breaks one. -/
def violation? (c : Config) : Option Violation :=
  extViolation? .template c.build.templateExt <|>
  extViolation? .module c.build.moduleExt <|>
  (if c.build.templateExt = c.build.moduleExt then some .equalExts else none) <|>
  (if c.bundler.enable ∧ c.bundler.command = [] then some .noCommand else none)

/-- Accepts a configuration that keeps all rules. -/
def validate (c : Config) : Except Violation Unit :=
  match c.violation? with
  | some v => .error v
  | none => .ok ()

end Config

end Quire
