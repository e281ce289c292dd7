import Quire.Config.Basic
import Quire.Config.Misfit
import Quire.Toml.Document

/-!
From the tables of a configuration file to the configuration. Fields are taken in the order of the
file and the first misfit ends the reading; a section written as an array gives its fields by their
order.
-/

namespace Quire.Config

open Toml (Item Key Span)

/-- Turns an item into what it is wanted for. -/
abbrev Decoder (α : Type) := Item → Except Misfit α

/-- The misfit of an item of another type. -/
def wrongType (wanted : Wanted) (item : Item) : Except Misfit α :=
  .error ⟨item.span?, .wrongType (found item) wanted⟩

/-- The misfit with a place, if it has none yet. -/
def Misfit.locate (span : Option Span) (m : Misfit) : Misfit := { m with span := m.span <|> span }

/-- A text. -/
def decodeText (wanted : Wanted) : Decoder Text
  | .scalar (.string t) _ => .ok t
  | item => wrongType wanted item

/-- A truth value. -/
def decodeFlag : Decoder Bool
  | .scalar (.boolean b) _ => .ok b
  | item => wrongType .flag item

/-- The members of what is written as a list. -/
def members? : Item → Option (List Item)
  | .array items _ => some items
  | .tables members => some members
  | _ => none

/-- A list of texts. -/
def decodeTexts : Decoder (List Text) := fun item =>
  match members? item with
  | some members => members.mapM (decodeText .text)
  | none => wrongType .list item

/-- One field of a section: its name, and how its value changes the section. -/
structure Field (σ : Type) where
  name : Text
  set : Item → σ → Except Misfit σ

/-- The field that a decoder gives. -/
def Field.ofDecoder (name : String) (decode : Decoder α) (set : α → σ → σ) : Field σ where
  name := name.toList
  set item s := (decode item).map (set · s)

/-- Takes one entry of a table into a section. -/
def takeEntry (fields : List (Field σ)) (s : σ) : Key × Item → Except Misfit σ
  | (k, item) =>
    match fields.find? (·.name = k.name) with
    | some field => (field.set item s).mapError (Misfit.locate (item.span? <|> some k.span))
    | none => .error ⟨some k.span, .unknownField k.name (fields.map (·.name))⟩

/-- The name under which a moment shows its parts. -/
def momentField : Text := "$__toml_private_datetime".toList

/-- Takes a whole section: a table by its keys, a list by its order. -/
def decodeSection (wanted : Wanted) (fields : List (Field σ)) (default : σ) : Decoder σ
  | .table _ entries _ => entries.foldlM (takeEntry fields) default
  | .scalar .moment span => .error ⟨some span, .unknownField momentField (fields.map (·.name))⟩
  | item =>
    match members? item with
    | some members => (fields.zip members).foldlM (fun s (field, m) => field.set m s) default
    | none => wrongType wanted item

/-- The fields of the first section. -/
def buildFields : List (Field Build) := [
  .ofDecoder "template_ext" (decodeText .text) fun t b => { b with templateExt := t },
  .ofDecoder "module_ext" (decodeText .text) fun t b => { b with moduleExt := t },
  .ofDecoder "output" (decodeText .path) fun t b => { b with output := ⟨t⟩ },
  .ofDecoder "copy_dirs" decodeTexts fun ts b => { b with copyDirs := ts }]

/-- The fields of the second section. -/
def bundlerFields : List (Field Bundler) := [
  .ofDecoder "enable" decodeFlag fun f b => { b with enable := f },
  .ofDecoder "command" decodeTexts fun ts b => { b with command := ts },
  .ofDecoder "minify" decodeFlag fun f b => { b with minify := f }]

/-- The sections. -/
def sections : List (Field Config) := [
  .ofDecoder "build" (decodeSection .build buildFields {}) fun b c => { c with build := b },
  .ofDecoder "bundler" (decodeSection .bundler bundlerFields {}) fun b c => { c with bundler := b }]

/-- Why a file gives no configuration: it is not in the notation at all, or something in it does
not belong where it stands. -/
inductive ReadError
  | notToml
  | misfit (source : Text) (m : Misfit)

/-- The configuration that a file describes. -/
def ofText (source : Text) : Except ReadError Config :=
  match Toml.parse? source with
  | some (.table _ entries _) =>
    (entries.foldlM (takeEntry sections) {}).mapError (.misfit source)
  | _ => .error .notToml

end Quire.Config
