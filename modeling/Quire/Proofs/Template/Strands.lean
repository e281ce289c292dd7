import Quire.Proofs.Template.Closure

/-!
The code of a module as strands. What the generator writes by itself is made of the same phrases in
all modules; between them stand the names, the texts and the expressions that it takes over from the
template. Main statement: the strands of a module spell its code, and the expressions among them are
those of the pieces, in their order.
-/

namespace Quire

namespace Template

/-- What the generator writes by itself. -/
inductive Phrase
  | helper
  | bodyOpen
  | bodyClose
  | importWord
  | fromWord
  | lineEnd
  | emptyLine
  | substitutionOpen
  | substitutionClose
  | escapeOpen
  | serializeOpen
  | serializeClose
  | orNothing
  | parenOpen
  | parenClose
  | noProperties
  | propertiesOpen
  | propertiesClose
  | comma
  | colon
  | yes
deriving DecidableEq

/-- A phrase, character by character. -/
def Phrase.text : Phrase → Text
  | .helper => escapeHelper
  | .bodyOpen => Template.bodyOpen
  | .bodyClose => Template.bodyClose
  | .importWord => "import ".toList
  | .fromWord => " from ".toList
  | .lineEnd => ";\n".toList
  | .emptyLine => ['\n']
  | .substitutionOpen => ['$', '{']
  | .substitutionClose => ['}']
  | .escapeOpen => "__esc(".toList
  | .serializeOpen => "__esc(JSON.stringify(".toList
  | .serializeClose => "))".toList
  | .orNothing => ") ?? \"\"".toList
  | .parenOpen => ['(']
  | .parenClose => [')']
  | .noProperties => ['{', '}']
  | .propertiesOpen => ['{', ' ']
  | .propertiesClose => [' ', '}']
  | .comma => ", ".toList
  | .colon => ": ".toList
  | .yes => "true".toList

/-- A stretch of the code of a module. -/
inductive Strand
  | own (p : Phrase)
  /-- A text that is put between quotes. -/
  | quoted (t : Text)
  /-- Characters of the template literal. -/
  | markup (t : Text)
  /-- The name of a component where a line imports it. -/
  | bound (name : Text)
  /-- The name of a component where it is called. -/
  | called (name : Text)
  /-- An expression of the template. -/
  | expression (e : Text)

namespace Strand

/-- A strand, character by character. -/
def spelled : Strand → Text
  | .own p => p.text
  | .quoted t => Text.quoted t
  | .markup t | .bound t | .called t | .expression t => t

/-- The expression that a strand is. -/
def expressions : Strand → List Text
  | .expression e => [e]
  | _ => []

end Strand

/-- The value of an attribute, as strands. -/
def AttributeValue.strands : AttributeValue → List Strand
  | .text t => [.quoted t]
  | .expr e => [.own .parenOpen, .expression e, .own .parenClose]
  | .flag => [.own .yes]

/-- A field of the properties, as strands. -/
def Attribute.strands (a : Attribute) : List Strand :=
  .quoted a.name :: .own .colon :: a.value.strands

/-- The properties that a component is given, as strands. -/
def propertyStrands (attributes : List Attribute) : List Strand :=
  if attributes = [] then [.own .noProperties]
  else .own .propertiesOpen ::
    ([.own .comma].intercalate (attributes.map Attribute.strands) ++ [.own .propertiesClose])

/-- A substitution in the template literal, as strands. -/
def substitutionStrands (code : List Strand) : List Strand :=
  .own .substitutionOpen :: (code ++ [.own .substitutionClose])

/-- A piece that is no island, as strands. -/
def Piece.strands : Piece → List Strand
  | .text t => [.markup (literal t)]
  | .expr e => substitutionStrands [.own .escapeOpen, .expression e, .own .parenClose]
  | .raw e => substitutionStrands [.own .parenOpen, .expression e, .own .orNothing]
  | .component name attributes _ =>
    substitutionStrands
      (.called name :: .own .parenOpen :: (propertyStrands attributes ++ [.own .parenClose]))

/-- The markup of an island up to its properties. -/
def islandOpen (id name : Text) : Text :=
  "<div data-island=\"".toList ++ id ++ "\" data-component=\"".toList ++ name ++
    "\" data-props=\"".toList

/-- The markup of an island behind its properties. -/
def islandClose : Text := "\"></div>".toList

/-- The placeholder of an island, as strands. -/
def placeholderStrands (id name : Text) (attributes : List Attribute) : List Strand :=
  .markup (islandOpen id name) ::
    (substitutionStrands
      (.own .serializeOpen :: (propertyStrands attributes ++ [.own .serializeClose])) ++
    [.markup islandClose])

/-- The body, its first island having the given number, as strands. -/
def bodyStrands (stem : Text) : Nat → List Piece → List Strand
  | _, [] => []
  | n, .component name attributes true :: rest =>
    placeholderStrands (islandId stem n) name attributes ++ bodyStrands stem (n + 1) rest
  | n, piece :: rest => piece.strands ++ bodyStrands stem n rest

/-- An import line, as strands. -/
def Import.strands (ext : Extensions) (i : Import) : List Strand :=
  [.own .importWord, .bound i.name, .own .fromWord, .quoted (ext.specifier i.path), .own .lineEnd]

/-- The import lines and the empty line after them, as strands. -/
def importStrands (ext : Extensions) (imports : List Import) : List Strand :=
  if imports = [] then [] else imports.flatMap (Import.strands ext) ++ [.own .emptyLine]

/-- The module of a template that has been read, as strands. -/
def moduleStrands (ext : Extensions) (moduleId : Text) (s : Source) : List Strand :=
  importStrands ext (serverImports s.imports s.pieces) ++ .own .helper :: .own .bodyOpen ::
    (bodyStrands (idStem moduleId) 0 s.pieces ++ [.own .bodyClose])

/-- The expression that an attribute carries. -/
def Attribute.expressions (a : Attribute) : List Text :=
  match a.value with
  | .expr e => [e]
  | _ => []

/-- The expressions of a piece. -/
def Piece.expressions : Piece → List Text
  | .text _ => []
  | .expr e | .raw e => [e]
  | .component _ attributes _ => attributes.flatMap Attribute.expressions

section Intercalate

variable {α β : Type}

/-- What is made of lists with one item between them, item by item. -/
theorem flatMap_intercalate (f : α → List β) (sep : α) (ls : List (List α)) :
    ([sep].intercalate ls).flatMap f = (f sep).intercalate (ls.map (·.flatMap f)) := by
  induction ls with
  | nil => rfl
  | cons l ls ih =>
      cases ls with
      | nil => simp
      | cons m ls =>
          rw [List.map_cons] at ih
          rw [List.intercalate_cons_cons, List.flatMap_append, List.flatMap_append, ih,
            List.flatMap_singleton, List.map_cons, List.map_cons, List.intercalate_cons_cons]

theorem nil_intercalate (ls : List (List α)) : [].intercalate ls = ls.flatten := by
  induction ls with
  | nil => rfl
  | cons l ls ih =>
      cases ls with
      | nil => simp
      | cons m ls =>
          rw [List.intercalate_cons_cons, ih, List.append_nil]
          rfl

end Intercalate

theorem spelled_attribute (a : Attribute) : a.strands.flatMap Strand.spelled = a.code := by
  obtain ⟨name, value⟩ := a
  cases value <;>
    simp only [Attribute.strands, AttributeValue.strands, Attribute.code, AttributeValue.code,
      Strand.spelled, List.flatMap_cons, List.flatMap_nil, List.append_nil, List.append_assoc] <;>
    rfl

theorem spelled_properties (attributes : List Attribute) :
    (propertyStrands attributes).flatMap Strand.spelled = properties attributes := by
  unfold propertyStrands properties
  split
  · rfl
  · simp only [List.flatMap_cons, List.flatMap_append, flatMap_intercalate, List.map_map,
      Function.comp_def, spelled_attribute, Strand.spelled, List.flatMap_nil, List.append_nil,
      List.append_assoc]
    rfl

theorem spelled_substitution (code : List Strand) :
    (substitutionStrands code).flatMap Strand.spelled =
      substitution (code.flatMap Strand.spelled) := by
  simp only [substitutionStrands, substitution, List.flatMap_cons, List.flatMap_append,
    List.flatMap_nil, Strand.spelled, List.append_nil, List.append_assoc]
  rfl

theorem spelled_piece (p : Piece) : p.strands.flatMap Strand.spelled = p.code := by
  cases p <;>
    simp only [Piece.strands, Piece.code, spelled_substitution, spelled_properties,
      List.flatMap_cons, List.flatMap_append, List.flatMap_nil, Strand.spelled, List.append_nil,
      List.append_assoc] <;>
    rfl

theorem spelled_placeholder (id name : Text) (attributes : List Attribute) :
    (placeholderStrands id name attributes).flatMap Strand.spelled =
      placeholder id name attributes := by
  have hassoc : ∀ a b c d e : Text,
      a ++ (substitution (b ++ (c ++ d)) ++ e) = a ++ substitution (b ++ c ++ d) ++ e := by
    intro a b c d e
    rw [List.append_assoc b, List.append_assoc a]
  simp only [placeholderStrands, spelled_substitution, spelled_properties, List.flatMap_cons,
    List.flatMap_append, List.flatMap_nil, Strand.spelled, List.append_nil]
  exact hassoc _ _ _ _ _

theorem spelled_body (stem : Text) (n : Nat) (pieces : List Piece) :
    (bodyStrands stem n pieces).flatMap Strand.spelled = bodyCode stem n pieces := by
  fun_induction bodyCode stem n pieces with
  | case1 => rfl
  | case2 n name attributes pieces ih =>
      rw [bodyStrands, List.flatMap_append, spelled_placeholder, ih]
  | case3 n p pieces hp ih =>
      rw [bodyStrands, List.flatMap_append, spelled_piece, ih]
      exact hp

theorem spelled_imports (ext : Extensions) (imports : List Import) :
    (importStrands ext imports).flatMap Strand.spelled = importBlock ext imports := by
  have hline : ∀ i : Import, (i.strands ext).flatMap Strand.spelled = i.line ext := by
    intro i
    simp only [Import.strands, Strand.spelled, List.flatMap_cons, List.flatMap_nil,
      List.append_nil]
    exact line_eq_append.symm
  rw [importBlock_eq]
  unfold importStrands
  cases imports with
  | nil => rfl
  | cons i imports =>
      rw [if_neg (List.cons_ne_nil i imports), List.map_cons, if_neg (List.cons_ne_nil _ _),
        List.flatMap_append, List.flatMap_assoc, funext hline, List.flatMap_def]
      rfl

/-- The strands of a module spell its code. -/
theorem spelled_module (ext : Extensions) (moduleId : Text) (s : Source) :
    (moduleStrands ext moduleId s).flatMap Strand.spelled =
      (generate ext moduleId s.imports s.pieces).code := by
  have hassoc : ∀ a b c d e : Text, a ++ (b ++ (c ++ (d ++ e))) = a ++ b ++ c ++ d ++ e := by simp
  simp only [moduleStrands, List.flatMap_append, List.flatMap_cons, spelled_imports, spelled_body,
    Strand.spelled, List.flatMap_nil, List.append_nil]
  exact hassoc _ _ _ _ _

theorem expressions_properties (attributes : List Attribute) :
    (propertyStrands attributes).flatMap Strand.expressions =
      attributes.flatMap Attribute.expressions := by
  have hattribute : ∀ a : Attribute, a.strands.flatMap Strand.expressions = a.expressions := by
    rintro ⟨name, value⟩
    cases value <;> rfl
  unfold propertyStrands
  split
  · next h => rw [h]; rfl
  · simp only [List.flatMap_cons, List.flatMap_append, flatMap_intercalate, List.map_map,
      Function.comp_def, hattribute, Strand.expressions, nil_intercalate, List.flatMap_nil,
      List.append_nil, List.nil_append]
    rfl

theorem expressions_substitution (code : List Strand) :
    (substitutionStrands code).flatMap Strand.expressions = code.flatMap Strand.expressions := by
  simp [substitutionStrands, Strand.expressions]

theorem expressions_piece (p : Piece) : p.strands.flatMap Strand.expressions = p.expressions := by
  cases p <;>
    simp [Piece.strands, Piece.expressions, Strand.expressions, expressions_properties,
      expressions_substitution]

theorem expressions_body (stem : Text) (n : Nat) (pieces : List Piece) :
    (bodyStrands stem n pieces).flatMap Strand.expressions =
      pieces.flatMap Piece.expressions := by
  fun_induction bodyStrands stem n pieces with
  | case1 => rfl
  | case2 n name attributes pieces ih =>
      simp [placeholderStrands, Piece.expressions, Strand.expressions, expressions_substitution,
        expressions_properties, ih]
  | case3 n p pieces hp ih =>
      rw [List.flatMap_append, expressions_piece, ih, List.flatMap_cons]

theorem expressions_imports (ext : Extensions) (imports : List Import) :
    (importStrands ext imports).flatMap Strand.expressions = [] := by
  have hline : ∀ i : Import, (i.strands ext).flatMap Strand.expressions = [] := fun _ => rfl
  unfold importStrands
  split
  · rfl
  · rw [List.flatMap_append, List.flatMap_assoc, funext hline]
    simp [Strand.expressions]

/-- The expressions of a module are those of the pieces, in their order. -/
theorem expressions_module (ext : Extensions) (moduleId : Text) (s : Source) :
    (moduleStrands ext moduleId s).flatMap Strand.expressions =
      s.pieces.flatMap Piece.expressions := by
  simp [moduleStrands, List.flatMap_append, List.flatMap_cons, expressions_imports,
    expressions_body, Strand.expressions]

end Template

end Quire
