import Quire.Proofs.Template.Strands

/-!
The names that a module imports, beside those that its own code needs. The phrases of the generator
have a fixed stock of words, and of its names only two begin with a capital letter, as the name of a
component does. Main statement: a module binds a name that its own code needs exactly if its
template renders a component of one of these two names on the server.
-/

namespace Quire

namespace Template

/-- The words of a text: runs of name characters that do not begin with a digit. -/
def words (t : Text) : List Text :=
  (t.splitOnP fun c => !isNameChar c).filter fun w => w.head?.any fun c => !c.isDigit

/-- The names that the code around the expressions of a template declares or refers to. -/
def scaffoldNames : List Text :=
  ["__esc".toList, "render".toList, "props".toList, "value".toList, "c".toList, "String".toList,
    "JSON".toList]

/-- The other words of that code: what the language reserves, the methods that are called, and the
flag of a pattern. -/
def plainWords : List Text :=
  ["import".toList, "from".toList, "const".toList, "export".toList, "default".toList,
    "function".toList, "return".toList, "true".toList, "replace".toList, "charCodeAt".toList,
    "stringify".toList, "g".toList]

/-- Whether a word stands in what the generator writes by itself. -/
def Mentions (strands : List Strand) (w : Text) : Prop := ∃ p, .own p ∈ strands ∧ w ∈ words p.text

variable {ext : Extensions} {moduleId source stem name w : Text} {s : Source} {n : Nat}
  {imports : List Import} {attributes : List Attribute} {pieces : List Piece} {code : List Strand}
  {x : Strand} {made : Module}

theorem words_phrase (p : Phrase) : ∀ w ∈ words p.text, w ∈ scaffoldNames ∨ w ∈ plainWords := by
  cases p <;> decide +kernel

/-- Only what serializes the properties of an island refers to the global object for that. -/
theorem eq_serializeOpen (p : Phrase) (h : "JSON".toList ∈ words p.text) : p = .serializeOpen := by
  revert h
  cases p <;> decide +kernel

theorem mentions_helper (hw : w ∈ scaffoldNames) (hjson : w ≠ "JSON".toList) :
    w ∈ words Phrase.helper.text ∨ w ∈ words Phrase.bodyOpen.text := by
  revert w
  decide +kernel

/-- What is in lists with others between them is in one of the lists, or in one of the others. -/
theorem mem_of_mem_intercalate {α : Type} {x : α} {sep : List α} {ls : List (List α)}
    (h : x ∈ sep.intercalate ls) : x ∈ sep ∨ ∃ l ∈ ls, x ∈ l := by
  induction ls with
  | nil => simp at h
  | cons l ls ih =>
      cases ls with
      | nil => exact Or.inr ⟨l, by simp, by simpa using h⟩
      | cons m ls =>
          rw [List.intercalate_cons_cons, List.mem_append, List.mem_append] at h
          rcases h with (h | h) | h
          · exact Or.inr ⟨l, List.mem_cons_self, h⟩
          · exact Or.inl h
          · exact (ih h).imp_right fun ⟨k, hk, hx⟩ => ⟨k, List.mem_cons_of_mem l hk, hx⟩

theorem serializeOpen_not_mem_properties : .own .serializeOpen ∉ propertyStrands attributes := by
  unfold propertyStrands
  split
  · simp
  · simp only [List.mem_cons, List.mem_append, List.not_mem_nil, or_false, not_or, Strand.own.injEq,
      reduceCtorEq, not_false_eq_true, true_and]
    intro h
    rcases mem_of_mem_intercalate h with h | ⟨l, hl, h⟩
    · simp at h
    · obtain ⟨⟨name, value⟩, -, rfl⟩ := List.mem_map.1 hl
      cases value <;> simp [Attribute.strands, AttributeValue.strands] at h

theorem mem_substitutionStrands :
    x ∈ substitutionStrands code ↔
      x = .own .substitutionOpen ∨ x ∈ code ∨ x = .own .substitutionClose := by
  simp [substitutionStrands]

theorem serializeOpen_not_mem_piece (p : Piece) : .own .serializeOpen ∉ p.strands := by
  cases p <;>
    simp [Piece.strands, mem_substitutionStrands, serializeOpen_not_mem_properties]

/-- The properties of islands are serialized, and nothing else is. -/
theorem serializeOpen_mem_body :
    .own .serializeOpen ∈ bodyStrands stem n pieces ↔ bodyIslands stem imports n pieces ≠ [] := by
  fun_induction bodyStrands stem n pieces with
  | case1 => simp [bodyIslands]
  | case2 n name attributes pieces ih =>
      simp [bodyIslands, placeholderStrands, mem_substitutionStrands]
  | case3 n p pieces hp ih =>
      rw [bodyIslands, List.mem_append, or_iff_right (serializeOpen_not_mem_piece p), ih]
      exact hp

theorem serializeOpen_mem_module :
    .own .serializeOpen ∈ moduleStrands ext moduleId s ↔
      (generate ext moduleId s.imports s.pieces).islands ≠ [] := by
  have himports : ∀ imports : List Import,
      .own .serializeOpen ∉ importStrands ext imports := by
    intro imports
    unfold importStrands
    split <;> simp [Import.strands]
  simp only [moduleStrands, List.mem_append, List.mem_cons, List.not_mem_nil, or_false,
    himports, Strand.own.injEq, reduceCtorEq, false_or]
  exact serializeOpen_mem_body

/-- The names that a module needs are mentioned in it: all but one in each module, that one where
there are islands. -/
theorem mentions_iff (hw : w ∈ scaffoldNames) :
    Mentions (moduleStrands ext moduleId s) w ↔
      (w = "JSON".toList → (generate ext moduleId s.imports s.pieces).islands ≠ []) := by
  constructor
  · rintro ⟨p, hp, hmem⟩ rfl
    rw [eq_serializeOpen p hmem] at hp
    exact serializeOpen_mem_module.1 hp
  · intro hislands
    by_cases hjson : w = "JSON".toList
    · subst hjson
      exact ⟨.serializeOpen, serializeOpen_mem_module.2 (hislands rfl), by decide +kernel⟩
    · rcases mentions_helper hw hjson with hmem | hmem
      · exact ⟨.helper, by simp [moduleStrands], hmem⟩
      · exact ⟨.bodyOpen, by simp [moduleStrands], hmem⟩

theorem eq_of_isUpper : ∀ w ∈ scaffoldNames, w.head?.any Char.isUpper →
    w = "String".toList ∨ w = "JSON".toList := by
  decide

/-- The phrases of a module mention no names but the seven that it needs, and it binds one of these
exactly if it renders a component of that name on the server: no other name of a component is among
them. -/
theorem captured_compile_iff (h : compile ext moduleId source = .ok made) :
    ∃ s, read source = .ok s ∧
      made.code = (moduleStrands ext moduleId s).flatMap Strand.spelled ∧
      (∀ w, Mentions (moduleStrands ext moduleId s) w → w ∈ scaffoldNames ∨ w ∈ plainWords) ∧
      (∀ w ∈ scaffoldNames, Mentions (moduleStrands ext moduleId s) w ↔
        (w = "JSON".toList → made.islands ≠ [])) ∧
      ((∀ name ∈ (importLinesOf made.code).map boundName, name ∉ scaffoldNames) ↔
        ∀ attributes, .component "String".toList attributes false ∉ s.pieces ∧
          .component "JSON".toList attributes false ∉ s.pieces) := by
  obtain ⟨s, hs, rfl⟩ := map_eq_ok_iff.1 h
  refine ⟨s, hs, (spelled_module ext moduleId s).symm, ?_, fun w => mentions_iff, ?_⟩
  · rintro w ⟨p, -, hw⟩
    exact words_phrase p w hw
  · rw [boundNames_of_read hs]
    constructor
    · intro hfree attributes
      have huse : ∀ name ∈ scaffoldNames, .component name attributes false ∉ s.pieces :=
        fun name hname huse => hfree name ((mem_boundNames hs).2 ⟨attributes, huse⟩) hname
      exact ⟨huse _ (by decide), huse _ (by decide)⟩
    · intro hfree name hname hscaffold
      obtain ⟨attributes, huse⟩ := (mem_boundNames hs).1 hname
      obtain ⟨i, hi, rfl⟩ := List.mem_map.1 hname
      obtain ⟨t, hmeans⟩ := (imports_of_read hs).2 i (List.mem_filter.1 hi).1
      rcases eq_of_isUpper _ hscaffold hmeans.capital with heq | heq
      · exact (hfree attributes).1 (heq ▸ huse)
      · exact (hfree attributes).2 (heq ▸ huse)

/-- A template that shows a value, renders a component and leaves another to the browser. -/
def cardTemplate : Text :=
  ("---\nimport Card from \"./c.pw\"\nimport Dial from \"./d.pw\"\n---\n" ++
    "\x7ba\x7d<Card/><Dial client/>").toList

theorem captured_compile_iff_card :
    ∃ s made, read cardTemplate = .ok s ∧
      compile ⟨"pw".toList, "js".toList⟩ "page".toList cardTemplate = .ok made ∧
      (importLinesOf made.code).map boundName = ["Card".toList] ∧
      (∀ w ∈ scaffoldNames, Mentions (moduleStrands ⟨"pw".toList, "js".toList⟩ "page".toList s) w) ∧
      ∀ name ∈ (importLinesOf made.code).map boundName, name ∉ scaffoldNames := by
  have hread : read cardTemplate =
      .ok ⟨[⟨"Card".toList, "./c.pw".toList⟩, ⟨"Dial".toList, "./d.pw".toList⟩],
        [.expr ['a'], .component "Card".toList [] false, .component "Dial".toList [] true]⟩ := by
    decide +kernel
  have hmade : compile ⟨"pw".toList, "js".toList⟩ "page".toList cardTemplate = .ok _ :=
    map_eq_ok_iff.2 ⟨_, hread, rfl⟩
  obtain ⟨s, hs, -, -, hmentions, hiff⟩ := captured_compile_iff hmade
  obtain rfl := Except.ok.inj (hread.symm.trans hs)
  refine ⟨_, _, hs, hmade, (boundNames_of_read hs).trans (by decide), fun w hw => ?_, hiff.2 ?_⟩
  · exact (hmentions w hw).2 fun _ => List.cons_ne_nil _ _
  · intro attributes
    constructor <;> simp

/-- A template with a component that goes by the name of what turns a value into text. -/
def stringTemplate : Text :=
  "---\nimport String from \"./s.pw\"\n---\n\x7ba\x7d<String/>".toList

/-- The import line of the component takes its name away from the escape helper. -/
theorem captured_compile_string :
    ∃ s made, read stringTemplate = .ok s ∧
      compile ⟨"pw".toList, "js".toList⟩ "page".toList stringTemplate = .ok made ∧
      Mentions (moduleStrands ⟨"pw".toList, "js".toList⟩ "page".toList s) "String".toList ∧
      ¬ ∀ name ∈ (importLinesOf made.code).map boundName, name ∉ scaffoldNames := by
  have hread : read stringTemplate = .ok ⟨[⟨"String".toList, "./s.pw".toList⟩],
      [.expr ['a'], .component "String".toList [] false]⟩ := by
    decide +kernel
  refine ⟨_, _, hread, map_eq_ok_iff.2 ⟨_, hread, rfl⟩,
    (mentions_iff (by decide)).2 fun h => absurd h (by decide), fun hfree => ?_⟩
  rw [boundNames_of_read hread] at hfree
  exact hfree "String".toList (by decide) (by decide)

end Template

end Quire
