import Quire.Proofs.Template.Islands
import Quire.Proofs.Template.Pieces
import Quire.Proofs.Template.Showing

/-!
The template literal that spells a body, read back. A reader of template literals takes the
character behind a backslash along, ends at a backtick, and reads a substitution up to its closing
brace as a template reads an expression. Main statement: the literal of a module is read to the
backtick that the module ends it with, and holds the pieces of the template in their order.
-/

namespace Quire

namespace Template

/-- Puts parts in front of those that have been read. -/
def addParts (ps : List Part) : List Part × Text → List Part × Text :=
  fun (qs, after) => (ps ++ qs, after)

/-- Reads a template literal from behind its opening backtick: what it holds, and what follows its
closing backtick. -/
def readLiteral : Text → Option (List Part × Text)
  | [] => none
  | ['\\'] => none
  | '\\' :: c :: rest => (readLiteral rest).map (addParts [.char c])
  | '\x60' :: rest => some ([], rest)
  | '$' :: '{' :: rest =>
    match _h : closing .code 0 rest with
    | none => none
    | some (code, after) => (readLiteral after).map (addParts [.substitution code])
  | c :: rest => (readLiteral rest).map (addParts [.char c])
termination_by t => t.length
decreasing_by
  · simp only [List.length_cons]
    omega
  · have := length_lt_of_closing _h
    simp only [List.length_cons]
    omega
  · simp

/-- Text that is read as itself. -/
def isVerbatim (c : Char) : Bool := c ≠ '\\' && c ≠ '\x60' && c ≠ '$'

variable {c : Char} {t rest a b code : Text} {ps qs : List Part} {imports : List Import} {p : Piece}
  {pieces : List Piece}

theorem addParts_comp (ps qs : List Part) : addParts ps ∘ addParts qs = addParts (ps ++ qs) := by
  funext ⟨rs, after⟩
  simp [addParts]

theorem addParts_nil : addParts [] = id := rfl

/-- Code that holds some parts wherever it stands in a literal, unless a brace follows it. -/
def Holds (code : Text) (ps : List Part) : Prop :=
  ∀ rest : Text, rest.head? ≠ some '{' →
    readLiteral (code ++ rest) = (readLiteral rest).map (addParts ps)

theorem readLiteral_escaped (c : Char) (rest : Text) :
    readLiteral ('\\' :: c :: rest) = (readLiteral rest).map (addParts [.char c]) := by
  rw [readLiteral]

theorem readLiteral_char (hslash : c ≠ '\\') (htick : c ≠ '\x60')
    (hdollar : c = '$' → rest.head? ≠ some '{') :
    readLiteral (c :: rest) = (readLiteral rest).map (addParts [.char c]) := by
  rw [readLiteral]
  · exact fun h => absurd h hslash
  · exact fun _ _ h => absurd h hslash
  · exact fun h => absurd h htick
  · rintro rest' rfl rfl
    exact hdollar rfl rfl

theorem readLiteral_substitution (hcode : Balanced code) (rest : Text) :
    readLiteral (substitution code ++ rest) =
      (readLiteral rest).map (addParts [.substitution code]) := by
  have hclosing : closing .code 0 (code ++ '}' :: rest) = some (code, rest) :=
    closing_eq_some_iff.2 ⟨rfl, hcode⟩
  have hopen : substitution code ++ rest = '$' :: '{' :: (code ++ '}' :: rest) := by
    simp [substitution]
  rw [hopen, readLiteral]
  split
  · next hnone => simp [hclosing] at hnone
  · next hsome =>
      obtain ⟨rfl, rfl⟩ := Prod.mk.inj (Option.some.inj (hclosing.symm.trans hsome))
      rfl

theorem holds_nil : Holds [] [] := fun _ _ => by simp [addParts_nil]

theorem Holds.append (ha : Holds a ps) (hb : Holds b qs) (hhead : b.head? ≠ some '{') :
    Holds (a ++ b) (ps ++ qs) := by
  intro rest hrest
  rw [List.append_assoc, ha _ (Text.head?_append_ne hhead hrest), hb _ hrest, Option.map_map,
    addParts_comp]

theorem holds_substitution (hcode : Balanced code) :
    Holds (substitution code) [.substitution code] := fun rest _ =>
  readLiteral_substitution hcode rest

theorem holds_verbatim (ht : t.all isVerbatim) : Holds t (t.map .char) := by
  intro rest _
  induction t with
  | nil => simp [addParts_nil]
  | cons c t ih =>
      rw [List.all_cons, Bool.and_eq_true] at ht
      obtain ⟨hc, ht⟩ := ht
      simp only [isVerbatim, Bool.and_eq_true, decide_eq_true_eq] at hc
      rw [List.cons_append, readLiteral_char hc.1.1 hc.1.2 (fun h => absurd h hc.2), ih ht,
        Option.map_map, addParts_comp]
      rfl

theorem head?_literal (t : Text) (h : (literal t).head? = some '{') : t.head? = some '{' := by
  fun_cases literal t <;> simp_all [literal]

/-- Literal text holds its own characters. -/
theorem holds_literal (t : Text) : Holds (literal t) (t.map .char) := by
  intro rest hrest
  fun_induction literal t with
  | case1 => simp [addParts_nil]
  | case2 t ih =>
      rw [List.cons_append, List.cons_append, readLiteral_escaped, ih, Option.map_map, addParts_comp]
      rfl
  | case3 t ih =>
      rw [List.cons_append, List.cons_append, readLiteral_escaped, ih, Option.map_map, addParts_comp]
      rfl
  | case4 t ih =>
      have hbrace : readLiteral ('{' :: (literal t ++ rest)) =
          (readLiteral (literal t ++ rest)).map (addParts [.char '{']) :=
        readLiteral_char (by decide) (by decide) fun h => absurd h (by decide)
      rw [List.cons_append, List.cons_append, List.cons_append, readLiteral_escaped, hbrace, ih,
        Option.map_map, Option.map_map, addParts_comp, addParts_comp]
      rfl
  | case5 c t hslash htick hdollar ih =>
      have hbehind : c = '$' → (literal t ++ rest).head? ≠ some '{' := by
        rintro rfl hhead
        cases hliteral : literal t with
        | nil => exact hrest (by simpa [hliteral] using hhead)
        | cons d l =>
            have ht := head?_literal t (by simpa [hliteral] using hhead)
            obtain ⟨t, rfl⟩ := List.head?_eq_some_iff.1 ht
            exact hdollar t rfl rfl
      rw [List.cons_append, readLiteral_char hslash htick hbehind, ih, Option.map_map, addParts_comp]
      rfl

theorem Balanced.intercalate {sep : Text} {l : List Text} (hsep : Balanced sep)
    (hl : ∀ t ∈ l, Balanced t) : Balanced (sep.intercalate l) := by
  induction l with
  | nil => exact .nil
  | cons t l ih =>
      have ht := hl t List.mem_cons_self
      cases l with
      | nil => simpa using ht
      | cons u l =>
          rw [List.intercalate_cons_cons]
          exact (ht.append hsep).append (ih fun v hv => hl v (List.mem_cons_of_mem t hv))

theorem balanced_properties {attributes : List Attribute}
    (h : ∀ a ∈ attributes, Balanced a.value.code) : Balanced (properties attributes) := by
  unfold properties
  split
  · exact .group .nil .nil
  · have hfields : Balanced (", ".toList.intercalate (attributes.map Attribute.code)) := by
      refine .intercalate (balanced_of_inert (by decide)) fun t ht => ?_
      obtain ⟨a, ha, rfl⟩ := List.mem_map.1 ht
      exact ((balanced_quoted a.name).append (balanced_of_inert (by decide))).append (h a ha)
    have hinner :
        Balanced (' ' :: (", ".toList.intercalate (attributes.map Attribute.code) ++ [' '])) :=
      .inert (by decide) (hfields.append (balanced_of_inert (by decide)))
    simpa using hinner.braces

theorem ne_of_isTagChar {d : Char} (hc : isTagChar c) (hd : isTagChar d = false) : c ≠ d := by
  rintro rfl
  rw [hc] at hd
  cases hd

theorem isVerbatim_of_isTagChar (h : isTagChar c) : isVerbatim c := by
  simp [isVerbatim, ne_of_isTagChar h (d := '\\') (by decide),
    ne_of_isTagChar h (d := '\x60') (by decide), ne_of_isTagChar h (d := '$') (by decide)]

theorem isInert_of_isTagChar (h : isTagChar c) : isInert c := by
  simp [isInert, isQuote, ne_of_isTagChar h (d := '"') (by decide),
    ne_of_isTagChar h (d := '\'') (by decide), ne_of_isTagChar h (d := '\x60') (by decide),
    ne_of_isTagChar h (d := '{') (by decide), ne_of_isTagChar h (d := '}') (by decide)]

/-- The code of a piece that is no island holds what shows the piece. -/
theorem Piece.Sound.exists_shown (h : p.Sound imports)
    (hp : ∀ name attributes, p ≠ .component name attributes true) :
    ∃ parts, Holds p.code parts ∧ ∀ {pieces : List Piece} {islands : List Island} {rest : List Part},
      Shows pieces islands rest → Shows (p :: pieces) islands (parts ++ rest) := by
  have hparen : ∀ e tail : Text, '(' :: (e ++ tail) = "(".toList ++ e ++ tail := fun e tail => by
    rw [List.append_assoc]
    rfl
  cases h with
  | @text t ht => exact ⟨t.map .char, holds_literal t, Shows.text⟩
  | @expr e he =>
      refine ⟨_, holds_substitution (((balanced_of_inert (by decide)).append he).append
        (balanced_of_inert (by decide))), Shows.expr⟩
  | @raw e he =>
      have hend : closing .code 0 (") ?? \"\"".toList ++ '}' :: []) =
          some (") ?? \"\"".toList, []) := by decide
      refine ⟨_, holds_substitution (.inert (by decide) (he.append (closing_eq_some_iff.1 hend).2)), ?_⟩
      rw [hparen]
      exact Shows.raw
  | @component name attributes client himport hname hattributes =>
      cases client with
      | true => exact absurd rfl (hp name attributes)
      | false =>
          have hcall := (balanced_properties hattributes).append (b := [')'])
            (balanced_of_inert (by decide))
          refine ⟨_, holds_substitution ((balanced_of_inert ?_).append (.inert (by decide) hcall)), ?_⟩
          · exact List.all_eq_true.2 fun c hc => isInert_of_isTagChar (hname c hc)
          · have hcode : name ++ '(' :: (properties attributes ++ [')']) =
                name ++ "(".toList ++ properties attributes ++ ")".toList := by
              rw [hparen, ← List.append_assoc, ← List.append_assoc]
              rfl
            rw [hcode]
            intro pieces islands rest hrest
            exact Shows.server (isProperties_properties attributes) hrest

/-- The placeholder of an island holds its markup, the properties being substituted. -/
theorem holds_placeholder {id name : Text} {attributes : List Attribute} (hid : id.all isVerbatim)
    (hname : ∀ c ∈ name, isTagChar c) (hattributes : ∀ a ∈ attributes, Balanced a.value.code) :
    Holds (placeholder id name attributes) (islandParts id name (properties attributes)) := by
  have hname : name.all isVerbatim :=
    List.all_eq_true.2 fun c hc => isVerbatim_of_isTagChar (hname c hc)
  have hmarkup : ("<div data-island=\"".toList ++ id ++ "\" data-component=\"".toList ++ name ++
      "\" data-props=\"".toList).all isVerbatim := by
    simp only [List.all_append, Bool.and_eq_true]
    exact ⟨⟨⟨⟨by decide, hid⟩, by decide⟩, hname⟩, by decide⟩
  have hcode : Balanced ("__esc(JSON.stringify(".toList ++ properties attributes ++ "))".toList) :=
    ((balanced_of_inert (by decide)).append (balanced_properties hattributes)).append
      (balanced_of_inert (by decide))
  have hclose : Holds "\"></div>".toList ("\"></div>".toList.map .char) :=
    holds_verbatim (by decide)
  have hend := (holds_substitution hcode).append hclose (by decide)
  have hshape : placeholder id name attributes = _ ++ (_ ++ _) := List.append_assoc _ _ _
  rw [hshape]
  exact (holds_verbatim hmarkup).append hend (by simp [substitution])

variable {stem : Text} {n : Nat}

theorem Piece.Sound.head?_code (h : p.Sound imports) : p.code.head? ≠ some '{' := by
  cases h with
  | @text t ht =>
      intro hhead
      exact ht (List.mem_of_mem_head? (head?_literal t hhead))
  | _ => simp [Piece.code, substitution]

/-- The code of a body does not begin with a brace, which a dollar sign before it would join. -/
theorem head?_bodyCode (hps : ∀ p ∈ pieces, p.Sound imports) :
    (bodyCode stem n pieces).head? ≠ some '{' := by
  fun_induction bodyCode stem n pieces with
  | case1 => simp
  | case2 n name attributes pieces ih =>
      have hopen : (placeholder (islandId stem n) name attributes).head? = some '<' := rfl
      exact Text.head?_append_ne (by simp [hopen]) (ih fun p hp => hps p (List.mem_cons_of_mem _ hp))
  | case3 n p pieces _ ih =>
      rw [List.forall_mem_cons] at hps
      exact Text.head?_append_ne hps.1.head?_code (ih hps.2)

/-- The code of a body holds what shows its pieces, in their order. -/
theorem exists_shown_body (hstem : stem.all isVerbatim) (hps : ∀ p ∈ pieces, p.Sound imports) :
    ∃ parts, Holds (bodyCode stem n pieces) parts ∧
      Shows pieces (bodyIslands stem imports n pieces) parts := by
  have hdigit : ∀ n, (Text.ofNat n).all isVerbatim := by
    intro n
    refine List.all_eq_true.2 fun c hc => isVerbatim_of_isTagChar ?_
    have hc := Nat.isDigit_of_mem_toDigits (by decide) (by decide) hc
    simp [isTagChar, Char.isAlphanum, hc]
  fun_induction bodyCode stem n pieces with
  | case1 => exact ⟨[], holds_nil, .nil⟩
  | case2 n name attributes pieces ih =>
      rw [List.forall_mem_cons] at hps
      obtain ⟨parts, hholds, hshows⟩ := ih hps.2
      have hid : (islandId stem n).all isVerbatim := by
        simp only [islandId, List.all_append, List.all_cons, Bool.and_eq_true]
        exact ⟨hstem, by decide, hdigit n⟩
      cases hps.1 with
      | component _ hname hattributes =>
          have hisland : Shows (.component name attributes true :: pieces) (_ :: _) _ :=
            Shows.island (i := ⟨islandId stem n, name, declaredPath imports name⟩)
              (isProperties_properties attributes) hshows
          exact ⟨_, (holds_placeholder hid hname hattributes).append hholds (head?_bodyCode hps.2),
            hisland⟩
  | case3 n p pieces hp ih =>
      rw [List.forall_mem_cons] at hps
      obtain ⟨rest, hrest, hshows⟩ := ih hps.2
      obtain ⟨parts, hholds, hpiece⟩ := hps.1.exists_shown fun name attributes h => hp name attributes h
      refine ⟨parts ++ rest, hholds.append hrest (head?_bodyCode hps.2), ?_⟩
      rw [bodyIslands]
      · exact hpiece hshows
      · exact hp

theorem all_isVerbatim_idStem (moduleId : Text) : (idStem moduleId).all isVerbatim := by
  refine List.all_eq_true.2 fun c hc => ?_
  obtain ⟨b, -, hc⟩ := List.mem_flatMap.1 hc
  have hhex : ∀ n < 16, isVerbatim (Text.hexDigit n) := by decide
  have hb := b.toNat_lt
  simp only [List.mem_cons, List.not_mem_nil, or_false] at hc
  rcases hc with rfl | rfl
  · exact hhex _ (by omega)
  · exact hhex _ (by omega)

/-- A module that spells the body of a template: behind the lines that import components stands one
template literal, which is read to the backtick that the module ends it with and shows the pieces. -/
structure Spelled (ext : Extensions) (s : Source) (made : Module) (lines : List Text)
    (parts : List Part) : Prop where
  imported : ∀ line ∈ lines, ∃ i ∈ s.imports, IsImportLine ext i line
  body : ∃ body, made.code = moduleText lines body ∧
    readLiteral (body ++ '\x60' :: epilogue) = some (parts, epilogue)
  shows : Shows s.pieces made.islands parts

/-- The generator spells what has been read. -/
theorem exists_spelled {source : Text} {s : Source} (ext : Extensions) (moduleId : Text)
    (hs : read source = .ok s) :
    ∃ parts, Spelled ext s (generate ext moduleId s.imports s.pieces)
      ((serverImports s.imports s.pieces).map (Import.line ext)) parts := by
  obtain ⟨parts, hholds, hshows⟩ :=
    exists_shown_body (n := 0) (all_isVerbatim_idStem moduleId) (sound_of_read hs)
  refine ⟨parts, ?_, ⟨_, code_generate ext moduleId s.imports s.pieces, ?_⟩, hshows⟩
  · intro line hline
    obtain ⟨i, hi, rfl⟩ := List.mem_map.1 hline
    exact ⟨i, List.filter_sublist.subset hi, isImportLine_line ext i⟩
  · rw [hholds _ (by decide)]
    simp [readLiteral, addParts]

/-- The template literal of a module ends at the backtick that the module ends it with, and what it
holds are the pieces of the template: the characters of the texts, one substitution for each
expression and each component rendered on the server, the markup of the islands. -/
theorem readLiteral_compile {ext : Extensions} {moduleId source : Text} {made : Module}
    (h : compile ext moduleId source = .ok made) :
    ∃ s lines parts, read source = .ok s ∧ Spelled ext s made lines parts := by
  obtain ⟨s, hs, rfl⟩ := map_eq_ok_iff.1 h
  obtain ⟨parts, hspelled⟩ := exists_spelled ext moduleId hs
  exact ⟨s, _, parts, hs, hspelled⟩

/-- A template with text that looks like code, both kinds of expressions, a component with attributes
and an island. -/
def marks : Text :=
  ("---\nimport A from \"./a.pw\"\nimport B from \"./b.pw\"\n---\n" ++
    "\x60$\\\x7ba\x7d\x7b@html b\x7d<A title=\"it's\" n=\x7bx\x7d on/><B client n=\"1\"/>").toList

/-- What is read from it. -/
def markedSource : Source where
  imports := [⟨"A".toList, "./a.pw".toList⟩, ⟨"B".toList, "./b.pw".toList⟩]
  pieces := [.text "\x60$\\".toList, .expr "a".toList, .raw "b".toList,
    .component "A".toList [⟨"title".toList, .text "it's".toList⟩, ⟨"n".toList, .expr "x".toList⟩,
      ⟨"on".toList, .flag⟩] false,
    .component "B".toList [⟨"n".toList, .text "1".toList⟩] true]

theorem readLiteral_compile_marks :
    ∃ made lines parts, compile ⟨"pw".toList, "js".toList⟩ "page".toList marks = .ok made ∧
      Spelled ⟨"pw".toList, "js".toList⟩ markedSource made lines parts := by
  have hread : read marks = .ok markedSource := by decide +kernel
  have hmade : compile ⟨"pw".toList, "js".toList⟩ "page".toList marks = .ok _ :=
    map_eq_ok_iff.2 ⟨_, hread, rfl⟩
  obtain ⟨s, lines, parts, hs, hspelled⟩ := readLiteral_compile hmade
  obtain rfl := Except.ok.inj (hread.symm.trans hs)
  exact ⟨_, lines, parts, hmade, hspelled⟩

end Template

end Quire
