import Quire.Proofs.Script.Reading
import Quire.Route.Table

/-!
The table of routes as a script. Main statement: `isModule_render`, since a table is made of
imports and of two declarations whatever its routes are called.
-/

namespace Quire.Route

open Script Script.Reads Script.Grammar
open Interchange (Value)
open Text (quoted)

variable {r r' : Reader} {t u w rest binding reference ext : Text} {self : Rules} {c : Char}

/-! The names in a table. -/

theorem all_isWordPart_ofNat (n : Nat) : (Text.ofNat n).all isWordPart := by
  refine List.all_eq_true.2 fun c hc => ?_
  have hdigit : c.isDigit := Nat.isDigit_of_mem_toDigits (by decide) (by decide) hc
  simp [isWordPart, toNat_lt_of_isDigit hdigit, hdigit]

/-- The names that modules are imported under: none of them means anything to a script. -/
structure IsBinding (b : Text) : Prop where
  head : b.head? = some 'p' ∨ b.head? = some 'l'
  parts : b.all isWordPart

theorem isBinding_page (n : Nat) : IsBinding (pageBinding n) where
  head := .inl rfl
  parts := by
    unfold pageBinding
    rw [List.all_append, all_isWordPart_ofNat]
    decide

theorem isBinding_layout (n : Nat) : IsBinding (layoutBinding n) where
  head := .inr rfl
  parts := by
    unfold layoutBinding
    rw [List.all_append, all_isWordPart_ofNat]
    decide

theorem IsBinding.ne (h : IsBinding t) {x : Text} (hx : x.head? ≠ some 'p' ∧ x.head? ≠ some 'l') :
    t ≠ x := by
  rintro rfl
  exact h.head.elim hx.1 hx.2

theorem IsBinding.isNaming (h : IsBinding t) : Script.isNaming t := by
  have hreserved : ∀ x ∈ reservedWords, x.head? ≠ some 'p' ∧ x.head? ≠ some 'l' := by decide
  have hnot : t ∉ reservedWords := fun ht => h.ne (hreserved t ht) rfl
  simp [Script.isNaming, hnot]

theorem IsBinding.not_kept (h : IsBinding t) :
    t ∉ ["async", "await", "yield"].map String.toList := by
  have hkept : ∀ x ∈ ["async", "await", "yield"].map String.toList,
      x.head? ≠ some 'p' ∧ x.head? ≠ some 'l' := by decide
  exact fun ht => h.ne (hkept t ht) rfl

theorem IsBinding.exists_cons (h : IsBinding t) :
    ∃ c w, t = c :: w ∧ c.isAlpha ∧ w.all isWordPart := by
  cases t with
  | nil => exact absurd h.head (by decide)
  | cons c w =>
      have hparts := h.parts
      rw [List.all_cons, Bool.and_eq_true] at hparts
      refine ⟨c, w, rfl, ?_, hparts.2⟩
      rcases h.head with h | h <;> cases h <;> decide

theorem IsBinding.starts (h : IsBinding t) (hu : Stops u) : Starts (t ++ u) (.word t false) u := by
  obtain ⟨c, w, rfl, hc, hw⟩ := h.exists_cons
  exact starts_word hc hw hu

theorem IsBinding.passes (h : IsBinding t) (depth : Nat) :
    Passes (parse (depth + 2) .assignment) t := by
  have hname := h.isNaming
  have hkept := h.not_kept
  obtain ⟨c, w, rfl, hc, hw⟩ := h.exists_cons
  exact passes_name depth hc hw hname hkept

/-! The values in a table. -/

theorem passes_tableEntry (depth level n : Nat) (route : Route) :
    Passes (parse (depth + 4) .assignment) ((tableEntry route n).write level) := by
  refine passes_object (depth + 2) level _ fun f hf => ?_
  simp only [List.mem_cons, List.not_mem_nil, or_false] at hf
  rcases hf with rfl | rfl | rfl
  · exact passes_quoted depth _
  · exact (isBinding_page n).passes depth
  · cases route.layout with
    | none => exact passes_null depth
    | some layout => exact (isBinding_layout n).passes depth

theorem passes_metadataEntry (depth level : Nat) (route : Route) :
    Passes (parse (depth + 4) .assignment) ((metadataEntry route).write level) := by
  refine passes_object (depth + 2) level _ fun f hf => ?_
  simp only [List.mem_cons, List.not_mem_nil, or_false] at hf
  rcases hf with rfl | rfl | rfl
  · exact passes_quoted depth _
  · exact passes_quoted depth _
  · cases route.layout with
    | none => exact passes_null depth
    | some layout => exact passes_quoted depth layout

/-! Imports. -/

theorem stops_blank (u : Text) : Stops (' ' :: u) := by simp [Stops]; decide

/-- A plain word with a blank behind it. -/
theorem starts_plain {k : Text} (hk : k.head?.any Char.isAlpha ∧ k.all isWordPart) (u : Text) :
    Starts (k ++ ' ' :: u) (.word k false) (' ' :: u) := by
  obtain ⟨hhead, hall⟩ := hk
  cases k with
  | nil => exact absurd hhead (by decide)
  | cons c w =>
      rw [List.all_cons, Bool.and_eq_true] at hall
      exact starts_word hhead hall.2 (stops_blank u)

theorem endOfStatement_of_faces (h : r.Faces (';' :: u)) :
    endOfStatement r = some ((), r.facing u) := by
  have hstarts : Starts (';' :: u) (.mark [';']) u := starts_of_isSolid (by decide) u
  simp [endOfStatement, mayEnd, eatMark, h.lexeme_eq hstarts, h.rest_eq hstarts, Lexeme.isMark]

/-- Nothing is demanded of a module where a statement ends. -/
theorem demands_of_faces (h : r.Faces (';' :: u)) : demands r = some ((), r) := by
  have hstarts : Starts (';' :: u) (.mark [';']) u := starts_of_isSolid (by decide) u
  simp [demands, h.lexeme_eq hstarts, Lexeme.isWord]

/-- Where something comes from is told by a word and a string. -/
theorem source_of_faces {spec : Text}
    (h : r.Faces ("from".toList ++ ' ' :: (quoted spec ++ u))) :
    source r = some ((), r.facing u) := by
  have hfrom := starts_plain (k := "from".toList) (by decide) (quoted spec ++ u)
  have hspec : Starts (' ' :: (quoted spec ++ u)) (.text spec false) u :=
    (starts_quoted spec u).of_gap [' '] rfl
  have hface := r.faces_facing (' ' :: (quoted spec ++ u))
  simp [source, expectWord, eatWord, Reads.string, take_of_plain (h.lexeme_eq hfrom),
    h.lexeme_eq hfrom, h.rest_eq hfrom, hface.lexeme_eq hspec, hface.rest_eq hspec, Lexeme.isWord]

/-- A binding before a blank is the name of the main thing that a module gives. -/
theorem takenMain_of_faces (hbinding : IsBinding w) (h : r.Faces (w ++ ' ' :: u)) :
    takenMain r = some (true, r.facing (' ' :: u)) := by
  have hstarts := hbinding.starts (stops_blank u)
  have hnaming := naming_of_word (h.lexeme_eq hstarts) hbinding.isNaming hbinding.not_kept
  rw [h.rest_eq hstarts] at hnaming
  have hdefer : w ≠ "defer".toList := hbinding.ne (by decide)
  have hsource : w ≠ "source".toList := hbinding.ne (by decide)
  unfold takenMain
  simp only [bind_apply, next_apply, Option.bind_some, h.lexeme_eq hstarts, Lexeme.isNaming,
    hbinding.isNaming, hnaming, if_neg hdefer, hsource, false_and, if_false, if_true, pure_apply]

/-- What is behind the word of an import. -/
def importTail (spec binding u : Text) : Text :=
  binding ++ ' ' :: ("from".toList ++ ' ' :: (quoted spec ++ ';' :: u))

theorem importLine_append (ext binding reference u : Text) :
    importLine ext binding reference ++ u =
      "import".toList ++ ' ' :: importTail (moduleSpecifier ext reference) binding ('\n' :: u) := by
  have himport : "import ".toList = "import".toList ++ [' '] := by decide
  have hfrom : " from ".toList = ' ' :: ("from".toList ++ [' ']) := by decide
  have hend : ";\n".toList = [';', '\n'] := by decide
  unfold importLine
  simp only [importTail, himport, hfrom, hend, List.append_assoc, List.cons_append,
    List.nil_append]

/-- The lines that import something. -/
def importText (ext : Text) (imports : List (Text × Text)) : Text :=
  imports.flatMap fun i => importLine ext i.1 i.2

theorem importText_cons_append (ext : Text) (i : Text × Text) (imports : List (Text × Text))
    (u : Text) : importText ext (i :: imports) ++ u = "import".toList ++ ' ' ::
      importTail (moduleSpecifier ext i.2) i.1 ('\n' :: (importText ext imports ++ u)) := by
  rw [importText, List.flatMap_cons, List.append_assoc, importLine_append]
  rfl

theorem taking_of_faces {spec : Text} (hbinding : IsBinding w)
    (hr : r.Faces ("import".toList ++ ' ' :: importTail spec w u)) :
    taking r = some ((), r.facing u) := by
  have himport := starts_plain (k := "import".toList) (by decide) (importTail spec w u)
  have htake := take_of_plain (hr.lexeme_eq himport)
  rw [hr.rest_eq himport] at htake
  have hname : (r.facing (' ' :: importTail spec w u)).Faces (importTail spec w u) :=
    (r.faces_facing _).of_gap [' '] rfl
  have hword := hname.lexeme_eq (hbinding.starts (stops_blank _))
  have hmain := takenMain_of_faces hbinding hname
  rw [Reader.facing_facing] at hmain
  generalize hbehind : "from".toList ++ ' ' :: (quoted spec ++ ';' :: u) = behind at hmain
  have hfrom : (r.facing (' ' :: behind)).Faces behind := (r.faces_facing _).of_gap [' '] rfl
  have hfromWord : (r.facing (' ' :: behind)).token.lexeme = .word "from".toList false := by
    subst behind
    exact hfrom.lexeme_eq (starts_plain (by decide) _)
  have hbeside : takenBeside true (r.facing (' ' :: behind)) =
      some ((), r.facing (' ' :: behind)) := by
    simp [takenBeside, eatMark, hfromWord, Lexeme.isMark]
  have hsource : source (r.facing (' ' :: behind)) = some ((), r.facing (';' :: u)) := by
    subst behind
    exact source_of_faces hfrom
  have hend := r.faces_facing (';' :: u)
  simp [taking, htake, hword, hmain, hfromWord, hbeside, hsource, demands_of_faces hend,
    endOfStatement_of_faces hend]

theorem statement_of_word (hlexeme : r.token.lexeme = .word w false)
    (h : wordStatement self false w r = some ((), r')) :
    statement self false r = some ((), r') := by
  simp [statement, hlexeme, h]

theorem parse_statement {depth : Nat} (h : statement (parse depth) false r = some ((), r')) :
    parse (depth + 1) (.statement false) r = some (.other, r') := by
  change ((statement (parse depth) false >>= fun _ => pure Expr.other) : Reads Expr) r = _
  rw [bind_apply, h]
  rfl

theorem parse_import {spec : Text} (depth : Nat) (hbinding : IsBinding w)
    (hr : r.Faces ("import".toList ++ ' ' :: importTail spec w u)) :
    parse (depth + 1) (.statement false) r = some (.other, r.facing u) := by
  have himport := starts_plain (k := "import".toList) (by decide) (importTail spec w u)
  have hlexeme := hr.lexeme_eq himport
  have hname := (r.faces_facing (' ' :: importTail spec w u)).of_gap [' '] rfl
  have hword := hname.lexeme_eq (hbinding.starts (stops_blank _))
  have hasync : atAsyncFunction r = some (false, r) := by
    simp [atAsyncFunction, hlexeme, Lexeme.isWord]
  have hat : atTaking r = some (true, r) := by
    simp [atTaking, hlexeme, hr.rest_eq himport, hword, Lexeme.isWord, Lexeme.isMark]
  have hstatement : wordStatement (parse depth) false "import".toList r =
      some ((), r.facing u) := by
    unfold wordStatement
    simp [hasync, hat, taking_of_faces hbinding hr]
  exact parse_statement (statement_of_word hlexeme hstatement)

/-! Declarations. -/

/-- What is behind the words of a declaration that gives a value under a name. -/
def declarationTail (name v u : Text) : Text := name ++ ' ' :: '=' :: ' ' :: (v ++ ';' :: u)

theorem endsExpr_semicolon (u : Text) : EndsExpr (';' :: u) where
  stops := by simp [Stops]; decide
  closes := by
    have hstarts : Starts (';' :: u) (.mark [';']) u := starts_of_isSolid (by decide) u
    rw [hstarts.lexeme]
    decide

/-- A declaration of one name, which is the only one that it binds. -/
theorem declaration_of_faces {depth : Nat} {v : Text} (hc : c.isAlpha) (hw : w.all isWordPart)
    (hname : isNaming (c :: w))
    (hkept : (c :: w) ∉ ["async", "await", "yield"].map String.toList)
    (hvalue : Passes (parse (depth + 1) .assignment) v)
    (hr : r.Faces (declarationTail (c :: w) v u)) :
    declaration (parse (depth + 1)) true r = some ([c :: w], r.facing u) := by
  have hword : Starts (declarationTail (c :: w) v u) (.word (c :: w) false)
      (' ' :: '=' :: ' ' :: (v ++ ';' :: u)) := starts_word hc hw (stops_blank _)
  have hnaming := naming_of_word (hr.lexeme_eq hword) hname hkept
  rw [hr.rest_eq hword] at hnaming
  have hpattern : parse (depth + 1) .pattern r =
      some (.name (c :: w), r.facing (' ' :: '=' :: ' ' :: (v ++ ';' :: u))) := by
    change pattern (parse depth) r = _
    simp [pattern, eatMark, hr.lexeme_eq hword, Lexeme.isMark, hnaming]
  have hequals : Starts (' ' :: '=' :: ' ' :: (v ++ ';' :: u)) (.mark ['='])
      (' ' :: (v ++ ';' :: u)) := (starts_of_isSolid (by decide) _).of_gap [' '] rfl
  have hbehind := r.faces_facing (' ' :: '=' :: ' ' :: (v ++ ';' :: u))
  obtain ⟨e, he⟩ := hvalue.passes _ (';' :: u) (endsExpr_semicolon u)
    ((r.faces_facing (' ' :: (v ++ ';' :: u))).of_gap [' '] rfl)
  have hend := r.faces_facing (';' :: u)
  have hsemicolon : Starts (';' :: u) (.mark [';']) u := starts_of_isSolid (by decide) u
  have hdeclared : declared (parse (depth + 1)) true r =
      some (⟨[.name (c :: w)], false⟩, r.facing (';' :: u)) := by
    rw [Reader.facing_facing] at he
    unfold declared
    simp [hpattern, eatMark, hbehind.lexeme_eq hequals, hbehind.rest_eq hequals, he,
      repeated, hend.lexeme_eq hsemicolon, Lexeme.isMark]
  simp [declaration, hdeclared, endOfStatement_of_faces hend, Expr.namesOf, Expr.names]

theorem parse_declaration {depth : Nat} {v : Text} (hc : c.isAlpha) (hw : w.all isWordPart)
    (hname : isNaming (c :: w))
    (hkept : (c :: w) ∉ ["async", "await", "yield"].map String.toList)
    (hvalue : Passes (parse (depth + 1) .assignment) v)
    (hr : r.Faces ("export".toList ++ ' ' :: ("const".toList ++
      ' ' :: declarationTail (c :: w) v u))) :
    parse (depth + 2) (.statement false) r =
      some (.other, Reader.facing { r with exported := (c :: w) :: r.exported } u) := by
  generalize hbehind : "const".toList ++ ' ' :: declarationTail (c :: w) v u = behind at hr
  have hexport := starts_plain (k := "export".toList) (by decide) behind
  have hlexeme := hr.lexeme_eq hexport
  have htake := take_of_plain hlexeme
  rw [hr.rest_eq hexport] at htake
  have hconst : Starts (' ' :: behind) (.word "const".toList false)
      (' ' :: declarationTail (c :: w) v u) := by
    subst behind
    exact (starts_plain (k := "const".toList) (by decide) _).of_gap [' '] rfl
  have hface := r.faces_facing (' ' :: behind)
  have hfixed := hface.lexeme_eq hconst
  have htakeConst := take_of_plain hfixed
  rw [hface.rest_eq hconst, Reader.facing_facing] at htakeConst
  have hdeclaration := declaration_of_faces hc hw hname hkept hvalue
    ((r.faces_facing (' ' :: declarationTail (c :: w) v u)).of_gap [' '] rfl)
  have hasync : atAsyncFunction (r.facing (' ' :: behind)) =
      some (false, r.facing (' ' :: behind)) := by
    simp [atAsyncFunction, hfixed, Lexeme.isWord]
  have hgiving : giving (parse (depth + 1)) r =
      some ((), Reader.facing { r with exported := (c :: w) :: r.exported } u) := by
    simp [giving, givenDeclared, htake, hfixed, hasync, htakeConst, hdeclaration, exports,
      Lexeme.isWord, Lexeme.isMark]
    rfl
  have hasyncHere : atAsyncFunction r = some (false, r) := by
    simp [atAsyncFunction, hlexeme, Lexeme.isWord]
  have hstatement : wordStatement (parse (depth + 1)) false "export".toList r =
      some ((), Reader.facing { r with exported := (c :: w) :: r.exported } u) := by
    unfold wordStatement
    simp [hasyncHere, hgiving]
  exact parse_statement (statement_of_word hlexeme hstatement)

/-! The whole table. -/

/-- What the table of some routes imports: names, and what is known of the modules. -/
def importsOf (routes : List Route) : List (Text × Text) :=
  routes.zipIdx.flatMap fun (r, n) =>
    (pageBinding n, r.page) :: (r.layout.toList.map fun layout => (layoutBinding n, layout))

theorem flatMap_importLines (ext : Text) (routes : List Route) :
    (routes.zipIdx.flatMap fun (r, n) => importLines ext r n) =
      importText ext (importsOf routes) := by
  rw [importText, importsOf, List.flatMap_assoc]
  congr 1
  funext ⟨route, n⟩
  cases hlayout : route.layout <;> simp [importLines, hlayout]

theorem isBinding_of_mem_importsOf {routes : List Route} {i : Text × Text}
    (h : i ∈ importsOf routes) : IsBinding i.1 := by
  obtain ⟨⟨route, n⟩, -, hi⟩ := List.mem_flatMap.1 h
  rcases List.mem_cons.1 hi with rfl | hi
  · exact isBinding_page n
  · obtain ⟨layout, -, rfl⟩ := List.mem_map.1 hi
    exact isBinding_layout n

/-- What is done for each statement of a script. -/
def scriptStep (depth : Nat) : Unit → Reads (Unit × Bool) := fun () => do
  if (← next) = .finish then return ((), false)
  discard (parse depth (.statement false))
  return ((), true)

theorem script_eq (depth : Nat) : script depth = loop (scriptStep depth) () := rfl

theorem repeated_scriptStep {depth : Nat} {e : Expr} {times : Text} (htimes : times ≠ [])
    (hlexeme : r.token.lexeme ≠ .finish)
    (h : parse depth (.statement false) r = some (e, r')) :
    repeated (scriptStep depth) times () r = repeated (scriptStep depth) (times.drop 1) () r' := by
  obtain ⟨c, times, rfl⟩ := List.exists_cons_of_ne_nil htimes
  simp [repeated, scriptStep, hlexeme, h]

/-- What a reader remembers besides where it is. -/
structure Remembers (r r' : Reader) : Prop where
  faulty : r'.faulty = r.faulty
  initials : r'.initials = r.initials
  exported : r'.exported = r.exported

/-- Imports are read one by one, and nothing is remembered of them. -/
theorem repeated_imports (depth : Nat) (ext u : Text) (imports : List (Text × Text))
    (hbindings : ∀ i ∈ imports, IsBinding i.1) (times : Text)
    (htimes : imports.length < times.length)
    (hr : r.Faces (importText ext imports ++ u)) :
    ∃ r', r'.Faces u ∧ Remembers r r' ∧
      repeated (scriptStep (depth + 1)) times () r =
        repeated (scriptStep (depth + 1)) (times.drop imports.length) () r' := by
  induction imports generalizing times r with
  | nil => exact ⟨r, hr, ⟨rfl, rfl, rfl⟩, rfl⟩
  | cons i imports ih =>
      rw [importText_cons_append] at hr
      have hread := parse_import depth (hbindings _ List.mem_cons_self) hr
      have hword := hr.lexeme_eq (starts_plain (k := "import".toList) (by decide) _)
      rw [repeated_scriptStep (List.ne_nil_of_length_pos (Nat.zero_lt_of_lt htimes))
        (by rw [hword]; exact Lexeme.noConfusion) hread]
      obtain ⟨r', hr', hremembers, hrest⟩ := ih
        (fun i h => hbindings i (List.mem_cons_of_mem _ h)) (times.drop 1)
        (by rw [List.length_drop]; simp at htimes; omega)
        ((r.faces_facing _).of_gap ['\n'] rfl)
      refine ⟨r', hr', ⟨hremembers.faulty, hremembers.initials, hremembers.exported⟩,
        hrest.trans ?_⟩
      rw [List.drop_drop, List.length_cons, Nat.add_comm 1]

/-- What stands behind the imports of a table. -/
def declarations (routes : List Route) : Text :=
  "export".toList ++ ' ' :: ("const".toList ++ ' ' :: declarationTail "routes".toList
    (Value.array (routes.zipIdx.map fun (r, n) => tableEntry r n)).render
    ('\n' :: '\n' :: ("export".toList ++ ' ' :: ("const".toList ++ ' ' ::
      declarationTail "metadata".toList
        (Value.object [("root".toList, .str pagesDir),
          ("routes".toList, .array (routes.map metadataEntry))]).render ['\n']))))

theorem render_eq (ext : Text) (routes : List Route) :
    render ext routes = tableHead ++ '\n' :: (importText ext (importsOf routes) ++
      ((if routes.isEmpty then [] else ['\n']) ++ declarations routes)) := by
  have hroutes : "export const routes = ".toList = "export".toList ++ ' ' :: ("const".toList ++
      ' ' :: ("routes".toList ++ [' ', '=', ' '])) := by decide
  have hmetadata : ";\n\nexport const metadata = ".toList = ';' :: '\n' :: '\n' ::
      ("export".toList ++ ' ' :: ("const".toList ++ ' ' :: ("metadata".toList ++
        [' ', '=', ' ']))) := by decide
  have hend : ";\n".toList = [';', '\n'] := by decide
  unfold render declarations declarationTail
  rw [flatMap_importLines]
  simp only [hroutes, hmetadata, hend, List.append_assoc,
    List.cons_append, List.nil_append]

theorem passes_routes (depth : Nat) (routes : List Route) :
    Passes (parse (depth + 8) .assignment)
      (Value.array (routes.zipIdx.map fun (r, n) => tableEntry r n)).render := by
  refine passes_array (depth + 6) 0 _ fun v hv => ?_
  obtain ⟨⟨route, n⟩, -, rfl⟩ := List.mem_map.1 hv
  exact passes_tableEntry (depth + 2) 1 n route

theorem passes_metadata (depth : Nat) (routes : List Route) :
    Passes (parse (depth + 8) .assignment)
      (Value.object [("root".toList, .str pagesDir),
        ("routes".toList, .array (routes.map metadataEntry))]).render := by
  refine passes_object (depth + 6) 0 _ fun f hf => ?_
  simp only [List.mem_cons, List.not_mem_nil, or_false] at hf
  rcases hf with rfl | rfl
  · exact passes_quoted (depth + 4) _
  · refine passes_array (depth + 4) 1 _ fun v hv => ?_
    obtain ⟨route, -, rfl⟩ := List.mem_map.1 hv
    exact passes_metadataEntry depth 2 route

/-- The two declarations of a table are read to the end. -/
theorem repeated_declarations (depth : Nat) (routes : List Route) (times : Text)
    (htimes : 3 ≤ times.length) (hr : r.Faces (declarations routes)) :
    ∃ r', repeated (scriptStep (depth + 9)) times () r = some ((), r') ∧
      r'.faulty = r.faulty ∧ r'.initials = r.initials ∧
      r'.exported = "metadata".toList :: "routes".toList :: r.exported := by
  have hexport : ∀ x, Starts ("export".toList ++ ' ' :: x) (.word "export".toList false)
      (' ' :: x) := starts_plain (by decide)
  obtain ⟨c, d, e, more, rfl⟩ : ∃ c d e more, times = c :: d :: e :: more := by
    match times, htimes with
    | c :: d :: e :: more, _ => exact ⟨c, d, e, more, rfl⟩
  have hroutes := parse_declaration (c := 'r') (w := "outes".toList) (by decide) (by decide)
    (by decide) (by decide) (passes_routes depth routes) hr
  rw [repeated_scriptStep (List.cons_ne_nil _ _)
    (by rw [hr.lexeme_eq (hexport _)]; exact Lexeme.noConfusion) hroutes]
  generalize hbetween : Reader.mk _ _ _ _ _ _ = between
  have hface := (between.faces_facing ('\n' :: '\n' :: ("export".toList ++ ' ' ::
    ("const".toList ++ ' ' :: declarationTail "metadata".toList
      (Value.object [("root".toList, .str pagesDir),
        ("routes".toList, .array (routes.map metadataEntry))]).render ['\n'])))).of_gap
    ['\n', '\n'] rfl
  have hmetadata := parse_declaration (c := 'm') (w := "etadata".toList) (by decide) (by decide)
    (by decide) (by decide) (passes_metadata depth routes) hface
  rw [List.drop_one, List.tail_cons, repeated_scriptStep (List.cons_ne_nil _ _)
    (by rw [hface.lexeme_eq (hexport _)]; exact Lexeme.noConfusion) hmetadata]
  subst between
  exact ⟨_, rfl, rfl, rfl, rfl⟩

theorem length_le_length_imports (ext u : Text) (imports : List (Text × Text)) :
    5 * imports.length + u.length ≤ (importText ext imports ++ u).length := by
  induction imports with
  | nil => exact Nat.le_of_eq (Nat.zero_add u.length)
  | cons i imports ih =>
      rw [importText_cons_append]
      simp only [importTail, List.length_append, List.length_cons] at ih ⊢
      omega

/-- The text that is left to a reader of imports is long enough for all of them. -/
theorem length_lt_of_imports {gap : Text} (hgap : gap.all isGapChar) (ext : Text)
    (imports : List (Text × Text)) (routes : List Route)
    (hr : r.Faces (importText ext imports ++ (gap ++ declarations routes))) :
    imports.length < r.rest.length := by
  cases imports with
  | nil =>
      rw [(hr.of_gap gap hgap).rest_eq (starts_plain (k := "export".toList) (by decide) _)]
      exact Nat.zero_lt_succ _
  | cons i imports =>
      rw [importText_cons_append] at hr
      rw [hr.rest_eq (starts_plain (k := "import".toList) (by decide) _)]
      have hlength := length_le_length_imports ext (gap ++ declarations routes) imports
      simp only [importTail, List.length_append, List.length_cons] at hlength ⊢
      omega

/-- What the first line of a table says behind the mark of a comment. -/
def headNote : Text := " Generated by pagewright. Do not edit.".toList

theorem tableHead_append (u : Text) : tableHead ++ u = '/' :: '/' :: (headNote ++ '\n' :: u) := by
  have hhead : tableHead = '/' :: '/' :: (headNote ++ ['\n']) := by decide
  rw [hhead]
  simp only [List.cons_append, List.append_assoc, List.nil_append]

theorem faces_of_tableHead (h : r.Faces (tableHead ++ '\n' :: u)) : r.Faces u := by
  rw [tableHead_append] at h
  obtain ⟨hlexeme, hrest⟩ := token_of_comment (t := headNote) (by decide) ('\n' :: u)
  have hface : r.Faces ('\n' :: u) := ⟨h.lexeme.trans hlexeme, h.rest.trans hrest⟩
  exact hface.of_gap ['\n'] rfl

/-- A table is a script, whatever its routes are called. -/
theorem isModule_render (ext : Text) (routes : List Route) : isModule (render ext routes) := by
  obtain ⟨depth, hdepth⟩ : ∃ depth, 8 * ((render ext routes).length + 2) = depth + 9 :=
    ⟨8 * ((render ext routes).length + 2) - 9, by omega⟩
  have hgap : (if routes.isEmpty then [] else ['\n']).all isGapChar := by
    cases routes.isEmpty <;> decide
  have hfirst : firstToken (render ext routes) = token (render ext routes) := by
    rw [render_eq, tableHead_append]
    rfl
  obtain ⟨reader, hreader⟩ : ∃ reader : Reader, reader =
      { token := (token (render ext routes)).1, rest := (token (render ext routes)).2 } := ⟨_, rfl⟩
  have hface : reader.Faces (importText ext (importsOf routes) ++
      ((if routes.isEmpty then [] else ['\n']) ++ declarations routes)) := by
    apply faces_of_tableHead
    rw [← render_eq, hreader]
    exact ⟨rfl, rfl⟩
  have hlength := length_lt_of_imports hgap ext (importsOf routes) routes hface
  obtain ⟨between, hbetween, hremembers, himports⟩ := repeated_imports (depth + 8) ext _
    (importsOf routes) (fun i => isBinding_of_mem_importsOf) (' ' :: ' ' :: reader.rest)
    (by simp only [List.length_cons]; omega) hface
  obtain ⟨last, hlast, hfaulty, hinitials, hexported⟩ := repeated_declarations depth routes
    ((' ' :: ' ' :: reader.rest).drop (importsOf routes).length)
    (by simp only [List.length_drop, List.length_cons]; omega) (hbetween.of_gap _ hgap)
  have hscript : script (depth + 9) reader = some ((), last) := by
    rw [script_eq, loop_apply, himports, hlast]
  have hnames : ["metadata".toList, "routes".toList].eraseDups =
      ["metadata".toList, "routes".toList] := by decide
  have hsound : last.isSound := by
    rw [hremembers.faulty, hreader] at hfaulty
    rw [hremembers.initials, hreader] at hinitials
    rw [hremembers.exported, hreader] at hexported
    simp only [Reader.isSound, hfaulty, hinitials, hexported, hnames, Bool.not_false, decide_true,
      Bool.and_self]
  rw [isModule, hfirst, hdepth]
  dsimp only
  rw [← hreader, hscript]
  exact hsound

end Quire.Route
