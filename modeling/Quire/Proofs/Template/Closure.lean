import Quire.Proofs.Template.Literal

/-!
What a module binds and what it leaves to the browser. The import lines at the head of a module bind
the components that it renders on the server, and its islands are the uses that its placeholders
stand for. Main statement: for each template that becomes a module, the import lines, the
placeholders and the reported islands agree with one another and with the header.
-/

namespace Quire

namespace Template

/-- The lines of a module that import components: those before the first that imports nothing. -/
def importLinesOf (code : Text) : List Text :=
  code.wholeLines.takeWhile fun l => "import ".toList.isPrefixOf l

/-- The name that an import line binds. -/
def boundName (line : Text) : Text := (line.drop "import ".toList.length).takeWhile (· ≠ ' ')

variable {ext : Extensions} {i : Import} {imports : List Import} {t rest : Text}
  {pieces : List Piece} {stem name moduleId source : Text} {n : Nat} {s : Source}

theorem newline_not_mem_quoted (t : Text) : '\n' ∉ Text.quoted t := by
  have hescape : ∀ c, '\n' ∉ Text.escape c := by
    intro c
    have hdigit : ∀ n < 16, '\n' ≠ Text.hexDigit n := by decide
    rcases Text.escape_cases c with ⟨d, hd, hescape⟩ | ⟨m, hm, n, hn, hescape⟩ |
      ⟨-, -, hnewline, hescape⟩
    · simp [hescape, hd.symm]
    · simp [hescape, hdigit m hm, hdigit n hn]
    · simp [hescape, hnewline.symm]
  simp only [Text.quoted, List.mem_cons, List.mem_append, List.mem_flatMap, List.not_mem_nil,
    or_false, not_or, not_exists, not_and]
  exact ⟨by decide, fun c _ => hescape c, by decide⟩

theorem importLinesOf_eq_nil (h : t.head? ≠ some 'i') : importLinesOf t = [] := by
  cases t with
  | nil => rfl
  | cons c t =>
      obtain ⟨l, ls, hlines⟩ := Text.wholeLines_cons c t
      have hc : c ≠ 'i' := fun hc => h (by rw [hc]; rfl)
      have hhead : ¬ "import ".toList.isPrefixOf (c :: l) := by
        rw [show "import ".toList = 'i' :: "mport ".toList by decide, List.isPrefixOf,
          beq_eq_false_iff_ne.2 (Ne.symm hc), Bool.false_and]
        exact Bool.false_ne_true
      rw [importLinesOf, hlines, List.takeWhile_cons_of_neg hhead]

theorem line_eq_concat (ext : Extensions) (hname : ∀ c ∈ i.name, isNameChar c) :
    ∃ front, i.line ext = front ++ ['\n'] ∧ '\n' ∉ front := by
  have hassoc : ∀ (a b c d : Text) (x y : Char),
      a ++ b ++ c ++ d ++ [x, y] = (a ++ b ++ c ++ d ++ [x]) ++ [y] := by simp
  refine ⟨_, hassoc _ _ _ _ ';' '\n', ?_⟩
  simp only [List.mem_append, not_or]
  refine ⟨⟨⟨⟨by decide, fun hmem => ?_⟩, by decide⟩, newline_not_mem_quoted _⟩, by decide⟩
  cases hname _ hmem

theorem importLinesOf_line (hname : ∀ c ∈ i.name, isNameChar c) :
    importLinesOf (i.line ext ++ rest) = i.line ext :: importLinesOf rest := by
  have hprefix : "import ".toList.isPrefixOf (i.line ext) :=
    List.isPrefixOf_iff_prefix.2 ⟨_, line_eq_append.symm⟩
  obtain ⟨front, hline, hnewline⟩ := line_eq_concat ext hname
  have hwhole : (i.line ext ++ rest).wholeLines = i.line ext :: rest.wholeLines := by
    rw [hline, List.append_assoc]
    exact Text.wholeLines_append hnewline rest
  rw [importLinesOf, hwhole, List.takeWhile_cons_of_pos hprefix]
  rfl

theorem boundName_line (hname : ∀ c ∈ i.name, isNameChar c) : boundName (i.line ext) = i.name := by
  have hblank : ∀ c ∈ i.name, decide (c ≠ ' ') := by
    intro c hc
    refine decide_eq_true fun hspace => ?_
    rw [hspace] at hc
    cases hname _ hc
  have hrest : (i.line ext).drop "import ".toList.length = i.name ++ (" from ".toList ++
      (Text.quoted (ext.specifier i.path) ++ ";\n".toList)) := by
    rw [line_eq_append]
    exact List.drop_left
  rw [boundName, hrest]
  exact Text.takeWhile_run hblank (Text.stopsAt_cons.2 (by decide))

theorem importLinesOf_block {used : List Import} (hused : ∀ i ∈ used, ∀ c ∈ i.name, isNameChar c)
    (hrest : rest.head? ≠ some 'i') :
    importLinesOf (importBlock ext used ++ rest) = used.map (Import.line ext) := by
  have hlines : ∀ {rest : Text}, rest.head? ≠ some 'i' →
      importLinesOf ((used.map (Import.line ext)).flatten ++ rest) = used.map (Import.line ext) := by
    intro rest hrest
    induction used with
    | nil => exact importLinesOf_eq_nil hrest
    | cons i used ih =>
        rw [List.forall_mem_cons] at hused
        rw [List.map_cons, List.flatten_cons, List.append_assoc, importLinesOf_line hused.1,
          ih hused.2]
  rw [importBlock_eq, List.append_assoc]
  split
  · exact hlines hrest
  · exact hlines (by simp)

theorem name_of_mem_bodyIslands {island : Island} (h : island ∈ bodyIslands stem imports n pieces) :
    ∃ attributes, .component island.name attributes true ∈ pieces ∧
      island.path = declaredPath imports island.name := by
  fun_induction bodyIslands stem imports n pieces with
  | case1 => cases h
  | case2 n name attributes pieces ih =>
      rcases List.mem_cons.1 h with rfl | h
      · exact ⟨attributes, List.mem_cons_self, rfl⟩
      · obtain ⟨attributes, hmem, hpath⟩ := ih h
        exact ⟨attributes, List.mem_cons_of_mem _ hmem, hpath⟩
  | case3 n p pieces _ ih =>
      obtain ⟨attributes, hmem, hpath⟩ := ih h
      exact ⟨attributes, List.mem_cons_of_mem p hmem, hpath⟩

/-- Among imports under distinct names, a name has the path that it was imported with. -/
theorem eq_of_declaredPath (hdistinct : (imports.map (·.name)).Nodup)
    (hname : name ∈ imports.map (·.name)) :
    ⟨name, declaredPath imports name⟩ ∈ imports ∧
      ∀ i ∈ imports, i.name = name → i = ⟨name, declaredPath imports name⟩ := by
  obtain ⟨j, hj, rfl⟩ := List.mem_map.1 hname
  have hone : ∀ i ∈ imports, i.name = j.name → i = j := fun i hi h =>
    List.inj_on_of_nodup_map hdistinct hi hj h
  have hfind : declaredPath imports j.name = j.path := by
    cases hfound : imports.find? (·.name = j.name) with
    | none =>
        have hnot := List.find?_eq_none.1 hfound j hj
        simp at hnot
    | some i =>
        have hi := hone i (List.mem_of_find?_eq_some hfound)
          (by simpa using List.find?_some hfound)
        simp [declaredPath, hfound, hi]
  rw [hfind]
  exact ⟨hj, hone⟩

theorem exists_serverUse : pieces.any (isServerUse name) ↔
    ∃ attributes, .component name attributes false ∈ pieces := by
  rw [List.any_eq_true]
  constructor
  · rintro ⟨p, hp, huse⟩
    unfold isServerUse at huse
    split at huse
    · next n attributes =>
        obtain rfl : n = name := of_decide_eq_true huse
        exact ⟨attributes, hp⟩
    · cases huse
  · rintro ⟨attributes, hp⟩
    exact ⟨_, hp, decide_eq_true rfl⟩

theorem importLinesOf_generate (hnames : ∀ i ∈ imports, ∀ c ∈ i.name, isNameChar c) :
    importLinesOf (generate ext moduleId imports pieces).code =
      (serverImports imports pieces).map (Import.line ext) := by
  have hhelper : ∀ t : Text, (escapeHelper ++ t).head? = some 'c' := fun _ => rfl
  simp only [generate, List.append_assoc]
  refine importLinesOf_block (fun i hi => hnames i (List.mem_of_mem_filter hi)) ?_
  rw [hhelper]
  decide

theorem isNameChar_of_read (h : read source = .ok s) : ∀ i ∈ s.imports, ∀ c ∈ i.name, isNameChar c :=
  fun i hi => ((imports_of_read h).2 i hi).elim fun _ hmeans => hmeans.isNameChar

/-- The names that the import lines of a module bind are those of the components that it renders on
the server. -/
theorem boundNames_of_read (h : read source = .ok s) :
    (importLinesOf (generate ext moduleId s.imports s.pieces).code).map boundName =
      (serverImports s.imports s.pieces).map (·.name) := by
  have hnames := isNameChar_of_read h
  rw [importLinesOf_generate hnames, List.map_map]
  exact List.map_congr_left fun i hi => boundName_line (hnames i (List.mem_of_mem_filter hi))

theorem mem_boundNames (h : read source = .ok s) :
    name ∈ (serverImports s.imports s.pieces).map (·.name) ↔
      ∃ attributes, .component name attributes false ∈ s.pieces := by
  simp only [List.mem_map, serverImports, List.mem_filter, exists_serverUse]
  constructor
  · rintro ⟨i, ⟨-, huse⟩, rfl⟩
    exact huse
  · rintro ⟨attributes, huse⟩
    cases sound_of_read h _ huse with
    | component himport =>
        obtain ⟨i, hi, rfl⟩ := List.mem_map.1 himport
        exact ⟨i, ⟨hi, attributes, huse⟩, rfl⟩

/-- A module whose import lines, placeholders and islands agree with the header and the body of the
template. The ids of the islands begin as given. -/
structure Closed (ext : Extensions) (stem : Text) (s : Source) (made : Module) : Prop where
  /-- The import lines are those of the imports with a use on the server, in the order of the
  header. -/
  lines : ∃ used : List Import, List.Forall₂ (IsImportLine ext) used (importLinesOf made.code) ∧
    used.Sublist s.imports ∧
    ∀ i ∈ s.imports, i ∈ used ↔ ∃ attributes, .component i.name attributes false ∈ s.pieces
  /-- No two import lines bind one name. -/
  distinct : ((importLinesOf made.code).map boundName).Nodup
  /-- Each component that the body calls is bound by one import line. -/
  bound : ∀ name attributes, .component name attributes false ∈ s.pieces →
    ((importLinesOf made.code).map boundName).count name = 1
  /-- Behind these lines stands the body, with a placeholder for each island and none besides. -/
  emitted : ∃ parts, Spelled ext s made (importLinesOf made.code) parts
  /-- The islands are numbered from zero on. -/
  ids : made.islands.map (·.id) =
    (List.range made.islands.length).map fun n => stem ++ "-".toList ++ Nat.toDigits 10 n
  /-- Each island has the name and the path of the one import of that name. -/
  declared : ∀ island ∈ made.islands, island.path ≠ [] ∧ ⟨island.name, island.path⟩ ∈ s.imports ∧
    ∀ i ∈ s.imports, i.name = island.name → i = ⟨island.name, island.path⟩

/-- What the ids of a module begin with: in hexadecimal digits, the first eight bytes of the hash of
the module's own id. -/
def idBeginning (moduleId : Text) : Text :=
  Digest.hexText ((Digest.Blake3.hash moduleId.toBytes.toList).take 8)

theorem ids_eq_range {moduleId source : Text} {made : Module}
    (h : compile ext moduleId source = .ok made) : made.islands.map (·.id) =
      (List.range made.islands.length).map fun n =>
        idBeginning moduleId ++ "-".toList ++ Nat.toDigits 10 n := by
  rw [ids_of_compile h, islandIds]
  refine List.map_congr_left fun n _ => ?_
  rw [islandId, List.append_assoc]
  rfl

/-- Each template that becomes a module becomes one that binds what it calls, and that reports what
its placeholders stand for. -/
theorem closed_compile {moduleId source : Text} {made : Module}
    (h : compile ext moduleId source = .ok made) :
    ∃ s, read source = .ok s ∧ Closed ext (idBeginning moduleId) s made := by
  have hids := ids_eq_range h
  obtain ⟨s, hs, rfl⟩ := map_eq_ok_iff.1 h
  obtain ⟨hdistinct, hlines⟩ := imports_of_read hs
  have hsound := sound_of_read hs
  have hused : (serverImports s.imports s.pieces).Sublist s.imports := List.filter_sublist
  have hblock : importLinesOf (generate ext moduleId s.imports s.pieces).code =
      (serverImports s.imports s.pieces).map (Import.line ext) :=
    importLinesOf_generate (isNameChar_of_read hs)
  have hbound : (importLinesOf (generate ext moduleId s.imports s.pieces).code).map boundName =
      (serverImports s.imports s.pieces).map (·.name) := boundNames_of_read hs
  refine ⟨s, hs, ⟨?_, ?_, ?_, ?_, hids, ?_⟩⟩
  · refine ⟨_, ?_, hused, fun i hi => ?_⟩
    · rw [hblock]
      exact List.forall₂_map_right_iff.2 (List.forall₂_same.2 fun i _ => isImportLine_line ext i)
    · rw [serverImports, List.mem_filter, exists_serverUse]
      exact and_iff_right hi
  · rw [hbound]
    exact hdistinct.sublist (hused.map _)
  · intro name attributes hp
    rw [hbound]
    exact List.count_eq_one_of_mem (hdistinct.sublist (hused.map _))
      ((mem_boundNames hs).2 ⟨attributes, hp⟩)
  · rw [hblock]
    exact exists_spelled ext moduleId hs
  · intro island hisland
    obtain ⟨attributes, hp, hpath⟩ := name_of_mem_bodyIslands hisland
    cases hsound _ hp with
    | component himport =>
        obtain ⟨hmem, hone⟩ := eq_of_declaredPath hdistinct himport
        rw [hpath]
        obtain ⟨t, hmeans⟩ := hlines _ hmem
        exact ⟨hmeans.path_ne_nil, hmem, hone⟩

theorem closed_compile_mixed :
    ∃ made, compile ⟨"pw".toList, "js".toList⟩ "page".toList
        "---\nimport A from \"./a.pw\"\nimport B from \"./b\"\n---\n<A/><B client/>".toList = .ok made ∧
      Closed ⟨"pw".toList, "js".toList⟩ (idBeginning "page".toList)
        ⟨[⟨"A".toList, "./a.pw".toList⟩, ⟨"B".toList, "./b".toList⟩],
          [.component "A".toList [] false, .component "B".toList [] true]⟩ made := by
  have hread : read
      "---\nimport A from \"./a.pw\"\nimport B from \"./b\"\n---\n<A/><B client/>".toList =
      .ok ⟨[⟨"A".toList, "./a.pw".toList⟩, ⟨"B".toList, "./b".toList⟩],
        [.component "A".toList [] false, .component "B".toList [] true]⟩ := by decide +kernel
  have hmade : compile ⟨"pw".toList, "js".toList⟩ "page".toList
      "---\nimport A from \"./a.pw\"\nimport B from \"./b\"\n---\n<A/><B client/>".toList = .ok _ :=
    map_eq_ok_iff.2 ⟨_, hread, rfl⟩
  obtain ⟨s, hs, hclosed⟩ := closed_compile hmade
  obtain rfl := Except.ok.inj (hread.symm.trans hs)
  exact ⟨_, hmade, hclosed⟩

end Template

end Quire
