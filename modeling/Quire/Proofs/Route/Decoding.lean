import Quire.Proofs.Interchange.Statements
import Quire.Proofs.Route.Tabling
import Quire.Proofs.Template.Islands

/-!
The table of routes read back: what it imports under which names, and its two values, of which only
the rows of routes hold names instead of strings. Main statement: `decodes_render`, since a table
gives back the routes that it was made of, twice and in their order.
-/

namespace Quire.Route

open Interchange
open Script (isWordStart isWordPart)

variable {α β γ : Type} {t u gap ext : Text} {n : Nat} {v : Value} {script : Text → Bool}

/-! The reader. -/

/-- What a table says: the modules that it imports, each behind its name, and its two values. -/
structure Table where
  imports : List (Text × Text)
  routes : Value
  metadata : Value

/-- A text without the comment at its beginning, if there is one. -/
def dropNote : Text → Text
  | '/' :: '/' :: t => t.dropWhile (· ≠ '\n')
  | t => t

/-- Whether a field of a row holds a name. -/
def isLink (name : Text) : Bool := name = "page".toList || name = "layout".toList

/-- A whole table. -/
def readTable (t : Text) : Option Table := do
  let (imports, t) ← readImports t.length (dropNote t)
  let (routes, t) ← readDeclaration "routes".toList isLink t
  let (metadata, t) ← readDeclaration "metadata".toList (fun _ => false) t
  if skipSpaces t = [] then return ⟨imports, routes, metadata⟩ else none

namespace Table

/-- The names that a node holds where it could hold strings. -/
def namesIn : Value → List Text
  | .object fields => fields.filterMap fun f =>
    match f.2 with
    | .raw code => if code = "null".toList then none else some code
    | _ => none
  | _ => []

/-- The names that the rows of a table hold. -/
def used (t : Table) : List Text :=
  match t.routes with
  | .array rows => rows.flatMap namesIn
  | _ => []

/-- The route of a row, with the modules that its names were imported for. -/
def linkedRow? (imports : List (Text × Text)) : Value → Option Route
  | .object fields => do
    match ["path", "page", "layout"].map fun name => fields.lookup name.toList with
    | [some (.str path), some (.raw page), some (.raw layout)] =>
      let page ← imports.lookup page
      if layout = "null".toList then return ⟨path, page, none⟩
      else return ⟨path, page, some (← imports.lookup layout)⟩
    | _ => none
  | _ => none

/-- The route of a row that holds strings. -/
def listedRow? : Value → Option Route
  | .object fields =>
    match ["path", "page", "layout"].map fun name => fields.lookup name.toList with
    | [some (.str path), some (.str page), some (.str layout)] => some ⟨path, page, some layout⟩
    | [some (.str path), some (.str page), some (.raw code)] =>
      if code = "null".toList then some ⟨path, page, none⟩ else none
    | _ => none
  | _ => none

/-- The routes of a table, by what it imports for them. -/
def linked? (t : Table) : Option (List Route) :=
  match t.routes with
  | .array rows => rows.mapM (linkedRow? t.imports)
  | _ => none

/-- The routes of a table, by what it says of them. -/
def listed? (t : Table) : Option (List Route) :=
  match t.metadata with
  | .object fields =>
    match fields.lookup "routes".toList with
    | some (.array rows) => rows.mapM listedRow?
    | _ => none
  | _ => none

end Table

/-- A route with the modules that its page and its layout stand for: each is found beside the table,
under its reference with the extension behind it. -/
def link (ext : Text) (r : Route) : Route :=
  ⟨r.path, "./".toList ++ r.page ++ '.' :: ext,
    r.layout.map fun layout => "./".toList ++ layout ++ '.' :: ext⟩

/-- A table gives back the routes that it was made of. -/
structure Decodes (ext : Text) (routes : List Route) (t : Table) : Prop where
  nodup : (t.imports.map Prod.fst).Nodup
  once : ∀ b ∈ t.used, (t.imports.map Prod.fst).count b = 1
  linked : t.linked? = some (routes.map (link ext))
  listed : t.listed? = some routes
  agree : t.linked? = t.listed?.map fun listed => listed.map (link ext)

/-! What is imported. -/

/-- The imports of routes that are counted from a given number on. -/
def importsFrom (n : Nat) (routes : List Route) : List (Text × Text) :=
  (routes.zipIdx n).flatMap fun (r, n) =>
    (pageBinding n, r.page) :: (r.layout.toList.map fun layout => (layoutBinding n, layout))

theorem pageBinding_inj {m n : Nat} (h : pageBinding m = pageBinding n) : m = n :=
  Text.ofNat_inj (List.append_cancel_left h)

theorem layoutBinding_inj {m n : Nat} (h : layoutBinding m = layoutBinding n) : m = n :=
  Text.ofNat_inj (List.append_cancel_left h)

theorem pageBinding_ne_layoutBinding (m n : Nat) : pageBinding m ≠ layoutBinding n := by
  intro h
  have hpage : (pageBinding m).head? = some 'p' := rfl
  have hlayout : (layoutBinding n).head? = some 'l' := rfl
  rw [h, hlayout] at hpage
  exact absurd hpage (by decide)

theorem importsFrom_cons (n : Nat) (r : Route) (routes : List Route) :
    importsFrom n (r :: routes) = (pageBinding n, r.page) ::
      (r.layout.toList.map fun layout => (layoutBinding n, layout)) ++
        importsFrom (n + 1) routes := rfl

theorem le_of_mem_importsFrom {n : Nat} {routes : List Route} {i : Text × Text}
    (h : i ∈ importsFrom n routes) :
    ∃ m, n ≤ m ∧ (i.1 = pageBinding m ∨ i.1 = layoutBinding m) := by
  obtain ⟨⟨r, m⟩, hr, hi⟩ := List.mem_flatMap.1 h
  refine ⟨m, List.le_snd_of_mem_zipIdx hr, ?_⟩
  rcases List.mem_cons.1 hi with rfl | hi
  · exact .inl rfl
  · obtain ⟨layout, -, rfl⟩ := List.mem_map.1 hi
    exact .inr rfl

/-- No two modules are imported under one name. -/
theorem nodup_importsFrom (n : Nat) (routes : List Route) :
    ((importsFrom n routes).map Prod.fst).Nodup := by
  induction routes generalizing n with
  | nil => exact List.nodup_nil
  | cons r routes ih =>
      have hlater : ∀ b ∈ (importsFrom (n + 1) routes).map Prod.fst,
          b ≠ pageBinding n ∧ b ≠ layoutBinding n := by
        intro b hb
        obtain ⟨i, hi, rfl⟩ := List.mem_map.1 hb
        obtain ⟨m, hm, hi | hi⟩ := le_of_mem_importsFrom hi
        · rw [hi]
          exact ⟨fun h => by have := pageBinding_inj h; omega, pageBinding_ne_layoutBinding m n⟩
        · rw [hi]
          exact ⟨(pageBinding_ne_layoutBinding n m).symm,
            fun h => by have := layoutBinding_inj h; omega⟩
      rw [importsFrom_cons]
      cases r.layout with
      | none =>
          exact List.nodup_cons.2 ⟨fun h => (hlater _ h).1 rfl, ih (n + 1)⟩
      | some layout =>
          refine List.nodup_cons.2 ⟨fun h => ?_, List.nodup_cons.2 ⟨fun h => ?_, ih (n + 1)⟩⟩
          · rcases List.mem_cons.1 h with h | h
            · exact pageBinding_ne_layoutBinding n n h
            · exact (hlater _ h).1 rfl
          · exact (hlater _ h).2 rfl

theorem lookup_of_mem [BEq α] [LawfulBEq α] {l : List (α × β)} {k : α} {b : β}
    (hnodup : (l.map Prod.fst).Nodup) (h : (k, b) ∈ l) : l.lookup k = some b := by
  obtain ⟨front, rest, rfl⟩ := List.append_of_mem h
  refine List.lookup_eq_some_iff.2 ⟨front, rest, rfl, fun i hi => ?_⟩
  rw [List.map_append, List.map_cons] at hnodup
  have hne := (List.nodup_append.1 hnodup).2.2 i.1 (List.mem_map_of_mem hi) k List.mem_cons_self
  simpa using Ne.symm hne

/-! Rows. -/

theorem mapM_map {f : α → β} {g : β → Option γ} {k : α → γ} {l : List α}
    (h : ∀ a ∈ l, g (f a) = some (k a)) : (l.map f).mapM g = some (l.map k) := by
  induction l with
  | nil => rfl
  | cons a l ih =>
      have hrest := ih fun b hb => h b (List.mem_cons_of_mem a hb)
      simp [h a List.mem_cons_self, hrest]

variable {routes : List Route} {r : Route}

/-- What a table imports, as it is read. -/
def imported (ext : Text) (routes : List Route) : List (Text × Text) :=
  (importsOf routes).map fun i => (i.1, moduleSpecifier ext i.2)

theorem nodup_imported (ext : Text) (routes : List Route) :
    ((imported ext routes).map Prod.fst).Nodup := by
  have hfst : (imported ext routes).map Prod.fst = (importsFrom 0 routes).map Prod.fst := by
    simp [imported, importsOf, importsFrom]
  rw [hfst]
  exact nodup_importsFrom 0 routes

theorem lookup_page (h : (r, n) ∈ routes.zipIdx) :
    (imported ext routes).lookup (pageBinding n) = some (moduleSpecifier ext r.page) := by
  have hmem : (pageBinding n, r.page) ∈ importsOf routes :=
    List.mem_flatMap.2 ⟨(r, n), h, List.mem_cons_self⟩
  exact lookup_of_mem (nodup_imported ext routes) (List.mem_map.2 ⟨_, hmem, rfl⟩)

theorem lookup_layout {layout : Text} (h : (r, n) ∈ routes.zipIdx)
    (hlayout : r.layout = some layout) :
    (imported ext routes).lookup (layoutBinding n) = some (moduleSpecifier ext layout) := by
  have hmem : (layoutBinding n, layout) ∈ importsOf routes :=
    List.mem_flatMap.2 ⟨(r, n), h, List.mem_cons_of_mem _ (by simp [hlayout])⟩
  exact lookup_of_mem (nodup_imported ext routes) (List.mem_map.2 ⟨_, hmem, rfl⟩)

theorem layoutBinding_ne_null (n : Nat) : layoutBinding n ≠ "null".toList :=
  (isBinding_layout n).ne (by decide)

/-- A row links the modules of its route. -/
theorem linkedRow?_tableEntry (h : (r, n) ∈ routes.zipIdx) :
    Table.linkedRow? (imported ext routes) (tableEntry r n) = some (link ext r) := by
  have hpage : (imported ext routes).lookup (pageBinding n) = some (moduleSpecifier ext r.page) :=
    lookup_page h
  have hfields : ∀ layout : Value, (["path", "page", "layout"].map fun name =>
      [("path".toList, Value.str r.path), ("page".toList, .raw (pageBinding n)),
        ("layout".toList, layout)].lookup name.toList) =
        [some (.str r.path), some (.raw (pageBinding n)), some layout] := fun _ => rfl
  have hlink : link ext r =
      ⟨r.path, moduleSpecifier ext r.page, r.layout.map (moduleSpecifier ext)⟩ := rfl
  unfold Table.linkedRow? tableEntry
  dsimp only
  rw [hfields, hlink]
  cases hlayout : r.layout with
  | none => simp [hpage]
  | some layout =>
      have hnull := layoutBinding_ne_null n
      simpa [hpage, lookup_layout h hlayout] using hnull

theorem listedRow?_metadataEntry (r : Route) : Table.listedRow? (metadataEntry r) = some r := by
  obtain ⟨path, page, layout⟩ := r
  cases layout <;> rfl

/-- The names in a row are imported. -/
theorem mem_imported_of_namesIn {b : Text} (h : (r, n) ∈ routes.zipIdx)
    (hb : b ∈ Table.namesIn (tableEntry r n)) : b ∈ (imported ext routes).map Prod.fst := by
  have hmem : ∀ {b spec}, (imported ext routes).lookup b = some spec →
      b ∈ (imported ext routes).map Prod.fst := by
    intro b spec hlookup
    obtain ⟨front, rest, heq, -⟩ := List.lookup_eq_some_iff.1 hlookup
    exact List.mem_map.2 ⟨(b, spec), by simp [heq], rfl⟩
  obtain ⟨f, hf, hname⟩ := List.mem_filterMap.1 hb
  simp only [List.mem_cons, List.not_mem_nil, or_false] at hf
  rcases hf with rfl | rfl | rfl
  · exact absurd hname (by simp)
  · have hpage := (isBinding_page n).ne (by decide : "null".toList.head? ≠ some 'p' ∧ _)
    simp only [hpage, if_false, Option.some.injEq] at hname
    exact hname ▸ hmem (lookup_page h)
  · cases hlayout : r.layout with
    | none => simp [hlayout] at hname
    | some layout =>
        simp only [hlayout, Option.isSome_some, if_true, layoutBinding_ne_null, if_false,
          Option.some.injEq] at hname
        exact hname ▸ hmem (lookup_layout h hlayout)

/-! Statements. -/

theorem IsBinding.isWord (h : IsBinding t) : IsWord t where
  parts := List.all_eq_true.1 h.parts
  start := by rcases h.head with h | h <;> rw [h] <;> decide

/-- Imports are read one by one, up to what is none. -/
theorem readImports_importText (ext u : Text) (imports : List (Text × Text))
    (hbindings : ∀ i ∈ imports, IsBinding i.1)
    (hu : ∀ gap : Text, (∀ c ∈ gap, isSpace c) → readWord "import".toList (gap ++ u) = none)
    (n : Nat) (hn : imports.length ≤ n) (gap : Text) (hgap : ∀ c ∈ gap, isSpace c) :
    ∃ gap' : Text, (∀ c ∈ gap', isSpace c) ∧
      readImports n (gap ++ (importText ext imports ++ u)) =
        some (imports.map fun i => (i.1, moduleSpecifier ext i.2), gap' ++ u) := by
  induction imports generalizing n gap with
  | nil =>
      refine ⟨gap, hgap, ?_⟩
      cases n with
      | zero => rfl
      | succ n =>
          have hnone := hu gap hgap
          have htext : gap ++ (importText ext [] ++ u) = gap ++ u := rfl
          rw [htext, readImports, hnone]
          rfl
  | cons i imports ih =>
      obtain ⟨n, rfl⟩ : ∃ m, n = m + 1 := ⟨n - 1, by simp at hn; omega⟩
      have hword := readWord_word (isWord_keywords "import" (by decide)) hgap
        (importTail (moduleSpecifier ext i.2) i.1 ('\n' :: (importText ext imports ++ u)))
      have hread : readImport (gap ++ ("import".toList ++ ' ' :: importTail
          (moduleSpecifier ext i.2) i.1 ('\n' :: (importText ext imports ++ u)))) =
            some ((i.1, moduleSpecifier ext i.2), '\n' :: (importText ext imports ++ u)) :=
        readImport_statement hgap (hbindings i List.mem_cons_self).isWord _ _
      obtain ⟨gap', hgap', hrest⟩ := ih (fun i h => hbindings i (List.mem_cons_of_mem _ h)) n
        (Nat.le_of_succ_le_succ hn) ['\n'] (List.forall_mem_singleton.2 (by decide))
      rw [List.singleton_append] at hrest
      refine ⟨gap', hgap', ?_⟩
      rw [importText_cons_append, readImports, hword]
      dsimp only
      rw [hread]
      simp [hrest]

theorem readDeclaration_declarationTail {name : Text} (hname : IsWord name)
    (hv : Legible script v) (hgap : ∀ c ∈ gap, isSpace c) (u : Text) :
    readDeclaration name script (gap ++ ("export".toList ++ ' ' :: ("const".toList ++ ' ' ::
      declarationTail name v.render u))) = some (v, u) := by
  have hexport := readWord_word (isWord_keywords "export" (by decide)) hgap
    ("const".toList ++ ' ' :: declarationTail name v.render u)
  have hconst := readWord_blank (isWord_keywords "const" (by decide))
    (declarationTail name v.render u)
  have hword := readWord_blank hname ('=' :: ' ' :: (v.render ++ ';' :: u))
  have hequals : readMark '=' (' ' :: '=' :: ' ' :: (v.render ++ ';' :: u)) =
      some (' ' :: (v.render ++ ';' :: u)) := rfl
  have hvalue : readValue script (' ' :: (v.render ++ ';' :: u)).length
      ([' '] ++ (v.render ++ ';' :: u)) = some (v, ';' :: u) :=
    readValue_write hv 0 _ [' '] (';' :: u) (by simp [Value.render]; omega)
      (List.forall_mem_singleton.2 (by decide)) (ends_cons.2 (by simp))
  have hmark : readMark ';' (';' :: u) = some u := rfl
  rw [List.singleton_append] at hvalue
  unfold readDeclaration
  simp only [Option.bind_eq_bind, hexport, hconst, Option.bind_some]
  simp only [declarationTail, hword, hequals, hvalue, hmark, Option.bind_some]
  rfl

/-! The values of a table. -/

theorem IsBinding.isScript (h : IsBinding t) : IsScript t where
  runs := runs_word h.parts 0
  head := by
    obtain ⟨c, rest, rfl, hc, -⟩ := h.exists_cons
    refine ⟨c, rest, rfl, ?_⟩
    rcases h.head with h | h <;> cases h <;> decide

theorem isScript_null : IsScript "null".toList where
  runs := runs_word (by decide) 0
  head := ⟨'n', _, rfl, by decide⟩

theorem legible_tableEntry (r : Route) (n : Nat) : Legible isLink (tableEntry r n) := by
  refine .object (fun f hf hname => ?_) fun f hf hname => ?_
  · simp only [List.mem_cons, List.not_mem_nil, or_false] at hf
    rcases hf with rfl | rfl | rfl
    · exact absurd hname Bool.false_ne_true
    · exact ⟨_, rfl, (isBinding_page n).isScript⟩
    · refine ⟨_, rfl, ?_⟩
      cases r.layout with
      | none => exact isScript_null
      | some layout => exact (isBinding_layout n).isScript
  · simp only [List.mem_cons, List.not_mem_nil, or_false] at hf
    rcases hf with rfl | rfl | rfl
    · exact .str _
    · exact absurd rfl hname
    · exact absurd rfl hname

theorem legible_metadataEntry (r : Route) : Legible (fun _ => false) (metadataEntry r) := by
  refine .object (fun _ _ hf => nomatch hf) fun f hf _ => ?_
  simp only [List.mem_cons, List.not_mem_nil, or_false] at hf
  rcases hf with rfl | rfl | rfl
  · exact .str _
  · exact .str _
  · cases r.layout with
    | none => exact .null
    | some layout => exact .str layout

/-- The rows of some routes. -/
def rowsOf (routes : List Route) : Value :=
  .array (routes.zipIdx.map fun (r, n) => tableEntry r n)

/-- What is said of some routes. -/
def metadataOf (routes : List Route) : Value :=
  .object [("root".toList, .str pagesDir), ("routes".toList, .array (routes.map metadataEntry))]

/-- What the table of some routes says. -/
def tableOf (ext : Text) (routes : List Route) : Table :=
  ⟨imported ext routes, rowsOf routes, metadataOf routes⟩

theorem linked?_tableOf (ext : Text) (routes : List Route) :
    (tableOf ext routes).linked? = some (routes.map (link ext)) := by
  have hfirst : routes.map (link ext) = routes.zipIdx.map fun i => link ext i.1 := by
    conv_lhs => rw [← List.zipIdx_map_fst 0 routes, List.map_map]
    rfl
  rw [hfirst]
  exact mapM_map fun _ h => linkedRow?_tableEntry h

theorem listed?_tableOf (ext : Text) (routes : List Route) :
    (tableOf ext routes).listed? = some routes := by
  have hrows : (routes.map metadataEntry).mapM Table.listedRow? = some (routes.map id) :=
    mapM_map fun r _ => listedRow?_metadataEntry r
  rw [List.map_id] at hrows
  exact hrows

/-- Each name in the rows of a table is imported once. -/
theorem count_of_mem_used {b : Text} (h : b ∈ (tableOf ext routes).used) :
    ((imported ext routes).map Prod.fst).count b = 1 := by
  obtain ⟨row, hrow, hb⟩ := List.mem_flatMap.1 h
  obtain ⟨⟨r, n⟩, hr, rfl⟩ := List.mem_map.1 hrow
  exact List.count_eq_one_of_mem (nodup_imported ext routes) (mem_imported_of_namesIn hr hb)

theorem decodes_tableOf (ext : Text) (routes : List Route) :
    Decodes ext routes (tableOf ext routes) where
  nodup := nodup_imported ext routes
  once _ := count_of_mem_used
  linked := linked?_tableOf ext routes
  listed := listed?_tableOf ext routes
  agree := by rw [linked?_tableOf, listed?_tableOf, Option.map_some]

theorem legible_rowsOf (routes : List Route) : Legible isLink (rowsOf routes) :=
  .array fun v hv => by
    obtain ⟨⟨r, n⟩, -, rfl⟩ := List.mem_map.1 hv
    exact legible_tableEntry r n

theorem legible_metadataOf (routes : List Route) :
    Legible (fun _ => false) (metadataOf routes) := by
  refine .object (fun _ _ hf => nomatch hf) fun f hf _ => ?_
  simp only [List.mem_cons, List.not_mem_nil, or_false] at hf
  rcases hf with rfl | rfl
  · exact .str _
  · refine .array fun v hv => ?_
    obtain ⟨r, -, rfl⟩ := List.mem_map.1 hv
    exact legible_metadataEntry r

/-! The whole table. -/

theorem dropNote_tableHead (u : Text) : dropNote (tableHead ++ u) = '\n' :: u := by
  have hnote : ∀ c ∈ headNote, decide (c ≠ '\n') = true := List.all_eq_true.1 (by decide)
  rw [tableHead_append]
  exact Text.dropWhile_run hnote (Text.stopsAt_cons.2 (by decide))

/-- A table is read as what it was made of. -/
theorem readTable_render (ext : Text) (routes : List Route) :
    readTable (render ext routes) = some (tableOf ext routes) := by
  obtain ⟨gap, hgap, hrender⟩ : ∃ gap : Text, (∀ c ∈ gap, isSpace c) ∧ render ext routes =
      tableHead ++ '\n' :: (importText ext (importsOf routes) ++ (gap ++ declarations routes)) := by
    refine ⟨if routes.isEmpty then [] else ['\n'], ?_, render_eq ext routes⟩
    cases routes.isEmpty <;> exact List.all_eq_true.1 (by decide)
  have hlength : (importsOf routes).length ≤ (render ext routes).length := by
    have := length_le_length_imports ext (gap ++ declarations routes) (importsOf routes)
    rw [hrender, List.length_append, List.length_cons]
    omega
  have hnone : ∀ gap' : Text, (∀ c ∈ gap', isSpace c) →
      readWord "import".toList (gap' ++ (gap ++ declarations routes)) = none := by
    intro gap' hgap'
    rw [← List.append_assoc]
    exact readWord_eq_none (isWord_keywords "export" (by decide))
      (fun c hc => (List.mem_append.1 hc).elim (hgap' c) (hgap c)) (by decide) _
  obtain ⟨gap', hgap', himports⟩ := readImports_importText ext (gap ++ declarations routes)
    (importsOf routes) (fun i => isBinding_of_mem_importsOf) hnone _ hlength ['\n', '\n']
    (List.all_eq_true.1 (by decide))
  have hroutes := readDeclaration_declarationTail (isWord_keywords "routes" (by decide))
    (legible_rowsOf routes)
    (fun c hc => (List.mem_append.1 hc).elim (hgap' c) (hgap c) : ∀ c ∈ gap' ++ gap, isSpace c)
    ('\n' :: '\n' :: ("export".toList ++ ' ' :: ("const".toList ++ ' ' ::
      declarationTail "metadata".toList (metadataOf routes).render ['\n'])))
  have hmetadata := readDeclaration_declarationTail (isWord_keywords "metadata" (by decide))
    (legible_metadataOf routes)
    (List.all_eq_true.1 (by decide) : ∀ c ∈ ['\n', '\n'], isSpace c) ['\n']
  rw [List.append_assoc] at hroutes
  have hnote : dropNote (render ext routes) =
      ['\n', '\n'] ++ (importText ext (importsOf routes) ++ (gap ++ declarations routes)) := by
    rw [hrender, dropNote_tableHead]
    rfl
  have hrows : readDeclaration "routes".toList isLink (gap' ++ (gap ++ declarations routes)) = _ :=
    hroutes
  have hend : skipSpaces ['\n'] = [] := rfl
  unfold readTable
  simp only [hnote, himports, hrows, Option.bind_eq_bind, Option.bind_some]
  simp only [List.cons_append, List.nil_append] at hmetadata
  simp only [hmetadata, Option.bind_some, hend, if_true]
  rfl

/-- A table is a script that gives back the routes that it was made of: by what it imports for them,
no two of its modules under one name, and by what it says of them. -/
theorem decodes_render (ext : Text) (routes : List Route) :
    Script.isModule (render ext routes) ∧
      ∃ t, readTable (render ext routes) = some t ∧ Decodes ext routes t :=
  ⟨isModule_render ext routes, _, readTable_render ext routes, decodes_tableOf ext routes⟩

end Quire.Route
