import Quire.Proofs.Build.Linking

/-!
What keeps a route table from being written. The table is refused exactly if a module that its
routes need is no file, it is refused for the first of them, and then nothing is changed; the table
itself is never refused, whatever the routes are called. Main statement: `emit_gated`.
-/

namespace Quire.Build

open Disk (Plain Furnished)

variable {d : Disk} {w after : Work} {output : Path} {ext : Text} {routes : List Route}
  {fault : TableFault}

/-- The references that routes need, each with its route: in the order of the routes, and the page
of a route before its layout. -/
def needs (routes : List Route) : List (Route × Text) :=
  routes.flatMap fun r => (r.page :: r.layout.toList).map (r, ·)

/-- The file that a reference stands for. -/
def moduleFile (output : Path) (ext reference : Text) : Path :=
  output.child (reference ++ '.' :: ext)

/-- What is wrong where the file is missing that a route needs. -/
def faultOf (output : Path) (ext : Text) (need : Route × Text) : TableFault :=
  .missing need.1.path (moduleFile output ext need.2)

theorem missingModule?_eq (d : Disk) (output : Path) (ext : Text) (r : Route) :
    missingModule? d output ext r = (((r.page :: r.layout.toList).map (r, ·)).find?
      fun need => !d.isFile (moduleFile output ext need.2)).map (faultOf output ext) := by
  rw [missingModule?, modulesOf, List.find?_map, List.find?_map, Option.map_map, Option.map_map]
  rfl

/-- What is wrong with a table is that the first file is missing of those that are. -/
theorem tableFault?_eq (d : Disk) (output : Path) (ext : Text) (routes : List Route) :
    tableFault? d output ext routes = ((needs routes).find?
      fun need => !d.isFile (moduleFile output ext need.2)).map (faultOf output ext) := by
  have hroutes : routes.findSome? (missingModule? d output ext) = ((needs routes).find?
      fun need => !d.isFile (moduleFile output ext need.2)).map (faultOf output ext) := by
    rw [needs, List.find?_flatMap, List.map_findSome?]
    exact congrArg (routes.findSome? ·) (funext (missingModule?_eq d output ext))
  rw [tableFault?, if_pos (Route.isModule_render ext routes), hroutes]
  cases (needs routes).find? fun need => !d.isFile (moduleFile output ext need.2) <;> rfl

theorem tableFault?_eq_none_iff : tableFault? d output ext routes = none ↔
    ∀ need ∈ needs routes, d.isFile (moduleFile output ext need.2) := by
  rw [tableFault?_eq, Option.map_eq_none_iff, List.find?_eq_none]
  simp

/-- A need for which a table is refused: the first whose file is missing. -/
structure Refused (d : Disk) (output : Path) (ext : Text) (routes : List Route)
    (need : Route × Text) : Prop where
  missing : ¬ d.isFile (moduleFile output ext need.2)
  first : ∃ met later, needs routes = met ++ need :: later ∧
    ∀ other ∈ met, d.isFile (moduleFile output ext other.2)

theorem tableFault?_eq_some_iff : tableFault? d output ext routes = some fault ↔
    ∃ need, Refused d output ext routes need ∧ fault = faultOf output ext need := by
  rw [tableFault?_eq, Option.map_eq_some_iff]
  refine exists_congr fun need => and_congr ?_ eq_comm
  rw [List.find?_eq_some_iff_append, Bool.not_eq_eq_eq_not, Bool.not_true, ← Bool.not_eq_true]
  simp only [Bool.not_not]
  exact ⟨fun h => ⟨h.1, h.2⟩, fun h => ⟨h.missing, h.first⟩⟩

theorem result_emit_of_fault (h : tableFault? w.disk output ext routes = some fault) :
    (emit output ext routes).result w =
      (.error (.failure (.table (output.child routesFile) fault)), w) := by
  rw [emit, Job.result_bind, Job.result_look, h]
  rfl

/-- Where nothing is missing and the disk takes both files, they are written. -/
theorem result_emit_of_writes {made between last : Disk}
    (hthere : ∀ need ∈ needs routes, w.disk.isFile (moduleFile output ext need.2))
    (hmade : Disk.makeDirs output w.disk = (.ok (), made))
    (htable : made.writeText (output.child routesFile) (Route.render ext routes) = .ok between)
    (hserver : between.writeText (output.child serverFile) Route.serverScript = .ok last) :
    (emit output ext routes).result w =
      (.ok (output.child routesFile), { w with disk := last }) := by
  rw [emit, Job.result_bind, Job.result_look, tableFault?_eq_none_iff.2 hthere]
  dsimp only
  rw [Job.result_bind, Job.result_change, hmade]
  dsimp only
  rw [Job.result_bind, result_emitFile, htable]
  dsimp only
  rw [Job.result_bind, result_emitFile, hserver]
  rfl

/-- What a table and the server's script leave: both can be read, where what is written is kept, and
no other file came, went or changed. -/
structure Published (output : Path) (ext : Text) (routes : List Route) (d d' : Disk) : Prop where
  table : d.Takes (d.placeOf (output.child routesFile)) →
    d'.read (output.child routesFile) = .ok (Route.render ext routes).toBytes
  server : d.Takes (d.placeOf (output.child serverFile)) →
    d'.read (output.child serverFile) = .ok Route.serverScript.toBytes
  kept : ∀ place, place ≠ d.placeOf (output.child routesFile) →
    place ≠ d.placeOf (output.child serverFile) →
    d'.root.bytesAt place = d.root.bytesAt place

theorem published_of_writes {d' made between : Disk} (hmade : Furnished d made)
    (htable : made.writeText (output.child routesFile) (Route.render ext routes) = .ok between)
    (hserver : between.writeText (output.child serverFile) Route.serverScript = .ok d') :
    Published output ext routes d d' := by
  have hwrote := hmade.plain.wrote_write htable
  have hbeside := hwrote.plain.wrote_write hserver
  have hfurnished := Disk.Overlaid.of_furnished hmade
  have hplace : ∀ p, made.placeOf p = d.placeOf p := fun p => by
    rw [Disk.placeOf, hmade.cwd, Disk.placeOf]
  have hplace' : ∀ p, between.placeOf p = d.placeOf p := fun p => by
    rw [Disk.placeOf, hwrote.cwd, hmade.cwd, Disk.placeOf]
  have hapart : d.placeOf (output.child routesFile) ≠ d.placeOf (output.child serverFile) := by
    rw [Disk.placeOf_child (by decide), Disk.placeOf_child (by decide)]
    exact fun heq => absurd (List.append_cancel_left heq) (by decide)
  rw [hplace] at hwrote
  rw [hplace'] at hbeside
  constructor
  · intro hdevice
    have hstill := hfurnished.takes hdevice
    -- the script that is written beside the table leaves it where it is
    have hlead := hmade.plain.place?_write htable (by rwa [hplace])
    rw [hplace] at hlead
    refine Disk.read_of_bytesAt (Disk.place?_mono hwrote.plain hbeside.plain hbeside.cwd
      (fun _ _ => hbeside.kindAt hwrote.plain) hlead) ?_
    rw [hbeside.bytesAt, if_neg fun h => hapart h.1, hwrote.bytesAt, if_pos ⟨rfl, hstill⟩]
  · intro hdevice
    refine hwrote.plain.read_write hserver ?_
    rw [hplace', Ne, hwrote.kindAt_device_iff hmade.plain]
    exact hfurnished.takes hdevice
  · intro place htable hserver
    rw [hbeside.bytesAt, if_neg fun h => hserver h.1, hwrote.bytesAt, if_neg fun h => htable h.1,
      hmade.bytesAt]

/-- A table with whose routes nothing is wrong is not refused. -/
theorem ne_table_of_tableFault? (hd : w.disk.Plain)
    (hfault : tableFault? w.disk output ext routes = none) (table : Path) (fault : TableFault) :
    ((emit output ext routes).result w).1 ≠ .error (.failure (.table table fault)) := by
  rcases hresult : (emit output ext routes).result w with ⟨answer, after⟩
  rintro rfl
  rcases emit_ends hd hfault hresult with ⟨_, -, hother⟩ | ⟨_, -, _, hother⟩ | ⟨hother, -⟩
  all_goals cases hother

theorem refused_of_emit {table : Path} (hd : w.disk.Plain)
    (h : (emit output ext routes).result w = (.error (.failure (.table table fault)), after)) :
    after = w ∧ table = output.child routesFile ∧
      ∃ need, Refused w.disk output ext routes need ∧ fault = faultOf output ext need := by
  cases hfault : tableFault? w.disk output ext routes with
  | none => exact absurd (congrArg Prod.fst h) (ne_table_of_tableFault? hd hfault table fault)
  | some found =>
      obtain ⟨hanswer, rfl⟩ := Prod.mk.inj ((result_emit_of_fault hfault).symm.trans h)
      injection hanswer with hstop
      injection hstop with hfailure
      injection hfailure with htable hfound
      exact ⟨rfl, htable.symm, tableFault?_eq_some_iff.1 (hfound ▸ hfault)⟩

theorem published_of_emit {table : Path} (hd : w.disk.Plain)
    (h : (emit output ext routes).result w = (.ok table, after)) :
    table = output.child routesFile ∧ Published output ext routes w.disk after.disk := by
  cases hfault : tableFault? w.disk output ext routes with
  | some found => cases (result_emit_of_fault hfault).symm.trans h
  | none =>
      rcases emit_ends hd hfault h with ⟨_, -, hother⟩ | ⟨_, -, _, hother⟩ |
        ⟨hok, made, between, hmade, htable, hserver⟩
      · cases hother
      · cases hother
      · exact ⟨Except.ok.inj hok, published_of_writes hmade htable hserver⟩

/-- Writing a table is gated by what its routes need. It is refused exactly if some file is missing
that they need, the table being a script whatever they are called; it is refused for the first file
that is missing, and then everything is as it was; and otherwise, if the disk takes them, the table
and the server's script are written, and nothing else is changed. -/
theorem emit_gated (hd : w.disk.Plain) (output : Path) (ext : Text) (routes : List Route) :
    Script.isModule (Route.render ext routes) ∧
    ((∃ table fault,
        ((emit output ext routes).result w).1 = .error (.failure (.table table fault))) ↔
      ∃ need ∈ needs routes, ¬ w.disk.isFile (moduleFile output ext need.2)) ∧
    (∀ table fault after,
      (emit output ext routes).result w = (.error (.failure (.table table fault)), after) →
        after = w ∧ table = output.child routesFile ∧ ∃ need,
          Refused w.disk output ext routes need ∧ fault = faultOf output ext need) ∧
    (∀ table after, (emit output ext routes).result w = (.ok table, after) →
      table = output.child routesFile ∧ Published output ext routes w.disk after.disk) ∧
    ∀ made between last, (∀ need ∈ needs routes, w.disk.isFile (moduleFile output ext need.2)) →
      Disk.makeDirs output w.disk = (.ok (), made) →
      made.writeText (output.child routesFile) (Route.render ext routes) = .ok between →
      between.writeText (output.child serverFile) Route.serverScript = .ok last →
      (emit output ext routes).result w =
        (.ok (output.child routesFile), { w with disk := last }) := by
  refine ⟨Route.isModule_render ext routes, ⟨?_, ?_⟩, fun _ _ _ => refused_of_emit hd,
    fun _ _ => published_of_emit hd, fun _ _ _ => result_emit_of_writes⟩
  · rintro ⟨table, fault, hanswer⟩
    obtain ⟨-, -, need, ⟨hmissing, met, later, hneeds, -⟩, -⟩ :=
      refused_of_emit hd (Prod.ext hanswer rfl)
    refine ⟨need, ?_, hmissing⟩
    rw [hneeds]
    exact List.mem_append_right _ List.mem_cons_self
  · rintro ⟨need, hneed, hmissing⟩
    cases hfault : tableFault? w.disk output ext routes with
    | none => exact absurd (tableFault?_eq_none_iff.1 hfault need hneed) hmissing
    | some fault => exact ⟨_, fault, congrArg Prod.fst (result_emit_of_fault hfault)⟩

/-- A layout that is missing, behind a page that is there, keeps both files from being written; where
nothing is missing, both are written. -/
theorem emit_gated_layout :
    Plain Route.blogDisk ∧
      (∃ table,
        (emit ⟨"/out".toList⟩ "js".toList
            [⟨"/".toList, "pages/page".toList, some "pages/frame".toList⟩]).result
            ⟨Route.blogDisk, [], []⟩ =
          (.error (.failure (.table table (.missing "/".toList ⟨"/out/pages/frame.js".toList⟩))),
            ⟨Route.blogDisk, [], []⟩)) ∧
      ∃ after,
        (emit ⟨"/out".toList⟩ "js".toList blogRoutes).result ⟨Route.blogDisk, [], []⟩ =
          (.ok (Path.child ⟨"/out".toList⟩ routesFile), after) ∧
        after.disk.read (Path.child ⟨"/out".toList⟩ routesFile) =
          .ok (Route.render "js".toList blogRoutes).toBytes ∧
        after.disk.read (Path.child ⟨"/out".toList⟩ serverFile) =
          .ok Route.serverScript.toBytes := by
  have hplain : Plain Route.blogDisk := ⟨by decide, by decide⟩
  refine ⟨hplain, ?_, ?_⟩
  · let home : Route := ⟨"/".toList, "pages/page".toList, some "pages/frame".toList⟩
    have hneeds : needs [home] = [(home, "pages/page".toList), (home, "pages/frame".toList)] := rfl
    have hpage : Route.blogDisk.isFile
        (moduleFile ⟨"/out".toList⟩ "js".toList "pages/page".toList) := by decide
    obtain ⟨-, hiff, hrefused, -⟩ :=
      emit_gated (w := ⟨Route.blogDisk, [], []⟩) hplain ⟨"/out".toList⟩ "js".toList [home]
    obtain ⟨table, fault, hanswer⟩ := hiff.2 (by rw [hneeds]; decide)
    obtain ⟨hafter, -, need, ⟨hmissing, met, later, hmet, -⟩, rfl⟩ :=
      hrefused table fault _ (Prod.ext hanswer rfl)
    have hmem : need ∈ needs [home] := hmet ▸ List.mem_append_right _ List.mem_cons_self
    rw [hneeds, List.mem_cons, List.mem_singleton] at hmem
    rcases hmem with rfl | rfl
    · exact absurd hpage hmissing
    · exact ⟨table, Prod.ext hanswer hafter⟩
  · obtain ⟨-, -, -, hpublished, -⟩ :=
      emit_gated (w := ⟨Route.blogDisk, [], []⟩) hplain ⟨"/out".toList⟩ "js".toList blogRoutes
    have hwritten : ((emit ⟨"/out".toList⟩ "js".toList blogRoutes).result
        ⟨Route.blogDisk, [], []⟩).1.toOption.isSome := by decide +kernel
    rcases hresult : (emit ⟨"/out".toList⟩ "js".toList blogRoutes).result
      ⟨Route.blogDisk, [], []⟩ with ⟨answer, after⟩
    rw [hresult] at hwritten
    cases answer with
    | error e => cases hwritten
    | ok table =>
        obtain ⟨rfl, hboth⟩ := hpublished table after hresult
        exact ⟨after, rfl, hboth.table (by decide), hboth.server (by decide)⟩

end Quire.Build
