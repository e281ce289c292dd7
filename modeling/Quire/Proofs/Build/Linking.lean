import Quire.Proofs.Build.Delivery
import Quire.Proofs.Route.Exactness
import Quire.Proofs.Route.Importing

/-!
What a route table takes. The modules of the routes that a scan finds are the marked files that it
found them by; so their table is never refused, and what it names where it takes something is there.
-/

namespace Quire

namespace Path

variable {output : Path} {names : List Text} {stem ext : Text}

theorem inner_intercalate (hnames : ∀ n ∈ names, Ordinary n) (hne : names ≠ []) :
    (Path.mk (['/'].intercalate names)).inner = names.map .name := by
  have hfields : (Path.mk (['/'].intercalate names)).fields = names :=
    Text.fields_intercalate hne fun n hn => (hnames n hn).noSlash
  rw [inner, hfields, ← List.filterMap_eq_map]
  exact List.filterMap_congr fun n hn => (hnames n hn).ofField?

/-- A specifier leads from the output to the module that it is made for. -/
theorem place_resolve_specifier (hout : output.isAbsolute) (hnames : ∀ n ∈ names, Ordinary n)
    (hstem : Ordinary (stem ++ '.' :: ext)) :
    (output.resolve ⟨Route.moduleSpecifier ext (['/'].intercalate (names ++ [stem]))⟩).place =
      output.place ++ (names ++ [stem ++ '.' :: ext]) := by
  have htext : Route.moduleSpecifier ext (['/'].intercalate (names ++ [stem])) =
      ['.'] ++ '/' :: ['/'].intercalate (names ++ [stem ++ '.' :: ext]) := by
    rw [← Text.intercalate_concat_append]
    rfl
  have hinner : (Path.mk (Route.moduleSpecifier ext (['/'].intercalate (names ++ [stem])))).inner =
      (names ++ [stem ++ '.' :: ext]).map .name := by
    rw [htext, inner_append_slash,
      inner_intercalate (List.forall_mem_append.2 ⟨hnames, by simpa using hstem⟩) (by simp)]
    rfl
  have hrelative : ¬ (Path.mk (Route.moduleSpecifier ext
      (['/'].intercalate (names ++ [stem])))).isAbsolute := by
    rw [htext]
    exact Bool.false_ne_true
  rw [place_resolve hout hrelative, hinner, placeFrom_names]

end Path

namespace Build

open Disk (Plain Leads)
open Quire.Path (Ordinary)
open Route (Marked plainMarkers routeOf moduleSpecifier pagesDir)

variable {d d' : Disk} {w after : Work} {output : Path} {c : Config} {ext reference marker : Text}
  {names : List Text} {routes : List Route}

theorem child_reference (hnames : ∀ n ∈ names, Ordinary n) {stem : Text}
    (hstem : Ordinary (stem ++ '.' :: ext)) :
    output.child (['/'].intercalate ([pagesDir] ++ names ++ [stem]) ++ '.' :: ext) =
      (below (output.child pagesDir) names).child (stem ++ '.' :: ext) := by
  have hall : ∀ n ∈ pagesDir :: (names ++ [stem ++ '.' :: ext]), Ordinary n :=
     List.forall_mem_cons.2 ⟨by decide, List.forall_mem_append.2 ⟨hnames, by simpa⟩⟩
  rw [Text.intercalate_concat_append, ← below_concat]
  exact Path.child_intercalate hall (List.cons_ne_nil _ _) output

/-- A module that a route needs is the marked file of its directory. -/
theorem isFile_of_marked (hd : d.Plain) (hslash : '/' ∉ ext)
    {stem : Text} (hstem : Ordinary stem)
    (hleads : Leads d (output.child pagesDir))
    (hmarked : Marked d (output.child pagesDir) names (stem ++ '.' :: ext)) :
    d.isFile (output.child (['/'].intercalate ([pagesDir] ++ names ++ [stem]) ++ '.' :: ext)) := by
  have hnames := ordinary_of_isName (isName_of_kindAt hd (Option.isSome_of_mem hmarked.dir))
  have hmarker := hstem.append_dot hslash
  rw [child_reference hnames hmarker, ← below_concat]
  refine (isFile_below hd hleads (List.forall_mem_append.2 ⟨hnames, by simpa⟩) (by simp)).2 ?_
  rw [below_concat]
  exact hmarked

/-- The table of the routes that a scan finds is as it should be. -/
theorem tableFault?_of_run (hd : d.Plain) (hout : output.isAbsolute) (hdot : '.' ∉ ext)
    (hslash : '/' ∉ ext)
    (hrun : Route.Scan.run ⟨d, output, plainMarkers ext⟩ (output.child pagesDir) = .ok routes) :
    tableFault? d output ext routes = none := by
  obtain ⟨dirs, -, hmem, rfl⟩ := Route.exists_dirs_of_run hd hout
    (Path.isAbsolute_child hout pagesDir) (Path.place_child hout (by decide)) hdot hslash hrun
  have hthere : (dirs.map (routeOf d (output.child pagesDir) [pagesDir] ext)).findSome?
      (missingModule? d output ext) = none := by
    refine List.findSome?_eq_none_iff.2 fun r hr => ?_
    obtain ⟨names, hnames, rfl⟩ := List.mem_map.1 hr
    obtain ⟨hdir, hpage⟩ := (hmem names).1 hnames
    have hleads := Disk.leads_of_isDir hd (Path.isAbsolute_child hout pagesDir) hdir
    have hfiles : ∀ file ∈ modulesOf output ext
        (routeOf d (output.child pagesDir) [pagesDir] ext names), d.isFile file := by
      intro file hfile
      obtain ⟨reference, hreference, rfl⟩ := List.mem_map.1 hfile
      rcases List.mem_cons.1 hreference with rfl | hlayout
      · exact isFile_of_marked hd hslash (by decide) hleads hpage
      · rw [routeOf] at hlayout
        dsimp only at hlayout
        split at hlayout
        · next hmarked =>
            obtain rfl := List.mem_singleton.1 hlayout
            exact isFile_of_marked hd hslash (by decide) hleads hmarked
        · cases hlayout
    rw [missingModule?, List.find?_eq_none.2 fun file hfile => by simp [hfiles file hfile]]
    rfl
  rw [tableFault?, hthere, if_pos (Route.isModule_render ext _)]
  rfl

/-- What a table and the server's script leave of the disk: all is there that was there, and the
table is where it should be. -/
structure Emitted (output : Path) (ext : Text) (routes : List Route) (d d' : Disk) : Prop where
  kept : ∀ q k, d.root.kindAt q = some k → d'.root.kindAt q = some k
  table : d.Takes (output.child routesFile).place →
    d'.root.bytesAt (output.child routesFile).place = some (Route.render ext routes).toBytes

theorem emitted_of_wrote {made between : Disk} (hout : output.isAbsolute)
    (hmade : Disk.Furnished d made)
    (htable : Disk.Wrote (output.child routesFile).place (Route.render ext routes).toBytes made
      between)
    (hserver : Disk.Wrote (output.child serverFile).place Route.serverScript.toBytes between d') :
    Emitted output ext routes d d' where
  kept q k hq := hserver.kindAt htable.plain (htable.kindAt hmade.plain (hmade.kindAt hq))
  table hdevice := by
    have hne : (output.child routesFile).place ≠ (output.child serverFile).place := by
      rw [Path.place_child hout (by decide : Ordinary routesFile),
        Path.place_child hout (by decide : Ordinary serverFile)]
      exact fun heq => absurd (List.append_cancel_left heq) (by decide)
    have hstill := (Disk.Overlaid.of_furnished hmade).takes hdevice
    rw [hserver.bytesAt, if_neg fun h => hne h.1, htable.bytesAt, if_pos ⟨rfl, hstill⟩]

theorem result_emitFile (p : Path) (t : Text) (w : Work) :
    (emitFile p t).result w =
      match w.disk.writeText p t with
      | .ok d' => (.ok (), { w with disk := d' })
      | .error e => (.error (.failure (.disk p e)), w) := by
  rw [emitFile, Job.result_change]
  cases h : w.disk.writeText p t with
  | ok d' => rw [Disk.ofWhole_ok h]
  | error e => rw [Disk.ofWhole_error h]

/-- Where nothing is wrong with a table, it is written and the server's script after it, unless the
disk refuses something. -/
theorem emit_ends {answer : Except Stop Path} (hd : w.disk.Plain)
    (hfault : tableFault? w.disk output ext routes = none)
    (h : (emit output ext routes).result w = (answer, after)) :
    (∃ fault, (Disk.makeDirs output w.disk).1 = .error fault ∧
        answer = .error (.failure (.disk output fault))) ∨
      (∃ n ∈ [routesFile, serverFile], ∃ fault,
        answer = .error (.failure (.disk (output.child n) fault))) ∨
      answer = .ok (output.child routesFile) ∧ ∃ made between, Disk.Furnished w.disk made ∧
        made.writeText (output.child routesFile) (Route.render ext routes) = .ok between ∧
        between.writeText (output.child serverFile) Route.serverScript = .ok after.disk := by
  have hfurnished := hd.furnished_makeDirs output
  rw [emit, Job.result_bind, Job.result_look, hfault] at h
  dsimp only at h
  rw [Job.result_bind, Job.result_change] at h
  cases hmade : (Disk.makeDirs output w.disk).1 with
  | error fault =>
      rw [hmade] at h
      exact .inl ⟨fault, rfl, (Prod.mk.inj h).1.symm⟩
  | ok u =>
      rw [hmade] at h
      dsimp only at h
      rw [Job.result_bind, result_emitFile] at h
      dsimp only at h
      cases htable : (Disk.makeDirs output w.disk).2.writeText (output.child routesFile)
          (Route.render ext routes) with
      | error fault =>
          rw [htable] at h
          exact .inr (.inl ⟨_, List.mem_cons_self, fault, (Prod.mk.inj h).1.symm⟩)
      | ok between =>
          rw [htable] at h
          dsimp only at h
          rw [Job.result_bind, result_emitFile] at h
          dsimp only at h
          cases hserver : between.writeText (output.child serverFile) Route.serverScript with
          | error fault =>
              rw [hserver] at h
              exact .inr (.inl ⟨_, List.mem_cons_of_mem _ List.mem_cons_self, fault,
                (Prod.mk.inj h).1.symm⟩)
          | ok last =>
              rw [hserver] at h
              obtain ⟨rfl, rfl⟩ := Prod.mk.inj h
              exact .inr (.inr ⟨rfl, _, between, hfurnished, htable, hserver⟩)

theorem emit_cases {answer : Except Stop Path} (hd : w.disk.Plain) (hout : output.isAbsolute)
    (hfault : tableFault? w.disk output ext routes = none)
    (h : (emit output ext routes).result w = (answer, after)) :
    (∃ fault, (Disk.makeDirs output w.disk).1 = .error fault ∧
        answer = .error (.failure (.disk output fault))) ∨
      (∃ n ∈ [routesFile, serverFile], ∃ fault,
        answer = .error (.failure (.disk (output.child n) fault))) ∨
      answer = .ok (output.child routesFile) ∧ Emitted output ext routes w.disk after.disk := by
  refine (emit_ends hd hfault h).imp_right (.imp_right (And.imp_right ?_))
  rintro ⟨made, between, hmade, htable, hserver⟩
  have hwrote := Disk.wrote_write hmade.plain (Path.isAbsolute_child hout _) htable
  have hbeside := Disk.wrote_write hwrote.plain (Path.isAbsolute_child hout _) hserver
  exact emitted_of_wrote hout hmade hwrote hbeside

/-- The specifier of a reference leads to a marked file of a directory, and the file is there. -/
structure Linked (c : Config) (output : Path) (d : Disk) (names : List Text)
    (reference marker : Text) : Prop where
  place : (output.resolve ⟨moduleSpecifier c.build.moduleExt reference⟩).place =
    output.place ++ pagesDir :: (names ++ [marker])
  file : d.root.kindAt (output.resolve ⟨moduleSpecifier c.build.moduleExt reference⟩).place =
    some .file

/-- A table that was written and is closed: what it takes are the modules of its routes, and for each
route these are the marked files of the directory that it is the route of. -/
structure Closed (c : Config) (output : Path) (routes : List Route) (table : Path) (d d' : Disk) :
    Prop where
  place : table = output.child routesFile
  written : d.Takes table.place →
    d'.root.bytesAt table.place = some (Route.render c.build.moduleExt routes).toBytes
  taken : Script.specifiers (Route.render c.build.moduleExt routes) =
    routes.flatMap fun r => (r.page :: r.layout.toList).map (moduleSpecifier c.build.moduleExt)
  linked : ∀ r ∈ routes, ∃ names, r.path = Route.Scan.address names ∧
    Linked c output d' names r.page c.pageMarker ∧
    ∀ layout ∈ r.layout, Linked c output d' names layout c.layoutMarker

theorem linked_of_marked (hd : d.Plain) (hout : output.isAbsolute)
    (hslash : '/' ∉ c.build.moduleExt)
    (hkept : ∀ q k, d.root.kindAt q = some k → d'.root.kindAt q = some k) {stem : Text}
    (hstem : Ordinary stem)
    (hmarked : Marked d (output.child pagesDir) names (stem ++ '.' :: c.build.moduleExt)) :
    Linked c output d' names (['/'].intercalate ([pagesDir] ++ names ++ [stem]))
      (stem ++ '.' :: c.build.moduleExt) := by
  have hnames := ordinary_of_isName (isName_of_kindAt hd (Option.isSome_of_mem hmarked.dir))
  have hall : ∀ n ∈ [pagesDir] ++ names, Ordinary n :=
    List.forall_mem_cons.2 ⟨by decide, hnames⟩
  have hplace := Path.place_resolve_specifier hout hall (hstem.append_dot hslash)
  refine ⟨hplace, hkept _ _ ?_⟩
  rw [hplace, List.append_assoc, ← List.append_assoc,
    ← Path.place_child hout (by decide : Ordinary pagesDir)]
  exact hmarked.1

/-- Scan and table fit together: the table of the routes that a scan finds is never refused, and if
it is written it is closed. -/
theorem closed_emit (hd : w.disk.Plain) (hout : output.isAbsolute)
    (hdot : '.' ∉ c.build.moduleExt) (hslash : '/' ∉ c.build.moduleExt)
    (hrun : Route.Scan.run ⟨w.disk, output, markersOf c⟩ (output.child pagesDir) = .ok routes) :
    (∀ table fault, ((emit output c.build.moduleExt routes).result w).1 ≠
        .error (.failure (.table table fault))) ∧
      ∀ table after, (emit output c.build.moduleExt routes).result w = (.ok table, after) →
        Closed c output routes table w.disk after.disk := by
  have hfault := tableFault?_of_run hd hout hdot hslash hrun
  constructor
  · rcases hresult : (emit output c.build.moduleExt routes).result w with ⟨answer, after⟩
    rintro table fault rfl
    rcases emit_cases hd hout hfault hresult with ⟨_, -, hother⟩ | ⟨_, -, _, hother⟩ | ⟨hother, -⟩
    all_goals cases hother
  · intro table after hresult
    rcases emit_cases hd hout hfault hresult with ⟨_, -, hother⟩ | ⟨_, -, _, hother⟩ |
      ⟨htable, hemitted⟩
    · cases hother
    · cases hother
    · obtain rfl := Except.ok.inj htable
      refine ⟨rfl, hemitted.table, Route.specifiers_render _ _, fun r hr => ?_⟩
      obtain ⟨dirs, -, hmem, rfl⟩ := Route.exists_dirs_of_run hd hout
        (Path.isAbsolute_child hout pagesDir) (Path.place_child hout (by decide)) hdot hslash hrun
      obtain ⟨names, hnames, rfl⟩ := List.mem_map.1 hr
      refine ⟨names, rfl, ?_, fun layout hlayout => ?_⟩
      · exact linked_of_marked hd hout hslash hemitted.kept (by decide) ((hmem names).1 hnames).2
      · rw [routeOf] at hlayout
        dsimp only at hlayout
        split at hlayout
        · next hmarked =>
            obtain rfl := Option.some.inj hlayout
            exact linked_of_marked hd hout hslash hemitted.kept (by decide) hmarked
        · cases hlayout

/-- The routes of an output with two pages. -/
def blogRoutes : List Route := [
  ⟨"/".toList, "pages/page".toList, some "pages/layout".toList⟩,
  ⟨"/blog".toList, "pages/blog/page".toList, none⟩]

theorem closed_emit_blog :
    Plain Route.blogDisk ∧
      Route.Scan.run ⟨Route.blogDisk, ⟨"/out".toList⟩, markersOf {}⟩
        (Path.child ⟨"/out".toList⟩ pagesDir) = .ok blogRoutes ∧
      ∃ table after,
        (emit ⟨"/out".toList⟩ "js".toList blogRoutes).result ⟨Route.blogDisk, [], []⟩ =
          (.ok table, after) ∧
        Closed {} ⟨"/out".toList⟩ blogRoutes table Route.blogDisk after.disk := by
  have hplain : Plain Route.blogDisk := ⟨by decide, by decide⟩
  have hrun : Route.Scan.run ⟨Route.blogDisk, ⟨"/out".toList⟩, markersOf {}⟩
      (Path.child ⟨"/out".toList⟩ pagesDir) = .ok blogRoutes := by
    have hroutes : (Route.Scan.run ⟨Route.blogDisk, ⟨"/out".toList⟩, markersOf {}⟩
        (Path.child ⟨"/out".toList⟩ pagesDir)).toOption = some blogRoutes := by decide +kernel
    cases hresult : Route.Scan.run ⟨Route.blogDisk, ⟨"/out".toList⟩, markersOf {}⟩
      (Path.child ⟨"/out".toList⟩ pagesDir) with
    | error e =>
        rw [hresult] at hroutes
        cases hroutes
    | ok routes =>
        rw [hresult] at hroutes
        exact congrArg Except.ok (Option.some.inj hroutes)
  refine ⟨hplain, hrun, ?_⟩
  have hwritten : ((emit ⟨"/out".toList⟩ "js".toList blogRoutes).result
      ⟨Route.blogDisk, [], []⟩).1.toOption.isSome := by decide +kernel
  rcases hresult : (emit ⟨"/out".toList⟩ "js".toList blogRoutes).result ⟨Route.blogDisk, [], []⟩ with
    ⟨answer, after⟩
  rw [hresult] at hwritten
  cases answer with
  | error e => cases hwritten
  | ok table =>
      exact ⟨table, after, rfl, (closed_emit (c := {}) hplain (by decide) (by decide) (by decide)
        hrun).2 table after hresult⟩

/-- An output with one page, and a link beside it that leads two directories down. -/
def linkedOutput : Disk where
  root := .dir [("p".toList, .dir [
    ("a".toList, .dir [("b".toList, .dir []), ("out".toList, .dir [
      ("pages".toList, .dir [("page.js".toList, .file .empty)])])]),
    ("link".toList, .link "a/b".toList)])]
  cwd := []

/-- The output, spelled through the link. -/
def throughLink : Path := ⟨"/p/link/../out".toList⟩

/-- The tree of the output holds no link, and its table is written with what a scan finds in it. But
the steps of the output's path are taken without a look at the disk, and so taken they lead to another
place: there is no file where the table's only import leads. -/
theorem astray_emit_link :
    (linkedOutput.node? throughLink).toOption.any (·.isPlain) ∧ throughLink.isAbsolute ∧
      (Route.Scan.run ⟨linkedOutput, throughLink, markersOf {}⟩
        (throughLink.child pagesDir)).toOption = some [⟨"/".toList, "pages/page".toList, none⟩] ∧
      ((emit throughLink "js".toList [⟨"/".toList, "pages/page".toList, none⟩]).result
        ⟨linkedOutput, [], []⟩).1.toOption.isSome ∧
      Script.specifiers (Route.render "js".toList [⟨"/".toList, "pages/page".toList, none⟩]) =
        ["./pages/page.js".toList] ∧
      ((emit throughLink "js".toList [⟨"/".toList, "pages/page".toList, none⟩]).result
        ⟨linkedOutput, [], []⟩).2.disk.root.kindAt
          (throughLink.resolve ⟨"./pages/page.js".toList⟩).place = none := by
  have htaken := Route.specifiers_render "js".toList
    [⟨"/".toList, "pages/page".toList, none⟩]
  have hemitted : ((emit throughLink "js".toList [⟨"/".toList, "pages/page".toList, none⟩]).result
        ⟨linkedOutput, [], []⟩).1.toOption.isSome ∧
      ((emit throughLink "js".toList [⟨"/".toList, "pages/page".toList, none⟩]).result
        ⟨linkedOutput, [], []⟩).2.disk.root.kindAt
          (throughLink.resolve ⟨"./pages/page.js".toList⟩).place = none := by
    decide +kernel
  exact ⟨by decide +kernel, by decide, by decide +kernel, hemitted.1, htaken, hemitted.2⟩

end Build

end Quire
