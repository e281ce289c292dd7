import Quire.Proofs.Build.Products

/-!
What a build leaves in its output. The route table, the server's script and the entry script are
written after the products of the visit and into the same directories: a product is there at the end
unless something that came after it was written at its place.
-/

namespace Quire.Build

open Disk (Place Plain Write Overlaid)
open Quire.Path (Ordinary)

variable {α β : Type} {d d' : Disk} {w after : Work} {source output : Path} {n : Text}
  {a b : List Write} {c : Config}

/-- A job that writes nothing but the given writes, each at most once and in their order. -/
def Lays (writes : List Write) (job : Job α) : Prop :=
  ∀ w, w.disk.Plain → (job.result w).2.disk.Plain ∧
    ∃ laid : List Write, laid.Sublist writes ∧ Overlaid laid w.disk (job.result w).2.disk

namespace Lays

/-- A job that does not touch the disk. -/
theorem silent {job : Job α} (h : ∀ w, (job.result w).2.disk = w.disk) : Lays [] job := by
  intro w hw
  rw [h w]
  exact ⟨hw, [], List.Sublist.refl _, Overlaid.refl _⟩

theorem pure (x : α) : Lays [] (pure x : Job α) := silent fun _ => rfl

theorem bind {job : Job α} {f : α → Job β} (hjob : Lays a job) (hf : ∀ x, Lays b (f x)) :
    Lays (a ++ b) (job >>= f) := by
  intro w hw
  obtain ⟨hplain, first, hfirst, hover⟩ := hjob w hw
  rw [Job.result_bind]
  rcases h : job.result w with ⟨answer, mid⟩
  rw [h] at hplain hover
  cases answer with
  | error e => exact ⟨hplain, first, hfirst.trans (List.sublist_append_left a b), hover⟩
  | ok x =>
      obtain ⟨hplain', rest, hrest, hover'⟩ := hf x mid hplain
      exact ⟨hplain', first ++ rest, hfirst.append hrest, hover.trans hover'⟩

theorem mono {job : Job α} (h : Lays a job) (hsub : a.Sublist b) : Lays b job := by
  intro w hw
  obtain ⟨hplain, laid, hlaid, hover⟩ := h w hw
  exact ⟨hplain, laid, hlaid.trans hsub, hover⟩

theorem attempt {job : Job α} (h : Lays a job) : Lays a job.attempt := by
  intro w hw
  have hjob := h w hw
  rw [Job.result_attempt]
  rcases hresult : job.result w with ⟨answer, mid⟩
  rw [hresult] at hjob
  cases answer with
  | ok x => exact hjob
  | error e => cases e <;> exact hjob

theorem makeDirs {p : Path} (hp : p.isAbsolute) (wording : Disk.Fault → Failure) :
    Lays [] (change (Disk.makeDirs p) wording) := by
  intro w hw
  have hfurnished := Disk.furnished_makeDirs hw hp
  rw [Job.result_change]
  exact ⟨hfurnished.plain, [], List.Sublist.refl _, Overlaid.of_furnished hfurnished⟩

theorem writeText {p : Path} (hp : p.isAbsolute) (t : Text) (wording : Disk.Fault → Failure) :
    Lays [⟨p.place, t.toBytes⟩] (change (.ofWhole (·.writeText p t)) wording) := by
  intro w hw
  rw [Job.result_change]
  cases hwrite : w.disk.writeText p t with
  | error e =>
      rw [Disk.ofWhole_error hwrite]
      exact ⟨hw, [], List.nil_sublist _, Overlaid.refl _⟩
  | ok last =>
      rw [Disk.ofWhole_ok hwrite]
      have hwrote := Disk.wrote_write hw hp hwrite
      exact ⟨hwrote.plain, _, List.Sublist.refl _, Overlaid.of_wrote hw hwrote⟩

end Lays

/-- The route table and the server's script. -/
def routeWrites (c : Config) (output : Path) (routes : List Route) : List Write :=
  [⟨(output.child routesFile).place, (Route.render c.build.moduleExt routes).toBytes⟩,
    ⟨(output.child serverFile).place, Route.serverScript.toBytes⟩]

/-- The entry script of the given references, if they can be told. -/
def entryWrites (output : Path) (references : List Reference) : List Write :=
  (entryScript references).toOption.toList.map fun script =>
    ⟨((output.join clientDir).child entryFile).place, script.toBytes⟩

theorem lays_emit (hout : output.isAbsolute) (c : Config) (routes : List Route) :
    Lays (routeWrites c output routes) (emit output c.build.moduleExt routes) := by
  unfold emit
  refine (Lays.silent fun _ => rfl : Lays [] _).bind fun fault => ?_
  cases fault with
  | some fault => exact (Lays.silent fun _ => rfl).mono (List.nil_sublist _)
  | none =>
      refine (Lays.makeDirs hout _).bind fun _ => ?_
      refine (Lays.writeText (Path.isAbsolute_child hout _) _ _).bind fun _ => ?_
      exact (Lays.writeText (Path.isAbsolute_child hout _) _ _).bind fun _ => Lays.pure _

theorem lays_emitRoutes (hout : output.isAbsolute) (c : Config) (hw : w.disk.Plain) :
    ((emitRoutes c output).result w).2.disk.Plain ∧ ∃ routes laid,
      List.Sublist laid (routeWrites c output routes) ∧
        Overlaid laid w.disk ((emitRoutes c output).result w).2.disk := by
  have hnone : ∀ {after : Work}, after.disk = w.disk → after.disk.Plain ∧ ∃ routes laid,
      List.Sublist laid (routeWrites c output routes) ∧ Overlaid laid w.disk after.disk := by
    intro after heq
    rw [heq]
    exact ⟨hw, [], [], List.nil_sublist _, Overlaid.refl _⟩
  unfold emitRoutes
  simp only [Job.result_bind, Job.result_look]
  split
  · exact hnone rfl
  · simp only [Job.result_bind, Job.result_look]
    cases Route.Scan.run ⟨w.disk, output, markersOf c⟩ (output.child Route.pagesDir) with
    | error unlisted => exact hnone rfl
    | ok routes =>
        dsimp only
        split
        · exact hnone rfl
        · have hlays := (lays_emit hout c routes).attempt w hw
          rw [Job.result_bind]
          rcases hresult : (emit output c.build.moduleExt routes).attempt.result w with
            ⟨answer, mid⟩
          rw [hresult] at hlays
          obtain ⟨hplain, laid, hsub, hover⟩ := hlays
          cases answer with
          | error stop => exact ⟨hplain, _, laid, hsub, hover⟩
          | ok emitted => cases emitted <;> exact ⟨hplain, _, laid, hsub, hover⟩

theorem lays_writeManifest (hout : output.isAbsolute) {bundler : Config.Bundler}
    (hbundler : bundler.enable = false) (references : List Reference) :
    Lays (entryWrites output references) (writeManifest bundler output references) := by
  unfold writeManifest
  by_cases hempty : references.isEmpty
  · rw [if_pos hempty]
    exact (Lays.pure _).mono (List.nil_sublist _)
  · rw [if_neg hempty]
    unfold entryWrites
    cases entryScript references with
    | error e =>
        refine Lays.silent fun w => ?_
        rw [Job.result_bind, Job.result_orFail]
    | ok script =>
        have hdir : (output.join clientDir).isAbsolute := Path.isAbsolute_join hout _
        rw [orFail, pure_bind]
        have hwrite := Lays.writeText (Path.isAbsolute_child hdir entryFile) script
          (.notWritten ((output.join clientDir).child entryFile))
        refine (Lays.makeDirs hdir _).bind fun _ => hwrite.bind fun _ => ?_
        rw [hbundler, if_neg Bool.false_ne_true]
        exact Lays.pure _

theorem silent_report (output : Path) (references : List Reference) (m : Manifest) (w : Work) :
    ((m.report output references).result w).2.disk = w.disk :=
  keeps_report (P := (· = w.disk)) output references m w rfl

/-- Whether a product was made of the bytes that its source had. -/
def Product.MadeFrom (pass : Pass) (d : Disk) : Product → Prop
  | .module names _ text _ _ => ∃ bytes,
    d.root.bytesAt (below pass.root names).place = some bytes ∧ Text.ofBytes? bytes = some text
  | .copy names bytes => d.root.bytesAt (below pass.root names).place = some bytes

/-- What a build delivers: the products of its visit in the order of their sources, each of a source of
its own and counted, and then what the build writes by itself. At the end the files are those of the
beginning with all that laid over them, so that a product is there if it is the last at its place. -/
structure Delivered (c : Config) (source output : Path) (products : List Product)
    (extras : List Write) (report : Report) (d d' : Disk) : Prop where
  ordered : products.Pairwise fun a b => a.names < b.names
  transpiled : report.transpiled = products.countP (·.isModule)
  copied : report.copied = products.countP (!·.isModule)
  faithful : ∀ p ∈ products, p.Faithful (passOf c source) output
  madeFrom : ∀ p ∈ products, p.MadeFrom (passOf c source) d
  generated : ∃ routes, extras.Sublist
    (routeWrites c output routes ++ entryWrites output (products.flatMap (·.references)))
  overlaid : Overlaid (products.map (·.write output) ++ extras) d d'
  kept : ∀ before p later, products = before ++ p :: later →
    (∀ w ∈ later.map (·.write output) ++ extras, w.place ≠ (p.write output).place) →
    d.Takes (p.write output).place →
    d'.root.bytesAt (p.write output).place = some (p.write output).bytes

/-- The text of a file is read from its bytes. -/
theorem exists_bytes_of_readText {p : Path} {text : Text} (hd : d.Plain) (hp : p.isAbsolute)
    (hfile : d.root.kindAt p.place = some .file) (h : d.readText p = .ok text) :
    ∃ bytes, d.root.bytesAt p.place = some bytes ∧ Text.ofBytes? bytes = some text := by
  unfold Disk.readText Disk.read at h
  cases hnode : d.node? p with
  | error e => simp [hnode, bind, Except.bind] at h
  | ok m =>
      obtain ⟨place, hplace, hget⟩ := Disk.node?_ok_iff.1 hnode
      obtain rfl := Disk.eq_place_of_place? hd hp hplace
      rw [Disk.Node.kindAt, hget] at hfile
      cases m with
      | dir _ => cases hfile
      | link _ => cases hfile
      | sink => cases hfile
      | file bytes =>
          refine ⟨bytes, by rw [Disk.Node.bytesAt, hget], ?_⟩
          simp only [hnode, bind, Except.bind] at h
          cases htext : Text.ofBytes? bytes with
          | none => simp [htext] at h
          | some t => simpa [htext] using h

/-- What was read in the course of a visit was there at its start. -/
theorem madeFrom_of_readFrom {pass : Pass} {p : Product} {e e' : Disk} {free : Place → Prop}
    (hroot : pass.root.isAbsolute) (h : p.ReadFrom pass e) (he : Reworked free d e)
    (he' : Reworked free d e') (hfile : e'.root.kindAt (below pass.root p.names).place = some .file)
    (hinside : ¬ free (below pass.root p.names).place) : p.MadeFrom pass d := by
  have hseen := he.frame _ hinside
  have hkind : e.root.kindAt (below pass.root p.names).place = some .file := by
    rw [Disk.Node.kindAt_congr (hseen.trans (he'.frame _ hinside).symm)]
    exact hfile
  have hbytes := Disk.Node.bytesAt_congr hseen
  cases p with
  | copy names bytes => exact hbytes.symm.trans h
  | module names dst text code references =>
      obtain ⟨bytes, hthere, htext⟩ :=
        exists_bytes_of_readText he.plain (isAbsolute_below hroot names) hkind h
      exact ⟨bytes, hbytes.symm.trans hthere, htext⟩

theorem Product.MadeFrom.of_furnished {pass : Pass} {p : Product} (h : p.MadeFrom pass d')
    (hd : Disk.Furnished d d') : p.MadeFrom pass d := by
  cases p with
  | copy names bytes => exact (hd.bytesAt _).symm.trans h
  | module names dst text code references =>
      obtain ⟨bytes, hbytes, htext⟩ := h
      exact ⟨bytes, (hd.bytesAt _).symm.trans hbytes, htext⟩

theorem takeTree_nil (pass : Pass) (output : Path) (w : Work) :
    (pass.takeTree output []).result w =
      ((⟨pass.root, output.isWithin, pass.take output⟩ : Visit Yield).run {}).result w := by
  unfold Pass.takeTree
  rw [Job.result_bind]
  rcases ((⟨pass.root, output.isWithin, pass.take output⟩ : Visit Yield).run {}).result w with
    ⟨answer, after⟩
  cases answer <;> rfl

/-- A build writes nothing more after its visit than what it makes by itself. -/
theorem overlaid_finish (hout : output.isAbsolute) (hbundler : c.bundler.enable = false) (y : Yield)
    (hw : w.disk.Plain) : ∃ routes laid,
      List.Sublist laid (routeWrites c output routes ++ entryWrites output y.references) ∧
        Overlaid laid w.disk ((finish c output y).result w).2.disk := by
  obtain ⟨hplain, routes, first, hfirst, hover⟩ := lays_emitRoutes hout c hw
  have hentry := lays_writeManifest hout hbundler y.references
  unfold finish
  rw [Job.result_bind]
  rcases hroutes : (emitRoutes c output).result w with ⟨answer, mid⟩
  rw [hroutes] at hplain hover
  cases answer with
  | error e => exact ⟨routes, first, hfirst.trans (List.sublist_append_left _ _), hover⟩
  | ok status =>
      obtain ⟨_, rest, hrest, hover'⟩ := hentry.attempt mid hplain
      refine ⟨routes, first ++ rest, hfirst.append hrest, hover.trans ?_⟩
      simp only [Job.result_bind]
      rcases hwritten : (writeManifest c.bundler output y.references).attempt.result mid with
        ⟨answer, last⟩
      rw [hwritten] at hover'
      cases answer with
      | error e => exact hover'
      | ok written =>
          cases written with
          | error f => exact hover'
          | ok manifest =>
              have hsilent := silent_report output y.references manifest last
              simp only [Job.result_bind]
              rcases hreport : (manifest.report output y.references).result last with
                ⟨answer, told⟩
              rw [hreport] at hsilent
              rw [← hsilent] at hover'
              cases answer with
              | error e => exact hover'
              | ok u => cases manifest <;> exact hover'

/-- The counts of a report are those of the visit. -/
theorem counts_of_finish {y : Yield} {report : Report}
    (h : (finish c output y).result w = (.ok report, after)) :
    report.transpiled = y.transpiled ∧ report.copied = y.copied := by
  unfold finish at h
  simp only [Job.result_bind] at h
  rcases hroutes : (emitRoutes c output).result w with ⟨answer, mid⟩
  rw [hroutes] at h
  cases answer with
  | error e => cases (Prod.mk.inj h).1
  | ok status =>
      simp only at h
      rcases hwritten : (writeManifest c.bundler output y.references).attempt.result mid with
        ⟨answer, last⟩
      rw [hwritten] at h
      cases answer with
      | error e => cases (Prod.mk.inj h).1
      | ok written =>
          cases written with
          | error f =>
              obtain rfl := Except.ok.inj (Prod.mk.inj h).1
              exact ⟨rfl, rfl⟩
          | ok manifest =>
              simp only [Job.result_bind] at h
              rcases hreport : (manifest.report output y.references).result last with
                ⟨answer, told⟩
              rw [hreport] at h
              cases answer with
              | error e => cases (Prod.mk.inj h).1
              | ok u =>
                  cases manifest with
                  | empty =>
                      obtain rfl := Except.ok.inj (Prod.mk.inj h).1
                      exact ⟨rfl, rfl⟩
                  | written entry made =>
                      obtain rfl := Except.ok.inj (Prod.mk.inj h).1
                      exact ⟨rfl, rfl⟩

/-- A build without copied directories delivers: every template that it counts as a module is there
as its module, and every copied file with its bytes, unless what the same build wrote later was
written at the same place. -/
theorem delivered_buildProject {report : Report} (hd : w.disk.Plain) (hsource : source.isAbsolute)
    (hout : output.isAbsolute) (hfile : w.disk.root.bytesAt source.place = none)
    (hbundler : c.bundler.enable = false) (hcopy : c.build.copyDirs = [])
    (h : (buildProject c source output).result w = (.ok report, after)) :
    ∃ products extras, Delivered c source output products extras report w.disk after.disk := by
  by_cases hwithin : output.isWithin source
  · rw [buildProject_eq, if_pos hwithin] at h
    cases (Prod.mk.inj h).1
  · have hmade := Disk.furnished_makeDirs hd hout
    rw [result_buildProject hwithin] at h
    cases hanswer : (Disk.makeDirs output w.disk).1 with
    | error e =>
        rw [hanswer] at h
        cases (Prod.mk.inj h).1
    | ok u =>
        rw [hanswer] at h
        have hstands := stands_of_makeDirs hd hout hanswer
        have hhoused := housed_reworked hstands
        generalize (Disk.makeDirs output w.disk).2 = start at hmade hstands hhoused h
        simp only [buildBelow, Job.result_bind, Job.result_say, hcopy, takeTree_nil] at h
        have hroot : start.root.bytesAt (passOf c source).root.place = none :=
          (hmade.bytesAt _).trans hfile
        split at h
        · next y mid hrun =>
            obtain ⟨hmid, made, hmade', hordered, hmet⟩ :=
              exists_made_run hhoused hsource hroot (Reworked.refl hmade.plain) hrun
            obtain ⟨routes, extras, hextras, hover⟩ :=
              overlaid_finish (w := mid) hout hbundler y hmid.plain
            obtain ⟨htranspiled, hcopied⟩ := counts_of_finish h
            rw [h] at hover
            rw [hmade'.references, List.nil_append] at hextras
            have hall := (Overlaid.of_furnished hmade).trans (hmade'.overlaid.trans hover)
            refine ⟨made, extras, hordered, ?_, ?_, hmade'.faithful, fun p hp => ?_,
              ⟨routes, hextras⟩, hall, ?_⟩
            · rw [htranspiled, hmade'.transpiled, Nat.zero_add]
            · rw [hcopied, hmade'.copied, Nat.zero_add]
            · obtain ⟨e, he, hread⟩ := hmade'.read p hp
              obtain ⟨hne, hskip, e', he', hkind⟩ := (hmet p hp).file rfl
              have hinside := not_inside_of_not_isWithin hout (isAbsolute_below hsource p.names) hskip
              exact (madeFrom_of_readFrom hsource hread he he' hkind hinside).of_furnished hmade
            · rintro before p later rfl hlater hdevice
              rw [hall.bytes _ hdevice, List.map_append, List.map_cons, List.append_assoc,
                List.cons_append]
              exact Disk.overlay_of_last hlater
        · cases (Prod.mk.inj h).1

/-- A configuration that copies no directories and bundles nothing. -/
def copyingNothing : Config := { build := { copyDirs := [] }, bundler := { enable := false } }

/-- A project with a page and another template of the given name. -/
def besidePages (name : Text) : Work where
  disk :=
    { root := .dir [("p".toList, .dir [("site".toList, .dir [
        ("pages".toList, .dir [("page.pw".toList, .file "<p>home</p>".toUTF8)]),
        (name, .file "<p>routes</p>".toUTF8)])])]
      cwd := [] }

theorem delivered_buildProject_table :
    Plain (besidePages "table.pw".toList).disk ∧
      ∃ report after, (buildProject copyingNothing ⟨"/p/site".toList⟩ ⟨"/p/out".toList⟩).result
          (besidePages "table.pw".toList) = (.ok report, after) ∧
        report.transpiled = 2 ∧ ∃ products extras, Delivered copyingNothing ⟨"/p/site".toList⟩
          ⟨"/p/out".toList⟩ products extras report (besidePages "table.pw".toList).disk
          after.disk := by
  have hplain : Plain (besidePages "table.pw".toList).disk := ⟨by decide, by decide⟩
  have hcount : ((buildProject copyingNothing ⟨"/p/site".toList⟩ ⟨"/p/out".toList⟩).result
      (besidePages "table.pw".toList)).1.toOption.map (·.transpiled) = some 2 := by
    decide +kernel
  refine ⟨hplain, ?_⟩
  rcases h : (buildProject copyingNothing ⟨"/p/site".toList⟩ ⟨"/p/out".toList⟩).result
    (besidePages "table.pw".toList) with ⟨answer, after⟩
  rw [h] at hcount
  cases answer with
  | error e => cases hcount
  | ok report =>
      refine ⟨report, after, rfl, Option.some.inj hcount, ?_⟩
      exact delivered_buildProject hplain (by decide) (by decide) (by decide) rfl rfl h

/-- A template whose module would stand where the route table is written: both are counted as
written, and the module is not there. -/
theorem bytesAt_buildProject_routes :
    Plain (besidePages "routes.pw".toList).disk ∧ copyingNothing.validate = .ok () ∧
      ∃ code, ((passOf copyingNothing ⟨"/p/site".toList⟩).outcomeOf ⟨"/p/site/routes.pw".toList⟩
          "<p>routes</p>".toList).toOption = some (.module code []) ∧
        ((passOf copyingNothing ⟨"/p/site".toList⟩).outputPath
          (relativePath ["routes.pw".toList]) ⟨"/p/out".toList⟩).toOption =
            some ⟨"/p/out/routes.js".toList⟩ ∧
        ((buildProject copyingNothing ⟨"/p/site".toList⟩ ⟨"/p/out".toList⟩).result
          (besidePages "routes.pw".toList)).1.toOption.map (·.transpiled) = some 2 ∧
        ((buildProject copyingNothing ⟨"/p/site".toList⟩ ⟨"/p/out".toList⟩).result
          (besidePages "routes.pw".toList)).2.disk.root.bytesAt
            ["p".toList, "out".toList, "routes.js".toList] ≠ some code.toBytes := by
  refine ⟨⟨by decide, by decide⟩, rfl,
    ((Template.compile (passOf copyingNothing ⟨"/p/site".toList⟩).ext "routes".toList
      "<p>routes</p>".toList).toOption.map (·.code)).getD [], ?_⟩
  decide +kernel

end Quire.Build
