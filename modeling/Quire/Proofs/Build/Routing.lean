import Quire.Proofs.Build.Mirroring
import Quire.Proofs.Build.Reporting

/-!
The routes of a build into an output that held nothing. They are those of the directories for which
the walk through the sources wrote a page, and their table is written unless the disk refuses it.
-/

namespace Quire

namespace Path

variable {n stem old ext : Text}

/-- A name that gets another extension keeps its stem. -/
theorem renamed_eq_append_iff (hparts : nameParts n = (stem, some old)) (hne : ext ≠ [])
    (hdot : '.' ∉ ext) {other : Text} (hother : other ≠ ['.']) :
    renamed n ext = other ++ '.' :: ext ↔ stem = other := by
  rw [renamed, hparts]
  dsimp only [dotted]
  rw [if_neg hne]
  split
  · next hstem =>
      subst hstem
      refine iff_of_false (fun h => hne ?_) fun h => hother h.symm
      -- the extension would be what is behind the last dot of the name
      have hcut := Text.cutLast_append hdot other
      rw [← h] at hcut
      exact (Prod.mk.inj (Option.some.inj hcut)).2.symm
  · exact List.append_left_inj ('.' :: ext)

end Path

namespace Build

open Disk (Place Plain Node IsName IsLong Leads)
open Quire.Path (Ordinary)
open Route (Marked plainMarkers pagesDir)

variable {d e : Disk} {w : Work} {pass : Pass} {source output : Path} {c : Config}
  {dir names : List Text} {stem : Text} {found : List Finding} {y : Yield} {routes : List Route}

/-- The walk wrote a marked file of a directory: as the module of the template of that name, or as a
copy. -/
def Supplied (ext : Template.Extensions) (found : List Finding) (dir : List Text) (stem : Text) :
    Prop :=
  ∃ f ∈ found,
    f.fate.isTranspiled ∧ f.names = dir ++ [stem ++ '.' :: ext.template] ∨
      f.fate.isCopied ∧ f.names = dir ++ [stem ++ '.' :: ext.module]

instance (ext : Template.Extensions) (found : List Finding) (dir : List Text) (stem : Text) :
    Decidable (Supplied ext found dir stem) :=
  inferInstanceAs (Decidable (∃ f ∈ found, _))

/-- A finding lands on a marked file if it supplies it. -/
theorem landing_iff_supplied (h : Accounted pass output d found y) (hne : pass.ext.module ≠ [])
    (hdot : '.' ∉ pass.ext.module) (hstem : Ordinary stem) :
    (∃ f ∈ found, f.landing? pass.ext.module = some (dir ++ [stem ++ '.' :: pass.ext.module])) ↔
      Supplied pass.ext found dir stem := by
  refine exists_congr fun f => and_congr_right fun hf => ?_
  obtain ⟨e, -, hends⟩ := h.ends f hf
  have hnames := h.isName f hf
  have hfile : f.met = .file → f.names ≠ [] := fun hfile =>
    ((h.file f.names).1 ⟨f, hf, rfl, hfile⟩).ne_nil
  obtain ⟨names, m, fate⟩ := f
  dsimp only at hends hnames hfile
  cases hends with
  | transpiled htemplate houtcome hdst hwritten =>
      obtain ⟨front, n, rfl⟩ := (List.eq_nil_or_concat' names).resolve_left (hfile rfl)
      have hn := (List.forall_mem_singleton.1 (List.forall_mem_append.1 hnames).2).toOrdinary
      have hparts : Path.nameParts n = ((Path.nameParts n).1, some pass.ext.template) := by
        have hext := htemplate.2
        rw [below_concat, Path.extension?_child _ hn] at hext
        exact Prod.ext rfl hext
      have hlanding : (front ++ [Path.renamed n pass.ext.module] =
          dir ++ [stem ++ '.' :: pass.ext.module]) ↔
            front ++ [n] = dir ++ [stem ++ '.' :: pass.ext.template] := by
        rw [List.append_singleton_inj, List.append_singleton_inj,
          Path.renamed_eq_append_iff hparts hne hdot hstem.ne_dot]
        have hsplit := (Path.nameParts_eq_some hparts).1
        exact and_congr_right fun _ =>
          ⟨fun h => hsplit.trans (congrArg (· ++ '.' :: pass.ext.template) h),
            fun h => List.append_cancel_right (hsplit.symm.trans h)⟩
      simpa [Finding.landing?, Fate.isTranspiled, Fate.isCopied] using hlanding
  | copied hasset hcopied => simp [Finding.landing?, Fate.isTranspiled, Fate.isCopied]
  | _ => simp [Finding.landing?, Fate.isTranspiled, Fate.isCopied]

theorem Listable.leads_below (h : Listable output d) (hnames : ∀ n ∈ names, IsName n)
    (hdir : d.root.kindAt (output.place ++ names) = some .dir) : Leads d (below output names) := by
  have hcheck := checkPath_below h.leads hnames
  rw [if_neg (h.short names hdir)] at hcheck
  exact h.leads.below h.plain hnames hcheck hdir

/-- The route of a directory for which the walk wrote a page. -/
def routeFor (ext : Template.Extensions) (found : List Finding) (names : List Text) : Route where
  path := Route.Scan.address names
  page := ['/'].intercalate (pagesDir :: names ++ ["page".toList])
  layout :=
    if Supplied ext found (pagesDir :: names) "layout".toList then
      some (['/'].intercalate (pagesDir :: names ++ ["layout".toList]))
    else none

/-- One route for each directory at or below the pages for which the walk wrote a page, in the order
of the directories' names, with a layout exactly if the walk wrote one for the same directory. -/
def Mirrored (ext : Template.Extensions) (found : List Finding) (routes : List Route) : Prop :=
  ∃ dirs : List (List Text), dirs.Pairwise (· < ·) ∧
    (∀ names, names ∈ dirs ↔ Supplied ext found (pagesDir :: names) "page".toList) ∧
    routes = dirs.map (routeFor ext found)

section

variable (haccount : Accounted pass output e found y)
  (h : Mirrors pass.ext.module output found d) (hne : pass.ext.module ≠ [])
  (hdot : '.' ∉ pass.ext.module) (hslash : '/' ∉ pass.ext.module)

include haccount h hne hdot

theorem marked_iff_supplied (names : List Text) (hstem : Ordinary stem) :
    Marked d (output.child pagesDir) names (stem ++ '.' :: pass.ext.module) ↔
      Supplied pass.ext found (pagesDir :: names) stem := by
  have hplace : (output.child pagesDir).place = output.place ++ [pagesDir] :=
    Path.place_child h.listable.leads.isAbsolute (by decide)
  rw [← landing_iff_supplied haccount hne hdot hstem, Marked, hplace, List.append_assoc,
    List.singleton_append, ← List.cons_append, h.files, and_iff_left_iff_imp]
  rintro ⟨f, hf, hlanding⟩
  have hshort := h.short f hf _ hlanding
  rwa [below_concat] at hshort

include hslash

theorem exists_run_of_mirrors :
    ∃ routes, Route.Scan.run ⟨d, output, plainMarkers pass.ext.module⟩ (output.child pagesDir) =
        .ok routes ∧ Mirrored pass.ext found routes := by
  have hout := h.listable.leads.isAbsolute
  have hplace : (output.child pagesDir).place = output.place ++ [pagesDir] :=
    Path.place_child hout (by decide)
  have hmarked := fun names => marked_iff_supplied haccount h hne hdot names
    (by decide : Ordinary "page".toList)
  by_cases hdir : d.isDir (output.child pagesDir)
  · have hlisted : ∀ names, ¬ Route.Unlisted d (output.child pagesDir) names := by
      rintro names ⟨hkind, hlong⟩
      rw [hplace, List.append_assoc] at hkind
      exact h.listable.short (pagesDir :: names) hkind hlong
    obtain ⟨dirs, hordered, hmem, hrun⟩ := Route.run_of_forall_not_unlisted hout
      (Path.isAbsolute_child hout pagesDir) hplace hdot hslash h.listable.plain
      (Disk.leads_of_isDir h.listable.plain (Path.isAbsolute_child hout pagesDir) hdir) hlisted
    refine ⟨_, hrun, dirs, hordered, fun names => (hmem names).trans (hmarked names),
      List.map_congr_left fun names _ => ?_⟩
    have hlayout := marked_iff_supplied haccount h hne hdot names
      (by decide : Ordinary "layout".toList)
    rw [Route.routeOf, routeFor, Route.mk.injEq]
    exact ⟨rfl, rfl, if_congr hlayout rfl rfl⟩
  · have hnone : ∀ names, ¬ Supplied pass.ext found (pagesDir :: names) "page".toList := by
      intro names hsupplied
      have hkind := ((hmarked names).2 hsupplied).dir
      have hpages := Disk.kindAt_of_isPrefix (List.prefix_append _ _) hkind
      rw [hplace] at hpages
      exact hdir ((h.listable.leads_below (by decide) hpages).isDir h.listable.plain)
    exact ⟨[], Route.Scan.run_of_not_isDir hdir, [], List.Pairwise.nil,
      fun names => iff_of_false List.not_mem_nil (hnone names), rfl⟩

end

/-- What a build does before it looks for routes. -/
def walk (c : Config) (source output : Path) : Job Yield := do
  change (Disk.makeDirs output) (.disk output)
  say .build (source.text ++ " -> ".toList ++ output.text)
  (passOf c source).takeTree output c.build.copyDirs

theorem buildProject_eq_walk (h : ¬ output.isWithin source) :
    buildProject c source output = walk c source output >>= finish c output := by
  rw [buildProject_eq, if_neg h, walk, bind_assoc]
  refine congrArg _ (funext fun _ => ?_)
  rw [bind_assoc]
  rfl

/-- What comes of a build into an output that held nothing: the account of its walk, the routes that
it scans after the walk, and what it reports. -/
structure Built (c : Config) (source output : Path) (w : Work) (found : List Finding) (y : Yield)
    (mid : Work) (routes : List Route) (report : Report) : Prop where
  walked : (walk c source output).result w = (.ok y, mid)
  accounted : Accounted (passOf c source) output (Disk.makeDirs output w.disk).2 found y
  scanned : Route.Scan.run ⟨mid.disk, output, markersOf c⟩ (output.child pagesDir) = .ok routes
  mirrored : Mirrored (passOf c source).ext found routes
  told : report.routes.Tells output routes
  reports : Reports output y report.routes report

/-- Making an output that holds nothing leaves it so. -/
theorem empty_of_makeDirs (hd : d.Plain) (hout : Path.Straight output)
    (hempty : ∀ q, Inside output.place q → d.root.kindAt q = none) :
    ∀ q, Inside output.place q → (Disk.makeDirs output d).2.root.kindAt q = none := by
  intro q hq
  rw [← hempty q hq]
  refine Node.kindAt_congr (Disk.seen_makeDirs hd hout fun hpre => ?_)
  obtain ⟨n, rest, rfl⟩ := hq
  have hlength := hpre.length_le
  simp only [List.length_append, List.length_cons] at hlength
  omega

/-- The walk into an output that held nothing comes to an end, and leaves what its account tells and
what each meeting keeps besides. -/
theorem exists_walk {P : List Finding → Disk → Prop} (hd : w.disk.Plain)
    (hsource : source.isAbsolute) (hsource' : source.sameSteps source.normalize)
    (hdir : w.disk.isDir source) (hout : output.isAbsolute)
    (hout' : output.sameSteps output.normalize) (hwithin : ¬ output.isWithin source)
    (hmade : (Disk.makeDirs output w.disk).1 = .ok ())
    (hempty : ∀ q, Inside output.place q → w.disk.root.kindAt q = none)
    (hslash : '/' ∉ c.build.moduleExt) (hcopy : c.build.copyDirs = [])
    (hstep : ∀ before f y w' after,
      Confined (Inside output.place) (Disk.makeDirs output w.disk).2 w'.disk →
      Mirrors c.build.moduleExt output before w'.disk → P before w'.disk →
      (∀ n ∈ f.names, IsName n) →
      (f.met = .file →
        Due ((passOf c source).visit output) (Disk.makeDirs output w.disk).2 f.names) →
      Ends (passOf c source) output (Disk.makeDirs output w.disk).2 w'.disk f.names f.met f.fate →
      ((passOf c source).take output y f.names f.met).result w' = (.ok (y.add source f), after) →
      P (before ++ [f]) after.disk)
    (hP : Leads (Disk.makeDirs output w.disk).2 output → P [] (Disk.makeDirs output w.disk).2) :
    ∃ found y mid, (walk c source output).result w = (.ok y, mid) ∧
      Accounted (passOf c source) output (Disk.makeDirs output w.disk).2 found y ∧
      Mirrors c.build.moduleExt output found mid.disk ∧ P found mid.disk := by
  have hstraight := Path.straight_of_normalize hout hout'
  have hnil : output.place ≠ [] := fun hnil =>
    hwithin (((Path.straight_of_normalize hsource hsource').isWithin_iff hstraight).2
      (hnil ▸ List.nil_prefix))
  have hfurnished := Disk.furnished_makeDirs hd hout
  have hleads := (stands_of_makeDirs hd hout hmade).leads.resolve_right hnil
  obtain ⟨start, hstart⟩ : ∃ start : Work, start = { w with
      disk := (Disk.makeDirs output w.disk).2
      log := w.log ++ [⟨.build, source.text ++ " -> ".toList ++ output.text, false⟩] } := ⟨_, rfl⟩
  have hdisk : start.disk = (Disk.makeDirs output w.disk).2 := by rw [hstart]
  rw [← hdisk] at hstep hP hfurnished hleads ⊢
  obtain ⟨found, y, mid, hwalk, haccount, hmirrors, hmid⟩ :=
    exists_mirrors_takeTree hfurnished.plain (show (passOf c source).root.isAbsolute from hsource)
      (hfurnished.isDir hd hdir) hslash hleads
      (hdisk ▸ empty_of_makeDirs hd hstraight hempty) hstep (hP hleads)
  refine ⟨found, y, mid, ?_, haccount, hmirrors, hmid⟩
  rw [walk, hcopy, Job.result_bind, Job.result_change, hmade]
  dsimp only
  rw [Job.result_bind, Job.result_say]
  exact hstart ▸ hwalk

/-- After the walk, the build scans the routes and reports. -/
theorem exists_built {found : List Finding} {y : Yield} {mid : Work}
    (hwithin : ¬ output.isWithin source) (hne : c.build.moduleExt ≠ [])
    (hdot : '.' ∉ c.build.moduleExt) (hslash : '/' ∉ c.build.moduleExt)
    (hbundler : c.bundler.enable = false) (hwalked : (walk c source output).result w = (.ok y, mid))
    (haccount : Accounted (passOf c source) output (Disk.makeDirs output w.disk).2 found y)
    (hmirrors : Mirrors c.build.moduleExt output found mid.disk) :
    ∃ routes report last after,
      (emitRoutes c output).result mid = (.ok report.routes, last) ∧
        (buildProject c source output).result w = (.ok report, after) ∧
        Built c source output w found y mid routes report := by
  obtain ⟨routes, hrun, hmirrored⟩ :=
    exists_run_of_mirrors haccount hmirrors hne hdot hslash
  obtain ⟨status, last, hstatus, htold⟩ :=
    exists_status_emitRoutes hmirrors.listable.plain hmirrors.listable.leads hdot hslash hrun
  obtain ⟨report, after, hfinish, hreports⟩ := exists_report_finish hbundler y hstatus
  obtain rfl := hreports.routes
  refine ⟨routes, report, last, after, hstatus, ?_, hwalked, haccount, hrun, hmirrored, htold,
    hreports⟩
  rw [buildProject_eq_walk hwithin, Job.result_bind, hwalked]
  exact hfinish

/-- Pages with a layout, and three directories: one with a page that is copied, one with a page that
is no template, and one with a page for the browser alone. -/
def pagesProject : Work where
  disk :=
    { root := .dir [("p".toList, .dir [("site".toList, .dir [("pages".toList, .dir [
        ("blog".toList, .dir [("page.js".toList, .file "blog".toUTF8)]),
        ("draft".toList, .dir [("page.pw".toList, .file "\x7b".toUTF8)]),
        ("layout.pw".toList, .file "<main>site</main>".toUTF8),
        ("page.pw".toList, .file "<p>home</p>".toUTF8),
        ("player".toList, .dir [("page.pw".toList, .file "\"use client\"".toUTF8)])])])])]
      cwd := [] }

/-- A configuration whose modules have no extension. -/
def extensionless : Config :=
  { build := { moduleExt := [], copyDirs := [] }, bundler := { enable := false } }

/-- A project with one template, whose name ends in a dot and the extension. -/
def dottedProject : Work where
  disk :=
    { root := .dir [("p".toList, .dir [("site".toList, .dir [("pages".toList, .dir [
        ("page..pw".toList, .file "<p>home</p>".toUTF8)])])])]
      cwd := [] }

end Build

end Quire
