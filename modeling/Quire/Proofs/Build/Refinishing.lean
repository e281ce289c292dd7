import Mathlib.Data.List.Find
import Quire.Proofs.Build.Steady
import Quire.Proofs.Route.Scanning

/-!
Finishing a build a second time. The route table, the server's script and the entry script stand
beside the routed modules; so writing them changes nothing that the table is made from.
-/

namespace Quire.Build

open Disk (Place Plain Node IsName Leads)
open Quire.Path (Ordinary Straight)

variable {d e last : Disk} {place : Place} {output : Path} {n : Text} {names : List Text}
  {P : Disk → Prop} {c : Config}

/-- In the output, and not among the routed modules. -/
def Beside (output : Path) (q : Place) : Prop :=
  Inside output.place q ∧ ¬ output.place ++ [Route.pagesDir] <+: q

theorem beside_of_ne (h : n ≠ Route.pagesDir) (rest : List Text) :
    Beside output (output.place ++ n :: rest) := by
  refine ⟨⟨n, rest, rfl⟩, fun hpre => h ?_⟩
  rw [List.prefix_append_right_inj, List.cons_prefix_cons] at hpre
  exact hpre.1.symm

theorem fixed_pages (output : Path) (names : List Text) :
    Fixed (Beside output) (output.place ++ Route.pagesDir :: names) := by
  rintro q hq ⟨⟨n, rest, rfl⟩, hpages⟩
  rw [List.prefix_append_right_inj, List.cons_prefix_cons] at hq
  obtain ⟨rfl, _⟩ := hq
  exact hpages ⟨rest, by simp⟩

/-- What is among the routed modules is seen alike the second time. -/
theorem Trails.alike_pages (htrails : Trails last d e) (hlast : Reworked (Beside output) d last)
    (hd : d.Plain) (hout : Straight output) (hnames : ∀ n ∈ names, Ordinary n) :
    Straight (below output (Route.pagesDir :: names)) ∧
      Disk.Alike (below output (Route.pagesDir :: names)).place d e := by
  have hall : ∀ n ∈ Route.pagesDir :: names, Ordinary n :=
    List.forall_mem_cons.2 ⟨by decide, hnames⟩
  refine ⟨hout.foldl_child hall, htrails.alike hlast hd ?_⟩
  rw [place_below hout.isAbsolute hall]
  exact fixed_pages output names

theorem ordinary_marker (hext : '/' ∉ c.build.moduleExt) :
    ∀ marker ∈ [c.pageMarker, c.layoutMarker],
      Ordinary marker ∧ Ordinary (Path.renamed marker []) := by
  have hmarker : ∀ (k : Char) (t : Text), k ≠ '.' → Ordinary (k :: t) →
      Ordinary (k :: t) ∧ Ordinary (Path.renamed (k :: t) []) :=
    fun k t hk ht => ⟨ht, Path.ordinary_renamed ht hk (by simp)⟩
  intro marker hmem
  rcases List.mem_cons.1 hmem with rfl | hmem
  · exact hmarker 'p' ("age.".toList ++ c.build.moduleExt) (by decide)
      ⟨by simp, by simp [hext], by simp, by simp⟩
  · rw [List.mem_singleton.1 hmem]
    exact hmarker 'l' ("ayout.".toList ++ c.build.moduleExt) (by decide)
      ⟨by simp, by simp [hext], by simp, by simp⟩

/-- A marked file is referred to by the names that lead to it from the output, and its module stands
under its stem. -/
theorem reference_of_marker {marker : Text} (hout : output.isAbsolute)
    (hext : '/' ∉ c.build.moduleExt) (hnames : ∀ n ∈ names, IsName n)
    (hmarker : marker ∈ [c.pageMarker, c.layoutMarker]) :
    Route.Scan.reference ⟨d, output, markersOf c⟩ (below output (Route.pagesDir :: names)) marker =
        ['/'].intercalate (Route.pagesDir :: names ++ [Path.renamed marker []]) ∧
      (∀ n ∈ names ++ [Path.renamed marker [] ++ '.' :: c.build.moduleExt], Ordinary n) ∧
      output.child (['/'].intercalate (Route.pagesDir :: names ++ [Path.renamed marker []]) ++
          '.' :: c.build.moduleExt) =
        below output
          (Route.pagesDir :: (names ++ [Path.renamed marker [] ++ '.' :: c.build.moduleExt])) := by
  have hordinary : ∀ n ∈ Route.pagesDir :: names, Ordinary n :=
    List.forall_mem_cons.2 ⟨by decide, fun n hn => (hnames n hn).toOrdinary⟩
  obtain ⟨hm, hstem⟩ := ordinary_marker hext marker hmarker
  have hall : ∀ n ∈ names ++ [Path.renamed marker [] ++ '.' :: c.build.moduleExt],
      Ordinary n := by
    intro n hn
    rcases List.mem_append.1 hn with hn | hn
    · exact hordinary n (List.mem_cons_of_mem _ hn)
    · rw [List.mem_singleton.1 hn]
      exact hstem.append_dot hext
  refine ⟨?_, hall, ?_⟩
  · exact Route.Scan.reference_of_place hout (isAbsolute_below hout (Route.pagesDir :: names))
      (place_below hout hordinary) hm hstem
  · rw [Text.intercalate_concat_append, List.cons_append]
    exact Path.child_intercalate (List.forall_mem_cons.2 ⟨by decide, hall⟩) (by simp) output

/-- The modules that the routes of an output need are among its routed modules. -/
theorem exists_names_of_mem_modulesOf {r : Route} {routes : List Route} {file : Path} (hd : d.Plain)
    (hout : output.isAbsolute) (hext : '/' ∉ c.build.moduleExt)
    (hrun : Route.Scan.run ⟨d, output, markersOf c⟩ (output.child Route.pagesDir) = .ok routes)
    (hr : r ∈ routes) (hfile : file ∈ modulesOf output c.build.moduleExt r) :
    ∃ names, (∀ n ∈ names, Ordinary n) ∧ file = below output (Route.pagesDir :: names) := by
  obtain ⟨names, hnames, hroute⟩ := Route.Scan.exists_routeAt_of_mem_run hd hrun hr
  obtain ⟨reference, hmem, rfl⟩ := List.mem_map.1 hfile
  obtain ⟨marker, hmarker, rfl⟩ := Route.Scan.exists_marker_of_mem hroute hmem
  obtain ⟨hreference, hall, hmodule⟩ := reference_of_marker (d := d) hout hext hnames hmarker
  refine ⟨_, hall, ?_⟩
  rw [← hmodule]
  exact congrArg (fun reference => output.child (reference ++ '.' :: c.build.moduleExt)) hreference

/-- The routes of an output are the same the second time. -/
theorem Trails.run (htrails : Trails last d e) (hlast : Reworked (Beside output) d last)
    (hd : d.Plain) (hout : Straight output) (hext : '/' ∉ c.build.moduleExt) :
    Route.Scan.run ⟨e, output, markersOf c⟩ (output.child Route.pagesDir) =
      Route.Scan.run ⟨d, output, markersOf c⟩ (output.child Route.pagesDir) := by
  obtain ⟨hpages, halike⟩ := htrails.alike_pages hlast hd hout (List.forall_mem_nil Ordinary)
  have hkind : ∀ q, e.root.kindAt (output.place ++ Route.pagesDir :: q) =
      d.root.kindAt (output.place ++ Route.pagesDir :: q) := by
    intro q
    exact htrails.kindAt_eq hlast (fixed_pages output q _ (List.prefix_refl _))
  rcases halike.node? hpages with ⟨f, hnode, hnode'⟩ | ⟨k, m, hnode, hnode', hk, hm, _⟩
  · exact (Route.Scan.run_of_nothing (s := ⟨e, output, markersOf c⟩) hnode').trans
      (Route.Scan.run_of_nothing (s := ⟨d, output, markersOf c⟩) hnode).symm
  · have hkPlain := (Node.isPlain_get? hd.tree hk).1
    have hordinary : ∀ names ∈ k.dirs, ∀ n ∈ names, Ordinary n := by
      intro names hnames
      obtain ⟨_, hdir⟩ := Node.kindAt_dir_iff.1 ((Node.mem_dirs_iff hkPlain).1 hnames)
      exact fun n hn => ((Node.isPlain_get? hkPlain hdir).2 n hn).toOrdinary
    refine Route.Scan.run_congr hnode hnode' ?_
      (fun names hnames => Route.Scan.unlisted?_congr ?_)
      fun names hnames => Route.Scan.routeAt_congr rfl rfl fun marker hmarker => ?_
    · refine Node.dirs_congr hkPlain (Node.isPlain_get? htrails.plain.tree hm).1 fun q => ?_
      rw [← Node.kindAt_append hk, ← Node.kindAt_append hm,
        place_below hout.isAbsolute (by decide : ∀ n ∈ [Route.pagesDir], Ordinary n),
        List.append_assoc, List.singleton_append, hkind]
    · obtain ⟨hstraight, halike⟩ := htrails.alike_pages hlast hd hout (hordinary names hnames)
      refine halike.listing hstraight fun n => ?_
      rw [place_below hout.isAbsolute
        (List.forall_mem_cons.2 ⟨by decide, hordinary names hnames⟩), List.append_assoc]
      exact hkind (names ++ [n])
    · have hall : ∀ n ∈ names ++ [marker], Ordinary n := by
        intro n hn
        rcases List.mem_append.1 hn with hn | hn
        · exact hordinary names hnames n hn
        · rw [List.mem_singleton.1 hn]
          exact (ordinary_marker hext marker hmarker).1
      obtain ⟨hstraight, halike⟩ := htrails.alike_pages hlast hd hout hall
      have hsame := halike.isFile hstraight
      rwa [← List.cons_append, below_concat] at hsame

/-- A table is as good the second time as it was before. -/
theorem Trails.tableFault? (htrails : Trails last d e) (hlast : Reworked (Beside output) d last)
    (hd : d.Plain) (hout : Straight output) {ext : Text} {routes : List Route}
    (hroutes : ∀ r ∈ routes, ∀ file ∈ modulesOf output ext r,
      ∃ names, (∀ n ∈ names, Ordinary n) ∧ file = below output (Route.pagesDir :: names)) :
    tableFault? e output ext routes = tableFault? d output ext routes := by
  have hmissing : ∀ r ∈ routes, missingModule? e output ext r = missingModule? d output ext r := by
    intro r hr
    unfold missingModule?
    rw [List.find?_congr fun file hfile => ?_]
    obtain ⟨names, hnames, rfl⟩ := hroutes r hr file hfile
    obtain ⟨hstraight, halike⟩ := htrails.alike_pages hlast hd hout hnames
    rw [halike.isFile hstraight]
  rw [Build.tableFault?, Build.tableFault?, Route.Scan.findSome?_congr hmissing]

/-- A file that a build makes by itself, in the output. -/
theorem steady_emitFile {t : Text} (hn : Ordinary n) (hpages : n ≠ Route.pagesDir) :
    Steady output (Beside output) last P (emitFile (output.child n) t) := by
  exact Steady.change (lasting_writeText (fun _ hd _ => hd.leads) (Or.inl hn)
    fun _ _ _ _ => beside_of_ne hpages []) _

theorem steady_emit {ext : Text} {routes : List Route} (hout : Straight output)
    (hroutes : ∀ r ∈ routes, ∀ file ∈ modulesOf output ext r,
      ∃ names, (∀ n ∈ names, Ordinary n) ∧ file = below output (Route.pagesDir :: names)) :
    Steady output (Beside output) last P (emit output ext routes) := by
  unfold Build.emit
  refine Steady.look (fun d e hd _ htrails hlast => ?_) fun d hd _ => ?_
  · rw [htrails.tableFault? hlast hd.plain hout hroutes]
  · cases tableFault? d output ext routes with
    | some fault => exact Steady.fail _
    | none =>
        refine Steady.next (Steady.change ?_ _) fun _ => ?_
        · exact lasting_makeDirs_there fun _ hd _ => hd.leads
        refine Steady.next (steady_emitFile (by decide) (by decide)) fun _ => ?_
        exact (steady_emitFile (by decide) (by decide)).next fun _ => Steady.pure _

theorem steady_emitRoutes (hout : Straight output) (hext : '/' ∉ c.build.moduleExt) :
    Steady output (Beside output) last P (emitRoutes c output) := by
  unfold Build.emitRoutes
  refine Steady.look (fun d e hd _ htrails hlast => ?_) fun d hd _ => ?_
  · obtain ⟨hpages, halike⟩ := htrails.alike_pages hlast hd.plain hout (List.forall_mem_nil Ordinary)
    rw [show e.isDir (output.child Route.pagesDir) = d.isDir (output.child Route.pagesDir) from
      halike.isDir hpages]
  · split
    · exact (Steady.say _ _).next fun _ => Steady.pure _
    · refine Steady.look (fun d e hd _ htrails hlast => ?_) fun d hd _ => ?_
      · rw [htrails.run hlast hd.plain hout hext]
      · cases hrun : Route.Scan.run ⟨d, output, markersOf c⟩ (output.child Route.pagesDir) with
        | error unlisted => exact (Steady.say _ _).next fun _ => Steady.pure _
        | ok routes =>
            dsimp only
            split
            · exact (Steady.say _ _).next fun _ => Steady.pure _
            · refine Steady.next (Steady.attempt (steady_emit hout fun r hr file hfile => ?_))
                fun answer => ?_
              · exact exists_names_of_mem_modulesOf hd.plain hout.isAbsolute hext hrun hr hfile
              · cases answer with
                | ok table => exact (Steady.say _ _).next fun _ => Steady.pure _
                | error f => exact (Steady.say _ _).next fun _ => Steady.pure _

theorem steady_writeManifest {b : Config.Bundler} (hout : Straight output) (hb : b.enable = false)
    (references : List Reference) :
    Steady output (Beside output) last P (writeManifest b output references) := by
  have hname : ∀ n ∈ [clientDir.text], IsName n := by simp [isName_clientDir]
  have htrimmed : (below output [clientDir.text]).trimmed = below output [clientDir.text] :=
    Path.trimmed_child hout.isAbsolute isName_clientDir.toOrdinary
  have hplace : (below output [clientDir.text]).place = output.place ++ [clientDir.text] :=
    place_below hout.isAbsolute (by simp [isName_clientDir.toOrdinary])
  have hdirs : Lasting output (Beside output) last (fun _ => True)
      (Disk.makeDirs (below output [clientDir.text]).trimmed) := by
    refine lasting_makeDirs_below hname fun pre hne hpre => ?_
    obtain ⟨n, rest, rfl⟩ := List.exists_cons_of_ne_nil hne
    rw [List.cons_prefix_cons] at hpre
    rw [hpre.1]
    exact beside_of_ne (by decide) rest
  unfold Build.writeManifest
  split
  · exact Steady.pure _
  · refine Steady.next (Steady.orFail _) fun script => ?_
    rw [join_clientDir]
    refine Steady.bind (Q := fun _ d => Leads d (below output [clientDir.text]))
      (Steady.change ?_ _) (fun _ => ?_) fun w _ hw _ hok => ?_
    · rw [← htrimmed]
      exact hdirs
    · refine Steady.next (Steady.change (lasting_writeText (fun _ _ h => h) (Or.inl (by decide))
        fun _ _ _ _ => ?_) _) fun _ => ?_
      · rw [hplace, List.append_assoc]
        exact beside_of_ne (by decide) _
      · rw [if_neg (by simp [hb])]
        exact Steady.pure _
    · have hmade := Job.ok_of_change hok
      rw [Job.result_change]
      rw [← htrimmed] at hmade ⊢
      have hleads := leads_of_makeDirs_below hw hname hmade
      rwa [htrimmed] at hleads ⊢

theorem steady_report (output : Path) {free : Place → Prop} (references : List Reference)
    (m : Manifest) : Steady output free last P (m.report output references) := by
  refine Steady.any ?_
  cases m with
  | empty => exact Steady.say _ _
  | written entry made =>
      refine (Steady.forM references fun _ => Steady.detail _ _).next fun _ => ?_
      refine (Steady.say _ _).next fun _ => ?_
      cases made with
      | none => exact Steady.pure _
      | some b =>
          cases b with
          | built => exact Steady.say _ _
          | unavailable _ => exact Steady.say _ _
          | failed _ _ => exact Steady.say _ _

/-- What a build does after its visit is done in the same way again. -/
theorem steady_finish (hout : Straight output) (hext : '/' ∉ c.build.moduleExt)
    (hbundler : c.bundler.enable = false) (y : Yield) :
    Steady output (Beside output) last P (finish c output y) := by
  unfold finish
  refine (steady_emitRoutes hout hext).next fun routes => ?_
  refine (Steady.attempt (steady_writeManifest hout hbundler _)).next fun answer => ?_
  cases answer with
  | error f => exact (Steady.say _ _).next fun _ => Steady.pure _
  | ok manifest =>
      refine (steady_report output _ manifest).next fun _ => ?_
      cases manifest <;> exact Steady.pure _

end Quire.Build
