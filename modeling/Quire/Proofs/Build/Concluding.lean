import Quire.Proofs.Build.Lockstep
import Quire.Proofs.Build.Refinishing

/-!
Two builds in lockstep after their walks. The same routes are found under two spellings of the
output, the same is wrong with their table or the same table is written, and so is the entry script;
the reports differ at most in how they spell paths.
-/

namespace Quire.Build

open Disk (Place Node IsName Leads extent)
open Quire.Path (Ordinary)

variable {F : Failure → Failure → Prop} {c : Config} {d e start : Disk} {size spare : Nat}
  {output output' : Path} {names : List Text} {y y' : Yield} {w : Work}

/-- What came of the route table, with paths in normal form. -/
def RouteStatus.settled : RouteStatus → RouteStatus
  | .failed f => .failed f.settled
  | status => status

/-- What came of a project, with paths in normal form. -/
def Report.settled (r : Report) : Report :=
  { r with
    failed := r.failed.map fun (p, f) => (p.normalize, f.settled)
    routes := r.routes.settled }

/-- What is in the output is not too far down. -/
theorem OneDisk.extent_le {out : Place} (hR : OneDisk start out (size + spare) d e)
    (hbound : ∀ q, (start.root.kindAt q).isSome → extent q ≤ size)
    (h : (d.root.kindAt (out ++ names)).isSome) : extent names ≤ size + spare := by
  by_cases hgrown : Grown out (size + spare) (out ++ names)
  · obtain ⟨more, -, hmore, hle⟩ := hgrown
    rwa [List.append_cancel_left hmore]
  · have hle := hbound (out ++ names) (by rwa [← Node.kindAt_congr (hR.grown.frame _ hgrown)])
    rw [Disk.extent_append] at hle
    omega

theorem unlisted?_of_leads {s : Route.Scan} {dir : Path} (hd : s.disk.Plain)
    (h : Leads s.disk dir) : s.unlisted? dir = none := by
  obtain ⟨children, hget⟩ := Node.kindAt_dir_iff.1 h.dir
  exact Route.Scan.unlisted?_of_ok
    (Disk.listing_ok_iff.2 ⟨_, children, Leads.place? hd h, hget, rfl⟩)

/-- The module that is missed first, through the references of a route. -/
theorem settled_missingModule? (d : Disk) (o : Path) (ext : Text) (r : Route) :
    (missingModule? d o ext r).map TableFault.settled =
      ((r.page :: r.layout.toList).find? fun reference =>
        !d.isFile (o.child (reference ++ '.' :: ext))).map fun reference =>
          .missing r.path (o.child (reference ++ '.' :: ext)).normalize := by
  unfold missingModule? modulesOf
  rw [List.find?_map, Option.map_map, Option.map_map]
  rfl

/-- How much longer the paths of a marked file and of the module that it is taken for are. -/
theorem byteSize_marker {marker : Text} (hspare : 64 + 2 * c.build.moduleExt.byteSize ≤ spare)
    (hslash : '/' ∉ c.build.moduleExt) (hmarker : marker ∈ [c.pageMarker, c.layoutMarker]) :
    marker.byteSize + 1 ≤ spare ∧
      (Path.renamed marker [] ++ '.' :: c.build.moduleExt).byteSize + 1 ≤ spare := by
  have hsize : marker.byteSize ≤ 7 + c.build.moduleExt.byteSize := by
    rcases List.mem_cons.1 hmarker with rfl | hmarker
    · have hpage : c.pageMarker.byteSize = 5 + c.build.moduleExt.byteSize :=
        Text.byteSize_append _ _
      omega
    · have hlayout : c.layoutMarker.byteSize = 7 + c.build.moduleExt.byteSize :=
        Text.byteSize_append _ _
      rw [List.mem_singleton.1 hmarker]
      omega
  have hrenamed := Path.byteSize_renamed (ordinary_marker hslash marker hmarker).1 []
  have hnil : Text.byteSize [] = 0 := rfl
  have hdot : Text.byteSize ('.' :: c.build.moduleExt) = 1 + c.build.moduleExt.byteSize := rfl
  rw [Text.byteSize_append, hdot]
  omega

/-- The paths of a reference's module, under both spellings of the output. -/
def SameModule (c : Config) (room : Nat) (output output' : Path) (reference : Text) : Prop :=
  ∃ names, (∀ n ∈ names, Ordinary n) ∧ extent names ≤ room ∧
    output.child (reference ++ '.' :: c.build.moduleExt) = below output names ∧
    output'.child (reference ++ '.' :: c.build.moduleExt) = below output' names

section

variable {room : Nat} {marker : Text} (hs : Synonyms d room output output')
  (hslash : '/' ∉ c.build.moduleExt) (hall : ∀ n ∈ Route.pagesDir :: names, IsName n)

include hs hslash hall

/-- A marker gives the same reference under both spellings. -/
theorem reference_alike (hmarker : marker ∈ [c.pageMarker, c.layoutMarker]) :
    Route.Scan.reference ⟨d, output', markersOf c⟩ (below output' (Route.pagesDir :: names))
        marker =
      Route.Scan.reference ⟨d, output, markersOf c⟩ (below output (Route.pagesDir :: names))
        marker := by
  have hnames := (List.forall_mem_cons.1 hall).2
  rw [(reference_of_marker hs.leads.isAbsolute hslash hnames hmarker).1,
    (reference_of_marker hs.leads'.isAbsolute hslash hnames hmarker).1]

theorem reference?_alike (hd : d.Plain) (hmarker : marker ∈ [c.pageMarker, c.layoutMarker])
    (hroom : extent (Route.pagesDir :: names) + (marker.byteSize + 1) ≤ room) :
    Route.Scan.reference? ⟨d, output', markersOf c⟩ (below output' (Route.pagesDir :: names))
        marker =
      Route.Scan.reference? ⟨d, output, markersOf c⟩ (below output (Route.pagesDir :: names))
        marker := by
  have hordinary : ∀ n ∈ Route.pagesDir :: names ++ [marker], Ordinary n := by
    intro n hn
    rcases List.mem_append.1 hn with hn | hn
    · exact (hall n hn).toOrdinary
    · rw [List.mem_singleton.1 hn]
      exact (ordinary_marker hslash marker hmarker).1
  have hfile := hs.isFile_below hd hordinary (by
    rw [Disk.extent_append, Disk.extent_cons marker, Disk.extent_nil]
    omega)
  rw [below_concat, below_concat] at hfile
  unfold Route.Scan.reference?
  rw [reference_alike hs hslash hall hmarker]
  simp only [hfile]

theorem routeAt_alike (segments : List Text) (hd : d.Plain)
    (hroom : ∀ marker ∈ [c.pageMarker, c.layoutMarker],
      extent (Route.pagesDir :: names) + (marker.byteSize + 1) ≤ room) :
    Route.Scan.routeAt ⟨d, output', markersOf c⟩ (below output' (Route.pagesDir :: names))
        segments =
      Route.Scan.routeAt ⟨d, output, markersOf c⟩ (below output (Route.pagesDir :: names))
        segments := by
  have hfound := fun marker hmarker =>
    reference?_alike hs hslash hall hd hmarker (hroom marker hmarker)
  have hpage := hfound c.pageMarker (by simp)
  have hlayout := hfound c.layoutMarker (by simp)
  unfold Route.Scan.routeAt
  simp only [markersOf] at hpage hlayout ⊢
  rw [hpage, hlayout]

/-- The module that a reference means has the same names under both spellings. -/
theorem sameModule_reference (hmarker : marker ∈ [c.pageMarker, c.layoutMarker])
    (hroom : extent (Route.pagesDir :: names) +
      ((Path.renamed marker [] ++ '.' :: c.build.moduleExt).byteSize + 1) ≤ room) :
    SameModule c room output output' (Route.Scan.reference ⟨d, output, markersOf c⟩
      (below output (Route.pagesDir :: names)) marker) := by
  have hnames := (List.forall_mem_cons.1 hall).2
  obtain ⟨heq, hordinary, hmodule⟩ :=
    reference_of_marker (d := d) hs.leads.isAbsolute hslash hnames hmarker
  obtain ⟨-, -, hmodule'⟩ :=
    reference_of_marker (d := d) hs.leads'.isAbsolute hslash hnames hmarker
  refine ⟨_, List.forall_mem_cons.2 ⟨by decide, hordinary⟩, ?_, heq ▸ hmodule, heq ▸ hmodule'⟩
  rw [Disk.extent_cons] at hroom
  rw [Disk.extent_cons, Disk.extent_append, Disk.extent_cons, Disk.extent_nil]
  omega

end

section

variable (hbound : ∀ q, (start.root.kindAt q).isSome → extent q ≤ size)
  (houts : Synonyms start (size + 2 * spare) output output')
  (hslash : '/' ∉ c.build.moduleExt) (hspare : 64 + 2 * c.build.moduleExt.byteSize ≤ spare)
  (hR : OneDisk start output.place (size + spare) d e)

include hbound houts hslash hspare hR

/-- A directory of routed modules is listed under both spellings, and gives the same route. -/
theorem routed_alike (hdir : d.root.kindAt (output.place ++ Route.pagesDir :: names) = some .dir) :
    (Leads d (below output (Route.pagesDir :: names)) ∧
        Leads d (below output' (Route.pagesDir :: names))) ∧
      (∀ segments, Route.Scan.routeAt ⟨d, output', markersOf c⟩
          (below output' (Route.pagesDir :: names)) segments =
        Route.Scan.routeAt ⟨d, output, markersOf c⟩ (below output (Route.pagesDir :: names))
          segments) ∧
      ∀ marker ∈ [c.pageMarker, c.layoutMarker], SameModule c (size + 2 * spare) output output'
        (Route.Scan.reference ⟨d, output, markersOf c⟩ (below output (Route.pagesDir :: names))
          marker) := by
  have hd := hR.grown.plain
  have hs := hR.synonyms houts
  have hshort := hR.extent_le hbound (by rw [hdir]; rfl)
  have hall : ∀ n ∈ Route.pagesDir :: names, IsName n := isName_of_kindAt hd (by rw [hdir]; rfl)
  have hbelow : Synonyms d 0 (below output (Route.pagesDir :: names))
      (below output' (Route.pagesDir :: names)) := hs.below hd hall (by omega) hdir
  refine ⟨⟨hbelow.leads, hbelow.leads'⟩, fun segments => ?_, fun marker hmarker => ?_⟩
  · refine routeAt_alike hs hslash hall segments hd fun marker hmarker => ?_
    have hmarked := (byteSize_marker hspare hslash hmarker).1
    omega
  · refine sameModule_reference hs hslash hall hmarker ?_
    have hmarked := (byteSize_marker hspare hslash hmarker).2
    omega

/-- Scans under both spellings find the same routes. -/
theorem run_alike (hpages : d.isDir (output.child Route.pagesDir)) :
    ∃ routes : List Route,
      Route.Scan.run ⟨d, output, markersOf c⟩ (output.child Route.pagesDir) = .ok routes ∧
      Route.Scan.run ⟨d, output', markersOf c⟩ (output'.child Route.pagesDir) = .ok routes ∧
      ∀ r ∈ routes, ∀ reference ∈ r.page :: r.layout.toList,
        SameModule c (size + 2 * spare) output output' reference := by
  have hd := hR.grown.plain
  have hs := hR.synonyms houts
  have hplace : (output.child Route.pagesDir).place = output.place ++ [Route.pagesDir] :=
    Path.place_child hs.leads.isAbsolute (by decide)
  have hleads := Disk.leads_of_isDir hd (Path.isAbsolute_child hs.leads.isAbsolute _) hpages
  obtain ⟨n, hnode, -, hdirs⟩ := Route.exists_node_of_leads hd hleads
  have hpagesDir : ∀ m ∈ [Route.pagesDir], Ordinary m := by decide
  have hnode' : d.node? (output'.child Route.pagesDir) = .ok n :=
    (hs.node?_below hd hpagesDir (by
      have hsize : extent [Route.pagesDir] = 6 := rfl
      omega)).trans hnode
  have hkinds : ∀ names ∈ n.dirs,
      d.root.kindAt (output.place ++ Route.pagesDir :: names) = some .dir := by
    intro names hnames
    have hkind := (hdirs names).1 hnames
    rwa [hplace, List.append_assoc] at hkind
  have hrouted := fun names (hnames : names ∈ n.dirs) =>
    routed_alike hbound houts hslash hspare hR (hkinds names hnames)
  have hlisted : ∀ names ∈ n.dirs, Route.Scan.unlisted? ⟨d, output, markersOf c⟩
      (names.foldl Path.child (output.child Route.pagesDir)) = none := fun names hnames =>
    unlisted?_of_leads (s := ⟨d, output, markersOf c⟩) hd (hrouted names hnames).1.1
  have hlisted' : ∀ names ∈ n.dirs, Route.Scan.unlisted? ⟨d, output', markersOf c⟩
      (names.foldl Path.child (output'.child Route.pagesDir)) = none := fun names hnames =>
    unlisted?_of_leads (s := ⟨d, output', markersOf c⟩) hd (hrouted names hnames).1.2
  refine ⟨n.dirs.filterMap fun names => Route.Scan.routeAt ⟨d, output, markersOf c⟩
    (names.foldl Path.child (output.child Route.pagesDir)) names, ?_, ?_, ?_⟩
  · rw [Route.Scan.run_of_node hnode, List.findSome?_eq_none_iff.2 hlisted]
  · rw [Route.Scan.run_of_node hnode', List.findSome?_eq_none_iff.2 hlisted']
    refine congrArg _ (List.filterMap_congr fun names hnames => ?_)
    exact (hrouted names hnames).2.1 names
  · intro r hr reference hmem
    obtain ⟨names, hnames, hroute⟩ := List.mem_filterMap.1 hr
    obtain ⟨marker, hmarker, rfl⟩ := Route.Scan.exists_marker_of_mem hroute hmem
    exact (hrouted names hnames).2.2 marker hmarker

omit hbound hslash hspare in
theorem missingModule?_alike {r : Route}
    (hmodules : ∀ reference ∈ r.page :: r.layout.toList,
      SameModule c (size + 2 * spare) output output' reference) :
    (missingModule? d output' c.build.moduleExt r).map TableFault.settled =
      (missingModule? d output c.build.moduleExt r).map TableFault.settled := by
  have hs := hR.synonyms houts
  have hfile : ∀ reference ∈ r.page :: r.layout.toList,
      d.isFile (output'.child (reference ++ '.' :: c.build.moduleExt)) =
          d.isFile (output.child (reference ++ '.' :: c.build.moduleExt)) ∧
        (output'.child (reference ++ '.' :: c.build.moduleExt)).normalize =
          (output.child (reference ++ '.' :: c.build.moduleExt)).normalize := by
    intro reference hmem
    obtain ⟨names, hnames, hroom, hmodule, hmodule'⟩ := hmodules reference hmem
    rw [hmodule, hmodule']
    exact ⟨hs.isFile_below hR.grown.plain hnames hroom, hs.normalize_below hnames⟩
  rw [settled_missingModule?, settled_missingModule?,
    List.find?_congr fun reference hmem => by rw [(hfile reference hmem).1]]
  cases hfound : (r.page :: r.layout.toList).find? fun reference =>
      !d.isFile (output.child (reference ++ '.' :: c.build.moduleExt)) with
  | none => rfl
  | some reference =>
      have hmem := List.mem_of_find?_eq_some hfound
      simp only [Option.map_some, (hfile reference hmem).2]

omit hbound hslash hspare in
/-- What is wrong with a table is the same, up to the spelling of a path. -/
theorem tableFault?_alike {routes : List Route}
    (hroutes : ∀ r ∈ routes, ∀ reference ∈ r.page :: r.layout.toList,
      SameModule c (size + 2 * spare) output output' reference) :
    (tableFault? d output' c.build.moduleExt routes).map TableFault.settled =
      (tableFault? d output c.build.moduleExt routes).map TableFault.settled := by
  unfold tableFault?
  have hfirst : (routes.findSome? (missingModule? d output' c.build.moduleExt)).map
      TableFault.settled = (routes.findSome? (missingModule? d output c.build.moduleExt)).map
        TableFault.settled := by
    rw [List.map_findSome?, List.map_findSome?]
    exact Route.Scan.findSome?_congr fun r hr =>
      missingModule?_alike houts hR fun reference hmem => hroutes r hr reference hmem
  rcases hfault : routes.findSome? (missingModule? d output c.build.moduleExt) with _ | fault
  · rw [hfault] at hfirst
    rw [Option.map_eq_none_iff.1 hfirst]
  · rw [hfault] at hfirst
    obtain ⟨fault', hfault', hsettled⟩ := Option.map_eq_some_iff.1 hfirst
    rw [hfault']
    exact congrArg some hsettled

omit hbound hslash hspare hR in
theorem normalize_child {n : Text} (hn : Ordinary n) :
    (output'.child n).normalize = (output.child n).normalize := by
  have hnames : ∀ m ∈ [n], Ordinary m := by simpa using hn
  exact houts.normalize_below hnames

omit hbound hslash hR in
theorem coupled_emitFile {n : Text} (hn : IsName n) (hsize : n.byteSize + 1 ≤ spare) (t : Text) :
    Coupled (OneDisk start output.place (size + spare)) ToldAlike (fun _ _ => True)
      (emitFile (output.child n) t) (emitFile (output'.child n) t) := by
  refine Coupled.change_same (fun d hR => ?_) (fun d hR => ?_) fun f => ?_
  · have hwrite := (hR.synonyms houts).writeText hR.grown.plain (List.forall_mem_nil Ordinary)
      (Or.inl hn.toOrdinary) (by rw [Disk.extent_nil]; omega) t
    simp only [Disk.Change.ofWhole]
    rw [show d.writeText (output'.child n) t = d.writeText (output.child n) t from hwrite]
  · exact reworked_writeText hR.grown.plain (hR.synonyms houts).leads (List.forall_mem_nil IsName)
      (Or.inl hn.toOrdinary) (by rw [Disk.extent_nil]; omega) t
  · simp only [ToldAlike, Failure.settled, normalize_child houts hn.toOrdinary]

omit hbound hslash hR in
theorem coupled_emit {routes : List Route}
    (hroutes : ∀ r ∈ routes, ∀ reference ∈ r.page :: r.layout.toList,
      SameModule c (size + 2 * spare) output output' reference) :
    Coupled (OneDisk start output.place (size + spare)) ToldAlike (fun _ _ => True)
      (emit output c.build.moduleExt routes) (emit output' c.build.moduleExt routes) := by
  unfold emit
  refine Coupled.look fun w w' hR => ?_
  obtain ⟨hsame, -⟩ := id hR
  have hfault := tableFault?_alike houts hR hroutes
  rw [hsame]
  cases hfound : tableFault? w.disk output c.build.moduleExt routes with
  | some fault =>
      rw [hfound] at hfault
      obtain ⟨fault', hfound', hsettled⟩ := Option.map_eq_some_iff.1 hfault
      rw [hfound']
      refine Coupled.fail ?_ w w' hR
      simp only [ToldAlike, Failure.settled, hsettled,
        normalize_child houts (n := routesFile) (by decide)]
  | none =>
      rw [hfound] at hfault
      rw [Option.map_eq_none_iff.1 hfault]
      refine Coupled.bind (A := fun _ _ => True) ?_ (fun _ _ _ => ?_) w w' hR
      · refine Coupled.change_same (fun d hR => ?_) (fun d hR => ?_) fun f => ?_
        · rw [(hR.synonyms houts).leads.makeDirs hR.grown.plain,
            (hR.synonyms houts).leads'.makeDirs hR.grown.plain]
        · rw [(hR.synonyms houts).leads.makeDirs hR.grown.plain]
          exact Reworked.refl hR.grown.plain
        · exact congrArg (Failure.disk · f) (houts.normalize_below (List.forall_mem_nil Ordinary))
      · refine (coupled_emitFile houts hspare (by decide) ?_ _).bind fun _ _ _ => ?_
        · have hsize : routesFile.byteSize = 9 := rfl
          omega
        · refine (coupled_emitFile houts hspare (by decide) ?_ _).bind fun _ _ _ =>
            Coupled.pure trivial
          have hsize : serverFile.byteSize = 7 := rfl
          omega

omit hR in
/-- Routes are looked for and written alike. -/
theorem coupled_emitRoutes :
    Coupled (OneDisk start output.place (size + spare)) F
      (fun a b => b.settled = a.settled) (emitRoutes c output) (emitRoutes c output') := by
  unfold emitRoutes
  refine Coupled.look fun w w' hR => ?_
  obtain ⟨hsame, -⟩ := id hR
  have hpagesDir : ∀ m ∈ [Route.pagesDir], Ordinary m := by decide
  have hpages : w.disk.isDir (output'.child Route.pagesDir) =
      w.disk.isDir (output.child Route.pagesDir) :=
    (hR.synonyms houts).isDir_below hR.grown.plain hpagesDir (by
      have hsize : extent [Route.pagesDir] = 6 := rfl
      omega)
  rw [hsame, hpages]
  cases hdir : w.disk.isDir (output.child Route.pagesDir) with
  | false =>
      refine (Coupled.say _ _ _ _).bind (fun _ _ _ => Coupled.pure ?_) w w' hR
      rfl
  | true =>
      obtain ⟨routes, hrun, hrun', hroutes⟩ := run_alike hbound houts hslash hspare hR hdir
      refine CoupledAt.look ?_
      rw [hsame, hrun, hrun']
      dsimp only
      split
      · refine (Coupled.say _ _ _ _).bind (fun _ _ _ => Coupled.pure ?_) w w' hR
        rfl
      · refine ((coupled_emit houts hspare hroutes).attempt.bind fun a b hab => ?_) w w' hR
        cases hab with
        | ok _ => exact (Coupled.say _ _ _ _).bind fun _ _ _ => Coupled.pure rfl
        | error hf =>
            refine (Coupled.say _ _ _ _).bind fun _ _ _ => Coupled.pure ?_
            exact congrArg RouteStatus.failed hf

end

/-- What came of the entry script, under both spellings. -/
inductive Manifest.Alike : Manifest → Manifest → Prop
  | empty : Manifest.Alike .empty .empty
  | written (entry entry' : Path) : Manifest.Alike (.written entry none) (.written entry' none)

theorem coupled_report (references : List Reference) {m m' : Manifest} (h : m.Alike m') :
    Coupled (OneDisk start out limit) F (fun _ _ => True) (m.report output references)
      (m'.report output' references) := by
  cases h with
  | empty => exact Coupled.say _ _ _ _
  | written entry entry' =>
      refine (Coupled.forM references fun _ => Coupled.detail _ _ _ _).bind fun _ _ _ => ?_
      exact (Coupled.say _ _ _ _).bind fun _ _ _ => Coupled.pure trivial

section

variable (hbound : ∀ q, (start.root.kindAt q).isSome → extent q ≤ size)
  (houts : Synonyms start (size + 2 * spare) output output')
  (hslash : '/' ∉ c.build.moduleExt) (hspare : 64 + 2 * c.build.moduleExt.byteSize ≤ spare)
  (hbundler : c.bundler.enable = false)

include houts hspare hbundler

theorem coupled_writeManifest (references : List Reference) :
    Coupled (OneDisk start output.place (size + spare)) ToldAlike Manifest.Alike
      (writeManifest c.bundler output references) (writeManifest c.bundler output' references) := by
  have hdirs : ∀ m ∈ [clientDir.text], IsName m := by simp [isName_clientDir]
  have htrimmed : ∀ {o : Path}, o.isAbsolute →
      (below o [clientDir.text]).trimmed = below o [clientDir.text] := fun ho =>
    Path.trimmed_child ho isName_clientDir.toOrdinary
  have hdir := htrimmed houts.leads.isAbsolute
  have hdir' := htrimmed houts.leads'.isAbsolute
  have hsize : extent [clientDir.text] = 7 := rfl
  have hentry : entryFile.byteSize = 15 := rfl
  unfold writeManifest
  split
  · exact Coupled.pure .empty
  · refine (Coupled.orFail ToldAlike.refl _).bind fun script _ hscript => ?_
    subst hscript
    rw [join_clientDir, join_clientDir]
    refine (Coupled.change_same (fun d hR => ?_) (fun d hR => ?_) fun f => ?_).bind fun _ _ _ =>
      (Coupled.change_same (fun d hR => ?_) (fun d hR => ?_) fun f => ?_).bind fun _ _ _ => ?_
    · rw [← hdir, ← hdir']
      exact (hR.synonyms houts).makeDirs hR.grown.plain hdirs (by omega)
    · rw [← hdir]
      exact reworked_makeDirs hR.grown.plain (hR.synonyms houts).leads hdirs (by omega)
    · exact congrArg (Failure.notMade · f) (houts.normalize_below (ordinary_of_isName hdirs))
    · simp only [Disk.Change.ofWhole, (hR.synonyms houts).writeText (n := entryFile) hR.grown.plain
        (ordinary_of_isName hdirs) (Or.inl (by decide)) (by omega)]
    · exact reworked_writeText hR.grown.plain (hR.synonyms houts).leads hdirs
        (Or.inl (by decide)) (by omega) script
    · have hentries : ∀ m ∈ [clientDir.text, entryFile], Ordinary m := by decide
      exact congrArg (Failure.notWritten · f) (houts.normalize_below hentries)
    · rw [if_neg (by simp [hbundler]), if_neg (by simp [hbundler])]
      exact Coupled.pure (.written _ _)

include hbound hslash

/-- What a build does after its visit comes to the same. -/
theorem coupled_finish (h : y.Alike y') :
    Coupled (OneDisk start output.place (size + spare)) F
      (fun r r' => r'.settled = r.settled) (finish c output y) (finish c output' y') := by
  have hfailed := h.failed
  simp only [Yield.settled] at hfailed
  unfold finish
  refine (coupled_emitRoutes hbound houts hslash hspare).bind fun routes routes' hroutes => ?_
  rw [h.references]
  refine (coupled_writeManifest houts hspare hbundler _).attempt.bind fun a b hab => ?_
  cases hab with
  | ok hmanifest =>
      refine (coupled_report _ hmanifest).bind fun _ _ _ => ?_
      cases hmanifest with
      | empty =>
          refine Coupled.pure ?_
          simp only [Report.settled, h.transpiled, h.clientOnly, h.copied, hfailed, hroutes]
      | written entry entry' =>
          refine Coupled.pure ?_
          simp only [Report.settled, h.transpiled, h.clientOnly, h.copied, hfailed, hroutes]
  | error hf =>
      have hnormalize : (output'.join clientDir).normalize = (output.join clientDir).normalize :=
        normalize_child houts isName_clientDir.toOrdinary
      refine (Coupled.say _ _ _ _).bind fun _ _ _ => Coupled.pure ?_
      simp only [Report.settled, h.transpiled, h.clientOnly, h.copied, hroutes, List.map_append,
        hfailed, List.map_cons, List.map_nil, hnormalize, show _ = _ from hf]

end

end Quire.Build
