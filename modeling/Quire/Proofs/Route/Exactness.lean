import Mathlib.Data.List.Nodup
import Quire.Proofs.Build.Reaching
import Quire.Proofs.Route.Scanning

/-!
Which routes a scan finds. There is one route for each directory at or below the pages that holds a
page, in the order of the places; it has a layout exactly if its own directory holds one. What has
too long a path is not found: a marked file is passed by, and a directory ends the scan.
-/

namespace Quire.Route

open Disk (Plain Node IsName IsLong Leads)
open Build (below isAbsolute_below place_below below_concat)
open Quire.Path (Ordinary)

variable {d : Disk} {output pages : Path} {names rel : List Text} {ext marker : Text}

/-- The markers of an extension. -/
def plainMarkers (ext : Text) : Markers := ⟨"page.".toList ++ ext, "layout.".toList ++ ext⟩

/-- A directory at or below the pages holds a marked file, with no longer a path than one may
have. -/
def Marked (d : Disk) (pages : Path) (names : List Text) (marker : Text) : Prop :=
  d.root.kindAt (pages.place ++ (names ++ [marker])) = some .file ∧
    ¬ IsLong ((below pages names).child marker)

instance (d : Disk) (pages : Path) (names : List Text) (marker : Text) :
    Decidable (Marked d pages names marker) := inferInstanceAs (Decidable (_ ∧ _))

theorem Marked.dir (h : Marked d pages names marker) :
    d.root.kindAt (pages.place ++ names) = some .dir := by
  have hsome : (d.root.kindAt (pages.place ++ names ++ [marker])).isSome := by
    rw [List.append_assoc, h.1]
    rfl
  exact Node.kindAt_of_append hsome

/-- A directory at or below the pages that cannot be listed. -/
def Unlisted (d : Disk) (pages : Path) (names : List Text) : Prop :=
  d.root.kindAt (pages.place ++ names) = some .dir ∧ IsLong (below pages names)

/-- The route of a directory that holds a page. The pages are seen from the output as `rel`. -/
def routeOf (d : Disk) (pages : Path) (rel : List Text) (ext : Text) (names : List Text) : Route where
  path := '/' :: ['/'].intercalate names
  page := ['/'].intercalate (rel ++ names ++ ["page".toList])
  layout :=
    if Marked d pages names (plainMarkers ext).layout then
      some (['/'].intercalate (rel ++ names ++ ["layout".toList]))
    else none

/-- Different directories have different addresses. -/
theorem address_inj {a b : List Text} (ha : ∀ n ∈ a, IsName n) (hb : ∀ n ∈ b, IsName n)
    (h : ['/'].intercalate a = ['/'].intercalate b) : a = b := by
  have hempty : ∀ {c : List Text}, (∀ n ∈ c, IsName n) → ['/'].intercalate c = [] → c = [] := by
    intro c hc hnil
    cases c with
    | nil => rfl
    | cons n c =>
        rw [Text.intercalate_cons, List.append_eq_nil_iff] at hnil
        exact absurd hnil.1 (hc n List.mem_cons_self).ne_nil
  by_cases hanil : a = []
  · subst hanil
    exact (hempty hb h.symm).symm
  · have hbnil : b ≠ [] := by
      rintro rfl
      exact hanil (hempty ha h)
    rw [← Text.fields_intercalate hanil fun n hn => (ha n hn).noSlash,
      ← Text.fields_intercalate hbnil fun n hn => (hb n hn).noSlash, h]

/-- Pages that are there, with the directories at and below them. -/
theorem exists_node_of_leads (hd : d.Plain) (hleads : Leads d pages) :
    ∃ n : Node, d.node? pages = .ok n ∧ n.isPlain ∧
      ∀ names, names ∈ n.dirs ↔ d.root.kindAt (pages.place ++ names) = some .dir := by
  obtain ⟨place, hplace, hkind⟩ := Disk.isDir_iff.1 (hleads.isDir hd)
  obtain rfl := Disk.eq_place_of_place? hd hleads.isAbsolute hplace
  obtain ⟨children, hget⟩ := Node.kindAt_dir_iff.1 hkind
  have hplain := (Node.isPlain_get? hd.tree hget).1
  refine ⟨_, Disk.node?_ok_iff.2 ⟨_, hplace, hget⟩, hplain, fun names => ?_⟩
  rw [Node.mem_dirs_iff hplain, Node.kindAt_append hget]

/-- A directory can be listed unless its path is too long. -/
theorem unlisted?_below (output : Path) (m : Markers) (hd : d.Plain) (hleads : Leads d pages)
    (hkind : d.root.kindAt (pages.place ++ names) = some .dir) :
    Scan.unlisted? ⟨d, output, m⟩ (below pages names) =
      if IsLong (below pages names) then some (below pages names, .nameTooLong) else none := by
  have hnames := Build.isName_of_kindAt hd (Option.isSome_of_mem hkind)
  split
  · next hlong => exact Scan.unlisted?_of_error (Build.listing_below_of_isLong hleads hnames hlong)
  · next hshort =>
      obtain ⟨_, _, hlisting⟩ := Build.listing_below hd hleads hnames hshort hkind
      exact Scan.unlisted?_of_ok hlisting

/-- The stem of a marker. -/
theorem renamed_marker {stem : Text} (hstem : Ordinary stem) (hdot : '.' ∉ ext) :
    Path.renamed (stem ++ '.' :: ext) [] = stem := by
  rw [Path.renamed, Path.nameParts_append hstem.ne_nil ext hdot]
  simp [hstem.ne_dot, Path.dotted]

section

variable (hout : output.isAbsolute) (hpages : pages.isAbsolute)
  (hplace : pages.place = output.place ++ rel) (hdot : '.' ∉ ext) (hslash : '/' ∉ ext)

include hout hpages hplace hdot hslash

/-- A marked file is referred to by its names, without its extension. -/
theorem reference_below (m : Markers) {stem : Text} (hnames : ∀ n ∈ names, Ordinary n)
    (hstem : Ordinary stem) :
    Scan.reference ⟨d, output, m⟩ (below pages names) (stem ++ '.' :: ext) =
      ['/'].intercalate (rel ++ names ++ [stem]) := by
  have hrenamed := renamed_marker hstem hdot
  have hplaced : (below pages names).place = output.place ++ (rel ++ names) := by
    rw [place_below hpages hnames, hplace, List.append_assoc]
  have hfound := Scan.reference_of_place (s := ⟨d, output, m⟩) hout
    (isAbsolute_below hpages names) hplaced (hstem.append_dot hslash) (by rwa [hrenamed])
  rwa [hrenamed] at hfound

theorem reference?_below (m : Markers) {stem : Text} (hd : d.Plain) (hleads : Leads d pages)
    (hnames : ∀ n ∈ names, Ordinary n) (hstem : Ordinary stem) :
    Scan.reference? ⟨d, output, m⟩ (below pages names) (stem ++ '.' :: ext) =
      if Marked d pages names (stem ++ '.' :: ext) then
        some (['/'].intercalate (rel ++ names ++ [stem]))
      else none := by
  have hall : ∀ n ∈ names ++ [stem ++ '.' :: ext], Ordinary n :=
    List.forall_mem_append.2 ⟨hnames, List.forall_mem_singleton.2 (hstem.append_dot hslash)⟩
  have hfile := Build.isFile_below hd hleads hall (by simp)
  rw [below_concat] at hfile
  rw [Scan.reference?, reference_below hout hpages hplace hdot hslash m hnames hstem]
  exact if_congr hfile rfl rfl

/-- A directory is routed if it holds a page. -/
theorem routeAt_below (hd : d.Plain) (hleads : Leads d pages) (hnames : ∀ n ∈ names, Ordinary n) :
    Scan.routeAt ⟨d, output, plainMarkers ext⟩ (below pages names) names =
      if Marked d pages names (plainMarkers ext).page then some (routeOf d pages rel ext names)
      else none := by
  have hpage := reference?_below hout hpages hplace hdot hslash (plainMarkers ext) hd hleads hnames
    (by decide : Ordinary "page".toList)
  have hlayout := reference?_below hout hpages hplace hdot hslash (plainMarkers ext) hd hleads
    hnames (by decide : Ordinary "layout".toList)
  rw [Scan.routeAt]
  simp only [show (plainMarkers ext).page = "page".toList ++ '.' :: ext from rfl,
    show (plainMarkers ext).layout = "layout".toList ++ '.' :: ext from rfl, hpage, hlayout]
  by_cases hmarked : Marked d pages names ("page".toList ++ '.' :: ext)
  · rw [if_pos hmarked, if_pos hmarked]
    rfl
  · rw [if_neg hmarked, if_neg hmarked]
    rfl

/-- Where all directories can be listed, those that hold a page are routed. -/
theorem run_of_forall_not_unlisted (hd : d.Plain) (hleads : Leads d pages)
    (hlisted : ∀ names, ¬ Unlisted d pages names) :
    ∃ dirs : List (List Text), dirs.Pairwise (· < ·) ∧
      (∀ names, names ∈ dirs ↔ Marked d pages names (plainMarkers ext).page) ∧
      Scan.run ⟨d, output, plainMarkers ext⟩ pages = .ok (dirs.map (routeOf d pages rel ext)) := by
  obtain ⟨n, hnode, hn, hmem⟩ := exists_node_of_leads hd hleads
  have hname : ∀ names ∈ n.dirs, ∀ k ∈ names, IsName k := fun names hnames =>
    Build.isName_of_kindAt hd (Option.isSome_of_mem ((hmem names).1 hnames))
  refine ⟨n.dirs.filter (Marked d pages · (plainMarkers ext).page),
    (Node.pairwise_dirs n hn).filter _, fun names => ?_, ?_⟩
  · rw [List.mem_filter, decide_eq_true_iff, and_iff_right_iff_imp]
    exact fun hmarked => (hmem names).2 hmarked.dir
  · have hnone : n.dirs.findSome? (fun names => Scan.unlisted? ⟨d, output, plainMarkers ext⟩
        (names.foldl Path.child pages)) = none := by
      refine List.findSome?_eq_none_iff.2 fun names hnames => ?_
      have hkind := (hmem names).1 hnames
      exact (unlisted?_below output _ hd hleads hkind).trans
        (if_neg fun hlong => hlisted names ⟨hkind, hlong⟩)
    rw [Scan.run_of_node hnode, hnone, ← List.filterMap_eq_map, List.filterMap_filter]
    refine congrArg Except.ok (List.filterMap_congr fun names hnames => ?_)
    rw [show names.foldl Path.child pages = below pages names from rfl,
      routeAt_below hout hpages hplace hdot hslash hd hleads
        (Build.ordinary_of_isName (hname names hnames))]
    simp

end

/-- The first directory that cannot be listed ends the scan. -/
theorem run_of_unlisted (m : Markers) (hd : d.Plain) (hleads : Leads d pages)
    (hunlisted : Unlisted d pages names) :
    ∃ names, Unlisted d pages names ∧ (∀ other, Unlisted d pages other → ¬ other < names) ∧
      Scan.run ⟨d, output, m⟩ pages = .error (below pages names, .nameTooLong) := by
  obtain ⟨n, hnode, hn, hmem⟩ := exists_node_of_leads hd hleads
  cases hfirst : n.dirs.findSome? fun names =>
      Scan.unlisted? ⟨d, output, m⟩ (names.foldl Path.child pages) with
  | none =>
      have hnone := List.findSome?_eq_none_iff.1 hfirst names ((hmem names).2 hunlisted.1)
      have hsome := unlisted?_below output m hd hleads hunlisted.1
      rw [if_pos hunlisted.2] at hsome
      exact absurd (hsome.symm.trans hnone) (by simp)
  | some first =>
      obtain ⟨before, place, later, hdirs, hsome, hbefore⟩ := List.findSome?_eq_some_iff.1 hfirst
      have hkind := (hmem place).1 (by rw [hdirs]; simp)
      have hlong : IsLong (below pages place) := by
        by_contra hshort
        have hnone := unlisted?_below output m hd hleads hkind
        rw [if_neg hshort] at hnone
        exact absurd (hnone.symm.trans hsome) (by simp)
      refine ⟨place, ⟨hkind, hlong⟩, fun other hother hlt => ?_, ?_⟩
      · -- what stands before the first one can be listed
        have hordered := Node.pairwise_dirs n hn
        have hthere := (hmem other).2 hother.1
        rw [hdirs] at hordered hthere
        rcases List.mem_append.1 hthere with hthere | hthere
        · have hfound := unlisted?_below output m hd hleads hother.1
          rw [if_pos hother.2] at hfound
          exact absurd (hfound.symm.trans (hbefore other hthere)) (by simp)
        · rcases List.mem_cons.1 hthere with rfl | hthere
          · exact List.lt_irrefl other hlt
          · have hgt := (List.pairwise_cons.1 (List.pairwise_append.1 hordered).2.1).1 other hthere
            exact List.lt_irrefl other (List.lt_trans hlt hgt)
      · have hthis := unlisted?_below output m hd hleads hkind
        rw [if_pos hlong] at hthis
        obtain rfl := Option.some.inj (hthis.symm.trans hsome)
        rw [Scan.run_of_node hnode, hfirst]

/-- What a scan finds are the routes of the directories that hold a page. -/
theorem exists_dirs_of_run (hd : d.Plain) (hout : output.isAbsolute) (hpages : pages.isAbsolute)
    (hplace : pages.place = output.place ++ rel) (hdot : '.' ∉ ext) (hslash : '/' ∉ ext)
    {routes : List Route} (hrun : Scan.run ⟨d, output, plainMarkers ext⟩ pages = .ok routes) :
    ∃ dirs : List (List Text), dirs.Pairwise (· < ·) ∧
      (∀ names, names ∈ dirs ↔
        d.isDir pages ∧ Marked d pages names (plainMarkers ext).page) ∧
      routes = dirs.map (routeOf d pages rel ext) := by
  by_cases hdir : d.isDir pages
  · have hleads := Disk.leads_of_isDir hd hpages hdir
    have hlisted : ∀ names, ¬ Unlisted d pages names := by
      intro names hunlisted
      obtain ⟨first, -, -, herror⟩ : ∃ first, Unlisted d pages first ∧ _ ∧
          Scan.run ⟨d, output, plainMarkers ext⟩ pages = .error (below pages first, .nameTooLong) :=
        run_of_unlisted _ hd hleads hunlisted
      exact absurd (hrun.symm.trans herror) (by simp)
    obtain ⟨dirs, hordered, hmem, hfound⟩ := run_of_forall_not_unlisted hout hpages hplace hdot
      hslash hd hleads hlisted
    refine ⟨dirs, hordered, fun names => ?_, Except.ok.inj (hrun.symm.trans hfound)⟩
    rw [hmem, and_iff_right hdir]
  · have hnone : Scan.run ⟨d, output, plainMarkers ext⟩ pages = .ok [] :=
      Scan.run_of_not_isDir hdir
    exact ⟨[], List.Pairwise.nil, by simp [hdir], Except.ok.inj (hrun.symm.trans hnone)⟩

/-- One route for each directory at or below the pages that holds a page, in the order of the
places and each at an address of its own. -/
structure Exact (d : Disk) (pages : Path) (rel : List Text) (ext : Text) (routes : List Route) :
    Prop where
  each : ∃ dirs : List (List Text), dirs.Pairwise (· < ·) ∧
    (∀ names, names ∈ dirs ↔ Marked d pages names (plainMarkers ext).page) ∧
    routes = dirs.map (routeOf d pages rel ext)
  nodup : (routes.map (·.path)).Nodup

/-- Pages that are no directory give no routes. Else the first directory with too long a path ends
the scan; and if there is none, the scan is exact. -/
theorem run_exact (hd : d.Plain) (hout : output.isAbsolute) (hpages : pages.isAbsolute)
    (hplace : pages.place = output.place ++ rel) (hdot : '.' ∉ ext) (hslash : '/' ∉ ext) :
    (¬ d.isDir pages → Scan.run ⟨d, output, plainMarkers ext⟩ pages = .ok []) ∧
      (d.isDir pages → (∃ names, Unlisted d pages names) → ∃ names, Unlisted d pages names ∧
        (∀ other, Unlisted d pages other → ¬ other < names) ∧
        Scan.run ⟨d, output, plainMarkers ext⟩ pages =
          .error (below pages names, .nameTooLong)) ∧
      (d.isDir pages → (∀ names, ¬ Unlisted d pages names) → ∃ routes,
        Scan.run ⟨d, output, plainMarkers ext⟩ pages = .ok routes ∧
          Exact d pages rel ext routes) := by
  refine ⟨fun hdir => ?_, fun hdir hunlisted => ?_, fun hdir hlisted => ?_⟩
  · exact Scan.run_of_not_isDir hdir
  · obtain ⟨names, hnames⟩ := hunlisted
    exact run_of_unlisted _ hd (Disk.leads_of_isDir hd hpages hdir) hnames
  · obtain ⟨dirs, hordered, hmem, hrun⟩ := run_of_forall_not_unlisted hout hpages hplace hdot hslash
      hd (Disk.leads_of_isDir hd hpages hdir) hlisted
    refine ⟨_, hrun, ⟨dirs, hordered, hmem, rfl⟩, ?_⟩
    have hname : ∀ names ∈ dirs, ∀ n ∈ names, IsName n := by
      intro names hnames n hn
      have hkind := ((hmem names).1 hnames).1
      exact Build.isName_of_kindAt hd (Option.isSome_of_mem hkind) n (List.mem_append_left _ hn)
    rw [List.map_map]
    refine List.Nodup.map_on (fun a ha b hb heq => ?_) (Node.nodup_of_pairwise_lt hordered)
    exact address_inj (hname a ha) (hname b hb) (List.cons.inj heq).2

/-- Pages with a layout of their own and two directories, of which one holds a page and the other a
layout. -/
def blog : Disk.Node := .dir [
  ("blog".toList, .dir [("page.js".toList, .file .empty)]),
  ("draft".toList, .dir [("layout.js".toList, .file .empty)]),
  ("layout.js".toList, .file .empty),
  ("page.js".toList, .file .empty)]

/-- An output with these pages. -/
def blogDisk : Disk := { root := .dir [("out".toList, .dir [("pages".toList, blog)])], cwd := [] }

theorem kindAt_blogDisk (names : List Text) :
    blogDisk.root.kindAt (Path.place ⟨"/out/pages".toList⟩ ++ names) = some .dir ↔
      names ∈ blog.dirs := by
  have hget : blogDisk.root.get? (Path.place ⟨"/out/pages".toList⟩) = some blog := rfl
  rw [Node.kindAt_append hget, Node.mem_dirs_iff (by decide)]

theorem run_exact_blog :
    blogDisk.Plain ∧ blogDisk.isDir ⟨"/out/pages".toList⟩ ∧
      (∀ names, ¬ Unlisted blogDisk ⟨"/out/pages".toList⟩ names) ∧
      ∃ routes, Scan.run ⟨blogDisk, ⟨"/out".toList⟩, plainMarkers "js".toList⟩
          ⟨"/out/pages".toList⟩ = .ok routes ∧
        Exact blogDisk ⟨"/out/pages".toList⟩ ["pages".toList] "js".toList routes ∧
        routes = [
          ⟨"/".toList, "pages/page".toList, some "pages/layout".toList⟩,
          ⟨"/blog".toList, "pages/blog/page".toList, none⟩] := by
  have hplain : blogDisk.Plain := ⟨by decide, by decide⟩
  have hdir : blogDisk.isDir ⟨"/out/pages".toList⟩ := by decide
  have hshort : ∀ names ∈ blog.dirs, ¬ IsLong (below ⟨"/out/pages".toList⟩ names) := by decide
  have hlisted : ∀ names, ¬ Unlisted blogDisk ⟨"/out/pages".toList⟩ names :=
    fun names h => hshort names ((kindAt_blogDisk names).1 h.1) h.2
  refine ⟨hplain, hdir, hlisted, ?_⟩
  obtain ⟨routes, hrun, hexact⟩ : ∃ routes, Scan.run ⟨blogDisk, ⟨"/out".toList⟩,
      plainMarkers "js".toList⟩ ⟨"/out/pages".toList⟩ = .ok routes ∧
        Exact blogDisk ⟨"/out/pages".toList⟩ ["pages".toList] "js".toList routes :=
    (run_exact hplain (by decide) (by decide) (by decide) (by decide) (by decide)).2.2 hdir hlisted
  refine ⟨routes, hrun, hexact, ?_⟩
  have hroutes : (Scan.run ⟨blogDisk, ⟨"/out".toList⟩, plainMarkers "js".toList⟩
      ⟨"/out/pages".toList⟩).toOption = some [
        ⟨"/".toList, "pages/page".toList, some "pages/layout".toList⟩,
        ⟨"/blog".toList, "pages/blog/page".toList, none⟩] := by decide +kernel
  rw [hrun] at hroutes
  exact Option.some.inj hroutes

/-- An output with one page. -/
def onePage : Disk where
  root := .dir [("out".toList, .dir [("pages".toList, .dir [("page.js".toList, .file .empty)])])]
  cwd := []

/-- Its pages, spelled as long as a path may be. -/
def longestPages : Path := Disk.widened 4085 ⟨"/out/pages".toList⟩

/-- The page is there, and the scan does not find it. -/
theorem run_longestPages :
    onePage.Plain ∧ longestPages.isAbsolute ∧ onePage.isDir longestPages ∧
      longestPages.place = Path.place ⟨"/out".toList⟩ ++ ["pages".toList] ∧
      onePage.root.kindAt (longestPages.place ++ ["page.js".toList]) = some .file ∧
      Scan.run ⟨onePage, ⟨"/out".toList⟩, plainMarkers "js".toList⟩ longestPages = .ok [] := by
  have hplain : onePage.Plain := ⟨by decide, by decide⟩
  have hleads : Leads onePage longestPages := Leads.widened (p := ⟨"/out/pages".toList⟩)
    (Disk.leads_of_isDir hplain (by decide) (by decide)) (by decide)
  have hplace : longestPages.place = ["out".toList, "pages".toList] := by
    have hsteps : longestPages.steps = _ := Disk.steps_widened (p := ⟨"/out/pages".toList⟩) rfl _
    rw [Path.place, hsteps]
    decide
  refine ⟨hplain, hleads.isAbsolute, hleads.isDir hplain, hplace, by rw [hplace]; decide, ?_⟩
  -- the only directory is the one where the scan starts
  have honly : ∀ names, onePage.root.kindAt (longestPages.place ++ names) = some .dir →
      names = [] := by
    intro names hkind
    have hget : onePage.root.get? longestPages.place =
        some (.dir [("page.js".toList, .file .empty)]) := by rw [hplace]; rfl
    rw [Node.kindAt_append hget] at hkind
    exact List.mem_singleton.1 ((Node.mem_dirs_iff (by decide)).2 hkind)
  have hlisted : ∀ names, ¬ Unlisted onePage longestPages names := by
    intro names h
    obtain rfl := honly names h.1
    have hlong : Disk.maxPath < longestPages.text.byteSize := h.2
    rw [longestPages, Disk.byteSize_widened] at hlong
    exact absurd hlong (by decide)
  obtain ⟨dirs, _, hmem, hrun⟩ : ∃ dirs : List (List Text), dirs.Pairwise (· < ·) ∧
      (∀ names, names ∈ dirs ↔ Marked onePage longestPages names "page.js".toList) ∧
      Scan.run ⟨onePage, ⟨"/out".toList⟩, plainMarkers "js".toList⟩ longestPages =
        .ok (dirs.map (routeOf onePage longestPages ["pages".toList] "js".toList)) :=
    run_of_forall_not_unlisted (by decide) hleads.isAbsolute hplace (by decide) (by decide) hplain
      hleads hlisted
  have hnone : dirs = [] := by
    refine List.eq_nil_iff_forall_not_mem.2 fun names hnames => ?_
    have hmarked := (hmem names).1 hnames
    obtain rfl := honly names hmarked.dir
    exact hmarked.2 (Disk.isLong_widened_child (p := ⟨"/out/pages".toList⟩) rfl (by decide)
      (by decide) (by decide : IsName "page.js".toList))
  rw [hrun, hnone]
  rfl

end Quire.Route
