import Quire.Proofs.Disk.Change
import Quire.Proofs.Path.Relative
import Quire.Proofs.Route.Stacking

/-!
What a scan for routes finds: the routes of the directories at and below its start, in the order of
their places. The references of a route are names below the output root, and whether a directory is
routed depends on which of its marked files are there.
-/

namespace Quire

namespace Path

variable {base output : Path} {n : Text} {names : List Text}

/-- What is below a directory is seen from there as the names that lead to it. -/
theorem slashed_relativize_of_place {p : Path} (hbase : base.isAbsolute) (hp : p.isAbsolute)
    (hplace : p.place = base.place ++ names) (hne : names ≠ []) :
    (base.relativize p).slashed = ['/'].intercalate names := by
  have hsteps := steps_relativize hbase hp
  rw [hplace, way_append, if_neg (by simpa using hne)] at hsteps
  rw [slashed_eq, hsteps, List.map_map]
  exact congrArg _ (List.map_id names)

/-- Names joined by slashes lead where the names lead one by one. -/
theorem child_intercalate (hnames : ∀ n ∈ names, Ordinary n) (hne : names ≠ []) (p : Path) :
    p.child (['/'].intercalate names) = names.foldl child p := by
  have hway : ∀ s ∈ names.map Step.name, s.IsWay := by
    intro s hs
    obtain ⟨n, hn, rfl⟩ := List.mem_map.1 hs
    exact Or.inr ⟨n, hnames n hn, rfl⟩
  have hids : (names.map Step.name).map Step.text = names := by
    rw [List.map_map]
    exact List.map_id names
  have htext := text_ofSteps hway
  rw [hids] at htext
  rw [← join_ofSteps hnames hne, child, ← htext]

/-- The stem of a name that begins with no dot begins like the name. -/
theorem ordinary_renamed {c : Char} {t ext : Text} (hn : Ordinary (c :: t)) (hc : c ≠ '.')
    (hext : '/' ∉ ext) : Ordinary (renamed (c :: t) ext) := by
  refine (renamed_cases hn hext).resolve_right fun hdots => ?_
  unfold renamed at hdots
  split at hdots
  · next stem hparts =>
      rw [nameParts_eq_none hparts] at hdots
      exact hc (List.cons.inj hdots).1
  · next stem old hparts =>
      obtain ⟨heq, _, hne⟩ := nameParts_eq_some hparts
      obtain ⟨k, stem, rfl⟩ := List.exists_cons_of_ne_nil hne
      obtain rfl := (List.cons.inj heq).1
      split at hdots
      · next hstem => exact hc (List.cons.inj hstem).1
      · exact hc (List.cons.inj hdots).1

theorem Ordinary.append_dot (hn : Ordinary n) {ext : Text} (hext : '/' ∉ ext) :
    Ordinary (n ++ '.' :: ext) := by
  refine ⟨by simp, ?_, ?_, ?_⟩
  · simp [hn.noSlash, hext]
  · simp [List.append_eq_cons_iff, hn.ne_nil]
  · intro hdots
    obtain ⟨c, t, rfl⟩ := List.exists_cons_of_ne_nil hn.ne_nil
    obtain ⟨rfl, ht⟩ := List.cons.inj hdots
    cases t with
    | nil => exact hn.ne_dot rfl
    | cons a t => simpa using congrArg List.length ht

end Path

namespace Route.Scan

open Disk (Node IsName)
open Quire.Path (Ordinary)

variable {s s' : Scan} {r : Route}

theorem unlisted?_congr {dir : Path} (h : s'.disk.listing dir = s.disk.listing dir) :
    s'.unlisted? dir = s.unlisted? dir := by
  rw [unlisted?, unlisted?, h]

theorem unlisted?_of_ok {dir : Path} {entries : List (Text × Disk.Kind)}
    (h : s.disk.listing dir = .ok entries) : s.unlisted? dir = none := by
  rw [unlisted?, h]

theorem unlisted?_of_error {dir : Path} {cause : Disk.Fault}
    (h : s.disk.listing dir = .error cause) : s.unlisted? dir = some (dir, cause) := by
  rw [unlisted?, h]

/-- Whether a directory is routed depends on which of its marked files are there. -/
theorem routeAt_congr {dir : Path} {segments : List Text} (hroot : s'.outputRoot = s.outputRoot)
    (hmarkers : s'.markers = s.markers)
    (hfiles : ∀ marker ∈ [s.markers.page, s.markers.layout],
      s'.disk.isFile (dir.child marker) = s.disk.isFile (dir.child marker)) :
    s'.routeAt dir segments = s.routeAt dir segments := by
  have hreference : ∀ marker ∈ [s.markers.page, s.markers.layout],
      s'.reference? dir marker = s.reference? dir marker := by
    intro marker hmarker
    simp only [reference?, reference, hfiles marker hmarker, hroot]
  rw [routeAt, routeAt, hmarkers, hreference _ (by simp), hreference _ (by simp)]

theorem findSome?_congr {α β : Type} {f g : α → Option β} {items : List α}
    (h : ∀ x ∈ items, f x = g x) : items.findSome? f = items.findSome? g := by
  induction items with
  | nil => rfl
  | cons x items ih =>
      rw [List.findSome?_cons, List.findSome?_cons, h x List.mem_cons_self,
        ih fun y hy => h y (List.mem_cons_of_mem x hy)]

/-- Scans of the same directories come to the same, if the same of them can be listed and the same
of them are routed. -/
theorem run_congr {pages : Path} {n m : Node} (hn : s.disk.node? pages = .ok n)
    (hm : s'.disk.node? pages = .ok m) (hdirs : m.dirs = n.dirs)
    (hunlisted : ∀ names ∈ n.dirs, s'.unlisted? (names.foldl Path.child pages) =
      s.unlisted? (names.foldl Path.child pages))
    (hrouted : ∀ names ∈ n.dirs, s'.routeAt (names.foldl Path.child pages) names =
      s.routeAt (names.foldl Path.child pages) names) : s'.run pages = s.run pages := by
  rw [run_of_node hn, run_of_node hm, hdirs, findSome?_congr hunlisted,
    List.filterMap_congr hrouted]

/-- Where the scan starts at no directory, there are no routes. -/
theorem run_of_not_isDir {pages : Path} (h : ¬ s.disk.isDir pages) : s.run pages = .ok [] := by
  cases hnode : s.disk.node? pages with
  | error e => exact run_of_nothing hnode
  | ok n =>
      have hkind : n.kind ≠ .dir := by
        simpa [Disk.isDir, hnode, Except.toOption] using h
      rw [run_of_node hnode, Disk.Node.dirs_eq_nil hkind]
      rfl

/-- Every route is the route of a directory at or below the one where the scan starts. -/
theorem exists_routeAt_of_mem_run {pages : Path} {found : List Route} (hs : s.disk.Plain)
    (h : s.run pages = .ok found) (hr : r ∈ found) :
    ∃ names : List Text, (∀ k ∈ names, IsName k) ∧
      s.routeAt (names.foldl Path.child pages) names = some r := by
  cases hnode : s.disk.node? pages with
  | error e =>
      rw [run_of_nothing hnode] at h
      obtain rfl := Except.ok.inj h
      cases hr
  | ok n =>
      rw [run_of_node hnode] at h
      split at h
      · cases h
      · obtain rfl := Except.ok.inj h
        obtain ⟨names, hmem, hroute⟩ := List.mem_filterMap.1 hr
        obtain ⟨_, _, hget⟩ := Disk.node?_ok_iff.1 hnode
        have hn := (Node.isPlain_get? hs.tree hget).1
        obtain ⟨children, hchildren⟩ := Node.kindAt_dir_iff.1 ((Node.mem_dirs_iff hn).1 hmem)
        exact ⟨names, (Node.isPlain_get? hn hchildren).2, hroute⟩

/-- The references of a route are those of the marked files of its directory. -/
theorem exists_marker_of_mem {dir : Path} {segments : List Text} {reference : Text}
    (h : s.routeAt dir segments = some r) (hmem : reference ∈ r.page :: r.layout.toList) :
    ∃ marker ∈ [s.markers.page, s.markers.layout], reference = s.reference dir marker := by
  have hreference : ∀ {marker found : Text}, s.reference? dir marker = some found →
      found = s.reference dir marker := by
    intro marker found hfound
    unfold reference? at hfound
    split at hfound
    · exact (Option.some.inj hfound).symm
    · cases hfound
  obtain ⟨page, hpage, rfl⟩ := Option.map_eq_some_iff.1 h
  rcases List.mem_cons.1 hmem with rfl | hmem
  · exact ⟨_, by simp, hreference hpage⟩
  · exact ⟨_, by simp, hreference (Option.mem_toList.1 hmem)⟩

/-- The references of a directory below the output root are the names that lead to its files. -/
theorem reference_of_place {dir : Path} {names : List Text} {marker : Text}
    (hout : s.outputRoot.isAbsolute) (hdir : dir.isAbsolute)
    (hplace : dir.place = s.outputRoot.place ++ names) (hmarker : Ordinary marker)
    (hstem : Ordinary (Path.renamed marker [])) :
    s.reference dir marker = ['/'].intercalate (names ++ [Path.renamed marker []]) := by
  rw [reference, (Path.withExtension_child _ hmarker (by simp)).1]
  refine Path.slashed_relativize_of_place hout (Path.isAbsolute_child hdir _) ?_ (by simp)
  rw [Path.place_child hdir hstem, hplace, List.append_assoc]

end Route.Scan

end Quire
