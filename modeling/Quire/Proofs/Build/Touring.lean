import Quire.Proofs.Build.Confinement
import Quire.Proofs.Build.Meetings
import Quire.Proofs.Build.Reaching

/-!
Visits that nothing stops. Where each meeting ends well and changes files only at places that the
visit passes by, the visit meets every other file below its start once, in the order of the names;
of a directory with too long a path it meets that it cannot be listed.
-/

namespace Quire

namespace Build

open Disk (Place Plain Kind IsName IsLong Leads Node Ordered)
open Quire.Path (Ordinary)

variable {σ : Type} {v : Visit σ} {d e : Disk} {free : Place → Prop} {names x y : List Text}
  {met rest : List (List Text × Met)} {w : Work} {region region' : List Text → Prop}

/-- A file that a visit is to meet: it is not passed by, and its directory can be listed. -/
structure Due (v : Visit σ) (d : Disk) (x : List Text) : Prop where
  ne_nil : x ≠ []
  file : d.root.kindAt (v.root.place ++ x) = some .file
  skips : ¬ v.skips (below v.root x)
  short : ¬ IsLong (below v.root x.dropLast)

/-- The first path on the way down that is too long. -/
structure Overlong (v : Visit σ) (x : List Text) : Prop where
  ne_nil : x ≠ []
  skips : ¬ v.skips (below v.root x)
  long : IsLong (below v.root x)
  short : ¬ IsLong (below v.root x.dropLast)

/-- Meetings with all that is to be met in a region, each once and in the order of the names. A
directory with too long a path may have come to be there on the way. -/
structure Tour (v : Visit σ) (d : Disk) (region : List Text → Prop)
    (met : List (List Text × Met)) : Prop where
  ordered : met.Pairwise fun a b => a.1 < b.1
  inside : ∀ m ∈ met, region m.1 ∧ ∀ n ∈ m.1, IsName n
  file : ∀ x, (x, .file) ∈ met ↔ region x ∧ Due v d x
  unlisted : ∀ x fault, (x, .unlisted fault) ∈ met → fault = .nameTooLong ∧ Overlong v x
  overlong : ∀ x, region x → Overlong v x → d.root.kindAt (v.root.place ++ x) = some .dir →
    (x, .unlisted .nameTooLong) ∈ met

namespace Tour

theorem nil (hfile : ∀ x, region x → ¬ Due v d x)
    (hdir : ∀ x, region x → Overlong v x → d.root.kindAt (v.root.place ++ x) ≠ some .dir) :
    Tour v d region [] where
  ordered := List.Pairwise.nil
  inside := by simp
  file x := ⟨fun h => absurd h List.not_mem_nil, fun h => absurd h.2 (hfile x h.1)⟩
  unlisted x fault h := absurd h List.not_mem_nil
  overlong x hx hlong hkind := absurd hkind (hdir x hx hlong)

/-- One tour after the other, of a region that is behind in the order of the names. -/
theorem append (h : Tour v d region met) (h' : Tour v d region' rest)
    (hlt : ∀ x y, region x → region' y → x < y) :
    Tour v d (fun x => region x ∨ region' x) (met ++ rest) where
  ordered := List.pairwise_append.2 ⟨h.ordered, h'.ordered, fun a ha b hb =>
    hlt _ _ (h.inside a ha).1 (h'.inside b hb).1⟩
  inside m hm := by
    rcases List.mem_append.1 hm with hm | hm
    · exact ⟨Or.inl (h.inside m hm).1, (h.inside m hm).2⟩
    · exact ⟨Or.inr (h'.inside m hm).1, (h'.inside m hm).2⟩
  file x := by rw [List.mem_append, h.file, h'.file, or_and_right]
  unlisted x fault hx := (List.mem_append.1 hx).elim (h.unlisted x fault) (h'.unlisted x fault)
  overlong x hx hlong hdir := List.mem_append.2
    (hx.imp (fun hx => h.overlong x hx hlong hdir) fun hx => h'.overlong x hx hlong hdir)

/-- A tour of a region is one of a larger region in which nothing more is to be met. -/
theorem widen (h : Tour v d region met) (hsub : ∀ x, region x → region' x)
    (hfile : ∀ x, region' x → Due v d x → region x)
    (hdir : ∀ x, region' x → Overlong v x → d.root.kindAt (v.root.place ++ x) = some .dir →
      region x) : Tour v d region' met where
  ordered := h.ordered
  inside m hm := ⟨hsub _ (h.inside m hm).1, (h.inside m hm).2⟩
  file x := by
    rw [h.file]
    exact ⟨fun hx => ⟨hsub x hx.1, hx.2⟩, fun hx => ⟨hfile x hx.1 hx.2, hx.2⟩⟩
  unlisted := h.unlisted
  overlong x hx hlong hkind := h.overlong x (hdir x hx hlong hkind) hlong hkind

end Tour

/-- A visit of a directory that nothing stops: all meetings end well, and files change only where
the visit passes by. What it passes by it passes by with all that is below. -/
structure Unhindered (v : Visit σ) (d : Disk) (free : Place → Prop) : Prop where
  plain : d.Plain
  leads : Leads d v.root
  avoids : ∀ x, x ≠ [] → (∀ n ∈ x, IsName n) → free (v.root.place ++ x) → v.skips (below v.root x)
  skips_append : ∀ x y, x ≠ [] → (∀ n ∈ x ++ y, IsName n) → v.skips (below v.root x) →
    v.skips (below v.root (x ++ y))
  meets : ∀ s x m w, w.disk.Plain → (∀ n ∈ x, IsName n) → (m = .file → x ≠ []) →
    ∃ t after, (v.meet s x m).result w = (.ok t, after) ∧ Confined free w.disk after.disk

/-- All meetings of a tour end well. -/
theorem exists_result_meetAll (hv : Unhindered v d free)
    (hmet : ∀ m ∈ met, (∀ n ∈ m.1, IsName n) ∧ (m.2 = .file → m.1 ≠ [])) (s : σ)
    (hw : w.disk.Plain) :
    ∃ t after, (meetAll v s met).result w = (.ok t, after) ∧ Confined free w.disk after.disk := by
  induction met generalizing s w with
  | nil => exact ⟨s, w, rfl, Confined.refl hw⟩
  | cons m met ih =>
      obtain ⟨hnames, hne⟩ := hmet m List.mem_cons_self
      obtain ⟨t, mid, hmeet, hmid⟩ := hv.meets s m.1 m.2 w hw hnames hne
      obtain ⟨u, after, hrest, hafter⟩ :=
        ih (fun m' hm' => hmet m' (List.mem_cons_of_mem m hm')) t hmid.plain
      refine ⟨u, after, ?_, hmid.trans hafter⟩
      rw [← List.singleton_append, result_meetAll_append, result_meetAll_singleton, hmeet]
      exact hrest

theorem Tour.meetable (h : Tour v d region met) :
    ∀ m ∈ met, (∀ n ∈ m.1, IsName n) ∧ (m.2 = .file → m.1 ≠ []) := by
  intro m hm
  refine ⟨(h.inside m hm).2, fun hfile => ?_⟩
  have hdue := (h.file m.1).1 (hfile ▸ hm)
  exact hdue.2.ne_nil

/-- The tours of the entries of a directory, one after the other. -/
theorem exists_tour_entries (hv : Unhindered v d free) {body : σ → Text × Kind → Job σ}
    {entries : List (Text × Kind)} (hordered : Ordered entries)
    (hbody : ∀ entry ∈ entries, ∀ s w, Confined free e w.disk → ∃ met,
      (body s entry).result w = (meetAll v s met).result w ∧
        Tour v d (names ++ [entry.1] <+: ·) met)
    (s : σ) (hw : Confined free e w.disk) :
    ∃ met, (entries.foldlM body s).result w = (meetAll v s met).result w ∧
      Tour v d (fun x => ∃ entry ∈ entries, names ++ [entry.1] <+: x) met := by
  induction entries generalizing s w with
  | nil => exact ⟨[], rfl, Tour.nil (by simp) (by simp)⟩
  | cons entry entries ih =>
      obtain ⟨hfirst, hordered⟩ := List.pairwise_cons.1 hordered
      obtain ⟨met, hmet, htour⟩ := hbody entry List.mem_cons_self s w hw
      obtain ⟨t, mid, hmid, hconfined⟩ := exists_result_meetAll hv htour.meetable s hw.plain
      obtain ⟨rest, hrest, htour'⟩ := ih hordered
        (fun entry' hmem => hbody entry' (List.mem_cons_of_mem entry hmem)) t (hw.trans hconfined)
      refine ⟨met ++ rest, ?_, ?_⟩
      · rw [List.foldlM_cons, Job.result_bind, result_meetAll_append, hmet, hmid]
        exact hrest
      · have hboth := htour.append htour' (by
          rintro x y hx ⟨entry', hmem, hy⟩
          exact lt_of_before (hfirst entry' hmem) hx hy)
        simp only [List.exists_mem_cons_iff]
        exact hboth

/-- Nothing is below a place where no directory is. -/
theorem eq_of_isPrefix_of_kindAt (hne : d.root.kindAt (v.root.place ++ y) ≠ some .dir)
    (hpre : y <+: x) (hsome : (d.root.kindAt (v.root.place ++ x)).isSome) : x = y := by
  obtain ⟨tail, rfl⟩ := hpre
  cases tail with
  | nil => rw [List.append_nil]
  | cons n tail =>
      rw [← List.append_assoc] at hsome
      exact absurd (Node.kindAt_of_append hsome) hne

/-- Where no directory was and the visit finds no file, nothing is to be met. -/
theorem tour_aside (hdir : d.root.kindAt (v.root.place ++ y) ≠ some .dir)
    (hfile : d.root.kindAt (v.root.place ++ y) ≠ some .file) : Tour v d (y <+: ·) [] := by
  apply Tour.nil
  · intro x hpre hdue
    have heq := eq_of_isPrefix_of_kindAt hdir hpre (by rw [hdue.file]; rfl)
    exact hfile (heq ▸ hdue.file)
  · intro x hpre _ hkind
    have heq := eq_of_isPrefix_of_kindAt hdir hpre (by rw [hkind]; rfl)
    exact hdir (heq ▸ hkind)

/-- Below what is passed by, nothing is to be met. -/
theorem tour_skipped (hv : Unhindered v d free) (hne : y ≠ []) (hskip : v.skips (below v.root y)) :
    Tour v d (y <+: ·) [] := by
  have hbelow : ∀ x, y <+: x → (d.root.kindAt (v.root.place ++ x)).isSome →
      v.skips (below v.root x) := by
    rintro x ⟨tail, rfl⟩ hsome
    exact hv.skips_append y tail hne (isName_of_kindAt hv.plain hsome) hskip
  apply Tour.nil
  · intro x hpre hdue
    exact hdue.skips (hbelow x hpre (by rw [hdue.file]; rfl))
  · intro x hpre hlong hkind
    exact hlong.skips (hbelow x hpre (by rw [hkind]; rfl))

/-- A file that is not passed by is met. -/
theorem tour_file (hv : Unhindered v d free) (hw : Confined free d w.disk)
    (hnames : ∀ n ∈ x, IsName n) (hne : x ≠ []) (hskip : ¬ v.skips (below v.root x))
    (hshort : ¬ IsLong (below v.root x.dropLast))
    (hfile : w.disk.root.kindAt (v.root.place ++ x) = some .file) :
    Tour v d (x <+: ·) [(x, .file)] := by
  -- it is no file that came to be there, for those are where the visit passes by
  have hthere : d.root.kindAt (v.root.place ++ x) = some .file := by
    have hout : ¬ free (v.root.place ++ x) := fun hfree => hskip (hv.avoids x hne hnames hfree)
    obtain ⟨bytes, hbytes⟩ := Node.kindAt_file_iff.1 hfile
    rw [hw.bytes _ hout] at hbytes
    exact Node.kindAt_file_iff.2 ⟨bytes, hbytes⟩
  have hdir : d.root.kindAt (v.root.place ++ x) ≠ some .dir := by
    rw [hthere]
    simp
  refine ⟨List.pairwise_singleton _ _, by simpa using hnames, fun y => ⟨?_, ?_⟩, by simp, ?_⟩
  · intro hy
    obtain rfl : y = x := by simpa using hy
    exact ⟨List.prefix_refl _, hne, hthere, hskip, hshort⟩
  · rintro ⟨hpre, hdue⟩
    have heq := eq_of_isPrefix_of_kindAt hdir hpre (by rw [hdue.file]; rfl)
    simp [heq]
  · intro y hpre _ hkind
    have heq := eq_of_isPrefix_of_kindAt hdir hpre (by rw [hkind]; rfl)
    exact absurd (heq ▸ hkind) hdir

/-- Of a directory with too long a path it is met that it cannot be listed. -/
theorem tour_unlisted (hv : Unhindered v d free) (hnames : ∀ n ∈ x, IsName n)
    (hfile : d.root.kindAt (v.root.place ++ x) ≠ some .file) (h : Overlong v x) :
    Tour v d (x <+: ·) [(x, .unlisted .nameTooLong)] := by
  have hbelow : ∀ y, x <+: y → (∀ n ∈ y, IsName n) → ¬ IsLong (below v.root y.dropLast) →
      y = x := by
    rintro y ⟨tail, rfl⟩ hy hshort
    rcases List.eq_nil_or_concat' tail with rfl | ⟨front, n, rfl⟩
    · rw [List.append_nil]
    · rw [← List.append_assoc, List.dropLast_concat] at hshort
      refine absurd (isLong_below_append hv.leads.isAbsolute (fun m hm => hy m ?_) h.long) hshort
      simp [hm]
  refine ⟨List.pairwise_singleton _ _, by simpa using hnames, fun y => ⟨by simp, ?_⟩, ?_, ?_⟩
  · rintro ⟨hpre, hdue⟩
    have hy := isName_of_kindAt hv.plain (by rw [hdue.file]; rfl)
    have heq := hbelow y hpre hy hdue.short
    exact absurd (heq ▸ hdue.file) hfile
  · intro y fault hy
    obtain ⟨rfl, rfl⟩ : y = x ∧ fault = .nameTooLong := by simpa using hy
    exact ⟨rfl, h⟩
  · intro y hpre hlong hkind
    have hy := isName_of_kindAt hv.plain (by rw [hkind]; rfl)
    simp [hbelow y hpre hy hlong.short]

/-- A directory that the visit has come to: the start, or one that is not passed by and whose
parent was listed. -/
def Entered (v : Visit σ) (names : List Text) : Prop :=
  names = [] ∨ ¬ v.skips (below v.root names) ∧ ¬ IsLong (below v.root names.dropLast)

/-- So deep that nothing more is visited, no path is short enough to be come to. -/
theorem depth_ne_zero (hv : Unhindered v d free) {depth : Nat}
    (hnames : ∀ n ∈ names, IsName n) (hentered : Entered v names)
    (hdepth : depth + names.length = Disk.maxPath) : depth ≠ 0 := by
  rintro rfl
  rcases hentered with rfl | ⟨_, hshort⟩
  · cases hdepth
  · have hfront := byteSize_below hv.leads.isAbsolute fun n hn =>
      hnames n (List.dropLast_subset names hn)
    rw [List.length_dropLast] at hfront
    unfold IsLong at hshort
    unfold Disk.maxPath at hdepth hshort
    omega

/-- What a visit meets at one entry of a directory, on a disk that the entries before it may have
changed. -/
theorem exists_tour_visitEntry (hv : Unhindered v d free) {depth : Nat} {n : Text} {kind : Kind}
    (hnames : ∀ m ∈ names ++ [n], IsName m) (hshort : ¬ IsLong (below v.root names)) (s : σ)
    (hw : Confined free d w.disk)
    (hkind : w.disk.root.kindAt (v.root.place ++ (names ++ [n])) = some kind)
    (hdown : kind = .dir → Entered v (names ++ [n]) → ∃ met,
      (v.visitBelow depth (names ++ [n]) s).result w = (meetAll v s met).result w ∧
        Tour v d (names ++ [n] <+: ·) met) :
    ∃ met, (visitEntry v depth names s (n, kind)).result w = (meetAll v s met).result w ∧
      Tour v d (names ++ [n] <+: ·) met := by
  have hne : names ++ [n] ≠ [] := by simp
  have hparent : ¬ IsLong (below v.root (names ++ [n]).dropLast) := by
    rwa [List.dropLast_concat]
  have haside : kind ≠ .dir → kind ≠ .file → Tour v d (names ++ [n] <+: ·) [] := by
    intro hdir hfile
    apply tour_aside
    · intro hthere
      exact hdir (Option.some.inj (hkind.symm.trans (hw.kinds _ _ hthere)))
    · intro hthere
      exact hfile (Option.some.inj (hkind.symm.trans (hw.kinds _ _ hthere)))
  unfold visitEntry
  by_cases hskip : v.skips (below v.root (names ++ [n]))
  · rw [if_pos hskip]
    exact ⟨[], rfl, tour_skipped hv hne hskip⟩
  · rw [if_neg hskip]
    cases kind with
    | link => exact ⟨[], rfl, haside nofun nofun⟩
    | device => exact ⟨[], rfl, haside nofun nofun⟩
    | dir => exact hdown rfl (Or.inr ⟨hskip, hparent⟩)
    | file =>
        refine ⟨[(names ++ [n], .file)], ?_, tour_file hv hw hnames hne hskip hparent hkind⟩
        exact (result_meetAll_singleton v s (names ++ [n], .file) w).symm

/-- What was strictly below a directory is below one of the entries that are listed there. -/
theorem exists_entry {children : List (Text × Node)} (hw : Confined free d w.disk)
    (hget : w.disk.root.get? (v.root.place ++ names) = some (.dir children))
    (hpre : names <+: x) (hne : x ≠ names) (hsome : (d.root.kindAt (v.root.place ++ x)).isSome) :
    ∃ entry ∈ Node.entries children, names ++ [entry.1] <+: x := by
  obtain ⟨tail, rfl⟩ := hpre
  cases tail with
  | nil => exact absurd (List.append_nil names) hne
  | cons n tail =>
      obtain ⟨k, hk⟩ : ∃ k, d.root.kindAt (v.root.place ++ names ++ [n]) = some k := by
        cases tail with
        | nil =>
            rw [List.append_assoc]
            exact Option.isSome_iff_exists.1 hsome
        | cons n' tail =>
            have hsome' : (d.root.kindAt (v.root.place ++ names ++ [n] ++ n' :: tail)).isSome := by
              simpa using hsome
            exact ⟨.dir, Node.kindAt_of_append hsome'⟩
      refine ⟨(n, k), (Node.mem_entries_iff hw.plain.tree hget).2 (hw.kinds _ _ hk), tail, ?_⟩
      simp

/-- A visit that has come to a directory with too long a path meets that it cannot be listed. -/
theorem exists_tour_of_isLong (hv : Unhindered v d free) (depth : Nat)
    (hnames : ∀ n ∈ names, IsName n) (hentered : Entered v names) (s : σ)
    (hw : Confined free d w.disk) (hlong : IsLong (below v.root names))
    (hfile : d.root.kindAt (v.root.place ++ names) ≠ some .file) :
    ∃ met, (v.visitBelow (depth + 1) names s).result w = (meetAll v s met).result w ∧
      Tour v d (names <+: ·) met := by
  have hleads : Leads w.disk v.root := hv.leads.of_kinds hw.kinds
  have hne : names ≠ [] := by
    rintro rfl
    exact Nat.not_lt.2 (Disk.checkPath_ok_iff.1 hv.leads.check).2.2 hlong
  obtain ⟨hskip, hshort⟩ := hentered.resolve_left hne
  refine ⟨[(names, .unlisted .nameTooLong)], ?_, ?_⟩
  · rw [result_visitBelow, listing_below_of_isLong hleads hnames hlong]
    exact (result_meetAll_singleton v s (names, .unlisted .nameTooLong) w).symm
  · exact tour_unlisted hv hnames hfile ⟨hne, hskip, hlong, hshort⟩

/-- What a visit meets below a directory that it has come to. -/
theorem exists_tour_visitBelow (hv : Unhindered v d free) (depth : Nat)
    (hnames : ∀ n ∈ names, IsName n) (hentered : Entered v names)
    (hdepth : depth + names.length = Disk.maxPath) (s : σ) (hw : Confined free d w.disk)
    (hdir : w.disk.root.kindAt (v.root.place ++ names) = some .dir) :
    ∃ met, (v.visitBelow depth names s).result w = (meetAll v s met).result w ∧
      Tour v d (names <+: ·) met := by
  induction depth generalizing names s w with
  | zero => exact absurd rfl (depth_ne_zero hv hnames hentered hdepth)
  | succ depth ih =>
      have hnofile : d.root.kindAt (v.root.place ++ names) ≠ some .file := by
        intro hfile
        rw [hw.kinds _ _ hfile] at hdir
        cases hdir
      by_cases hlong : IsLong (below v.root names)
      · exact exists_tour_of_isLong hv depth hnames hentered s hw hlong hnofile
      · obtain ⟨children, hget, hlisting⟩ :=
          listing_below hw.plain (hv.leads.of_kinds hw.kinds) hnames hlong hdir
        rw [result_visitBelow, hlisting]
        obtain ⟨met, hmet, htour⟩ : ∃ met,
            ((Node.entries children).foldlM (visitEntry v depth names) s).result w =
              (meetAll v s met).result w ∧
            Tour v d (fun x => ∃ entry ∈ Node.entries children, names ++ [entry.1] <+: x) met := by
          refine exists_tour_entries hv (Disk.ordered_of_listing hw.plain hlisting) ?_ s
            (Confined.refl hw.plain)
          rintro ⟨n, kind⟩ hentry t w' hw'
          have hconfined := hw.trans hw'
          have hkind := (Node.mem_entries_iff hw.plain.tree hget).1 hentry
          rw [List.append_assoc] at hkind
          have hnames' := Disk.isName_concat_of_listing hw.plain hlisting hnames hentry
          refine exists_tour_visitEntry hv hnames' hlong t hconfined (hw'.kinds _ _ hkind) ?_
          rintro rfl hentered'
          refine ih hnames' hentered' ?_ t hconfined (hw'.kinds _ _ hkind)
          rw [List.length_append, List.length_singleton]
          omega
        refine ⟨met, hmet, htour.widen ?_ ?_ ?_⟩
        · rintro x ⟨entry, _, hpre⟩
          exact (List.prefix_append _ _).trans hpre
        · intro x hpre hdue
          refine exists_entry hw hget hpre (fun heq => hnofile (heq ▸ hdue.file)) ?_
          rw [hdue.file]
          rfl
        · intro x hpre hover hkind
          refine exists_entry hw hget hpre (fun heq => hlong (heq ▸ hover.long)) ?_
          rw [hkind]
          rfl

/-- What a visit meets below the directory that it starts at. -/
theorem exists_tour_run (hv : Unhindered v d free) (s : σ) (hw : w.disk = d) :
    ∃ met, (v.run s).result w = (meetAll v s met).result w ∧ Tour v d (fun _ => True) met := by
  subst hw
  have hnode : w.disk.nodeItself? v.root = w.disk.node? v.root :=
    Disk.nodeItself?_eq_node? hv.plain v.root
  obtain ⟨place, hplace, hkind⟩ := Disk.isDir_iff.1 (hv.leads.isDir hv.plain)
  obtain ⟨children, hget⟩ := Node.kindAt_dir_iff.1 hkind
  have hthere : w.disk.node? v.root = .ok (.dir children) :=
    Disk.node?_ok_iff.2 ⟨place, hplace, hget⟩
  have hdir : w.disk.root.kindAt (v.root.place ++ []) = some .dir := by
    rw [List.append_nil]
    exact hv.leads.dir
  have hnames : ∀ n ∈ ([] : List Text), IsName n := by simp
  obtain ⟨met, hmet, htour⟩ := exists_tour_visitBelow hv Disk.maxPath hnames (Or.inl rfl) rfl s
    (Confined.refl hv.plain) hdir
  refine ⟨met, ?_, by simpa using htour⟩
  unfold Visit.run
  rw [Job.result_bind, Job.result_look, hnode, hthere]
  exact hmet

end Build

end Quire
