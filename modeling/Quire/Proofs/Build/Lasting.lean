import Quire.Proofs.Build.Reworking
import Quire.Proofs.Disk.Alike

/-!
Changes that are made again after all that came of them. The second time everything that was made
is there already; so the directories are found, the files are written with the same bytes, and what
was in the way still is.
-/

namespace Quire.Build

open Disk (Place Plain Node IsName Leads Wrote Alike)
open Quire.Path (Ordinary Straight)

variable {d d' e e' last : Disk} {free : Place → Prop} {place q : Place} {output above : Path}
  {n : Text} {names : List Text} {bytes : ByteArray} {P Q : Disk → Prop} {c c' : Disk.Change}

/-- A plain disk on which an output directory is. -/
structure Ready (output : Path) (d : Disk) : Prop where
  plain : d.Plain
  leads : Leads d output

theorem Ready.mono (h : Ready output d) (hd : Reworked free d d') : Ready output d' :=
  ⟨hd.plain, h.leads.mono hd.cwd hd.kinds⟩

/-- Neither at a place nor on the way to it anything is changed. -/
def Fixed (free : Place → Prop) (place : Place) : Prop := ∀ q, q <+: place → ¬ free q

/-- A disk that trails a run which left the last disk: all that the run was to make is there, and a
file has the bytes of the moment or those of the end. -/
structure Trails (last d e : Disk) : Prop where
  plain : e.Plain
  cwd : e.cwd = d.cwd
  kinds : ∀ q, e.root.kindAt q = last.root.kindAt q
  bytes : ∀ q, e.root.bytesAt q = d.root.bytesAt q ∨ e.root.bytesAt q = last.root.bytesAt q

namespace Trails

variable (h : Trails last d e) (hd : Reworked free d last)

include h hd

theorem kindAt {k : Disk.Kind} (hq : d.root.kindAt q = some k) : e.root.kindAt q = some k := by
  rw [h.kinds]
  exact hd.kinds q k hq

theorem kindAt_eq (hq : ¬ free q) : e.root.kindAt q = d.root.kindAt q := by
  rw [h.kinds, Node.kindAt_congr (hd.frame q hq)]

theorem bytesAt_eq (hq : ¬ free q) : e.root.bytesAt q = d.root.bytesAt q := by
  rcases h.bytes q with heq | heq
  · exact heq
  · rw [heq, Node.bytesAt_congr (hd.frame q hq)]

theorem alike (hplain : d.Plain) (hplace : Fixed free place) : Alike place d e :=
  ⟨hplain, h.plain, h.cwd, fun q hq => h.kindAt_eq hd (hplace q hq)⟩

theorem leads {p : Path} (hp : Leads d p) : Leads e p := hp.mono h.cwd fun _ _ => h.kindAt hd

end Trails

/-- A file that is written again has the same bytes again. -/
theorem Trails.wrote (h : Trails last d e) (hplain : d.Plain) (hw : Wrote place bytes d d')
    (hw' : Wrote place bytes e e') (hlast : Reworked free d' last) : Trails last d' e' := by
  have hd' : ∀ q k, d.root.kindAt q = some k → d'.root.kindAt q = some k := fun _ _ => hw.kindAt hplain
  have hdevice : d.root.kindAt place = some .device ↔ e.root.kindAt place = some .device := by
    constructor
    · intro hq
      rw [h.kinds]
      exact hlast.kinds _ _ (hd' _ _ hq)
    · intro hq
      by_contra hne
      have hfile : d'.root.kindAt place = some .file := by
        rw [Node.kindAt_eq_seen, hw.seen, if_pos ⟨rfl, hne⟩]
        rfl
      rw [h.kinds, hlast.kinds _ _ hfile] at hq
      cases hq
  refine ⟨hw'.plain, by rw [hw'.cwd, h.cwd, hw.cwd], fun q => ?_, fun q => ?_⟩
  · by_cases hq : q = place ∧ e.root.kindAt q ≠ some .device
    · obtain ⟨rfl, hne⟩ := hq
      have hfile : d'.root.kindAt q = some .file := by
        rw [Node.kindAt_eq_seen, hw.seen, if_pos ⟨rfl, fun hq => hne (hdevice.1 hq)⟩]
        rfl
      rw [Node.kindAt_eq_seen, hw'.seen, if_pos ⟨rfl, hne⟩, hlast.kinds _ _ hfile]
      rfl
    · rw [Node.kindAt_eq_seen, hw'.seen, if_neg hq, ← Node.kindAt_eq_seen, h.kinds]
  · rw [hw.bytesAt, hw'.bytesAt]
    by_cases hq : q = place
    · subst hq
      by_cases hdev : d.root.kindAt q = some .device
      · rw [if_neg (by simp [hdevice.1 hdev]), if_neg (by simp [hdev])]
        exact h.bytes q
      · rw [if_pos ⟨rfl, fun hq => hdev (hdevice.2 hq)⟩, if_pos ⟨rfl, hdev⟩]
        exact Or.inl rfl
    · rw [if_neg fun hq' => hq hq'.1, if_neg fun hq' => hq hq'.1]
      exact h.bytes q

/-- A change that answers the same when it is made again after the end of its run. -/
structure Lasting (output : Path) (free : Place → Prop) (last : Disk) (P : Disk → Prop)
    (c : Disk.Change) : Prop where
  grows : ∀ d, Ready output d → P d → Reworked free d (c d).2
  again : ∀ d e, Ready output d → P d → Trails last d e → Reworked free (c d).2 last →
    (c e).1 = (c d).1 ∧ Trails last (c d).2 (c e).2

theorem Lasting.andThen (hc : Lasting output free last P c) (hc' : Lasting output free last Q c')
    (hQ : ∀ d, Ready output d → P d → (c d).1 = .ok () → Q (c d).2) :
    Lasting output free last P (c.andThen c') where
  grows d hd hP := by
    have hfirst := hc.grows d hd hP
    have hafter := hQ d hd hP
    unfold Disk.Change.andThen
    rcases hresult : c d with ⟨answer, mid⟩
    rw [hresult] at hfirst hafter
    cases answer with
    | error f => exact hfirst
    | ok u => exact hfirst.trans (hc'.grows mid (hd.mono hfirst) (hafter rfl))
  again d e hd hP htrails := by
    have hfirst := hc.grows d hd hP
    have hafter := hQ d hd hP
    have hagain := hc.again d e hd hP htrails
    unfold Disk.Change.andThen
    rcases hresult : c d with ⟨answer, mid⟩
    rcases hresult' : c e with ⟨answer', mid'⟩
    rw [hresult] at hfirst hafter hagain
    rw [hresult'] at hagain
    cases answer with
    | error f =>
        intro hlast
        obtain ⟨rfl, htrails'⟩ := hagain hlast
        exact ⟨rfl, htrails'⟩
    | ok u =>
        intro hlast
        have hmid := hd.mono hfirst
        obtain ⟨rfl, htrails'⟩ := hagain ((hc'.grows mid hmid (hafter rfl)).trans hlast)
        exact hc'.again mid mid' hmid (hafter rfl) htrails' hlast

/-- Making directories that are there does nothing. -/
theorem lasting_makeDirs_there {p : Path} (h : ∀ d, Ready output d → P d → Leads d p) :
    Lasting output free last P (Disk.makeDirs p) where
  grows d hd hP := by
    rw [(h d hd hP).makeDirs hd.plain]
    exact Reworked.refl hd.plain
  again d e hd hP htrails hlast := by
    rw [(h d hd hP).makeDirs hd.plain] at hlast ⊢
    rw [(htrails.leads hlast (h d hd hP)).makeDirs htrails.plain]
    exact ⟨rfl, htrails⟩

/-- Once directories have been made they lead to what is made in them. -/
theorem leads_of_makeDirs_below (hd : Ready output d) (hnames : ∀ n ∈ names, IsName n)
    (h : (Disk.makeDirs (below output names).trimmed d).1 = .ok ()) :
    Leads (Disk.makeDirs (below output names).trimmed d).2 (below output names) := by
  cases hcheck : Disk.checkPath (below output names) with
  | error f =>
      have hfault := congrArg Prod.fst (Disk.makeDirs_below_of_check hd.leads hnames hcheck d)
      exact absurd (h.symm.trans hfault) nofun
  | ok u =>
      by_cases hclear : Disk.Clear d.root (output.place ++ names)
      · obtain ⟨after, hmade, hcleared⟩ :=
          Disk.makeDirs_of_clear hd.plain hd.leads hnames hcheck hclear
        have hmade' : Disk.makeDirs (below output names).trimmed d = (.ok (), after) := hmade
        have hgrows : Reworked (Inside output.place) d
            (Disk.makeDirs (below output names).trimmed d).2 :=
          reworked_makeDirs_below hd.plain hd.leads hnames fun _ hne _ => inside_append hne
        rw [hmade'] at hgrows ⊢
        exact (hd.mono hgrows).leads.below hcleared.plain hnames hcheck hcleared.dir
      · have hmade := Disk.makeDirs_of_blocked hd.plain hd.leads hnames hcheck hclear
        have hfault := congrArg Prod.fst hmade
        exact absurd (h.symm.trans hfault) nofun

/-- What was in the way of directories is in their way again. -/
theorem makeDirs_again_of_blocked (hd : Ready output d) (hnames : ∀ n ∈ names, IsName n)
    (hcheck : Disk.checkPath (below output names) = .ok ())
    (hblocked : ¬ Disk.Clear d.root (output.place ++ names)) (htrails : Trails last d e)
    (hlast : Reworked free d last) :
    Disk.makeDirs (below output names).trimmed e =
      ((Disk.makeDirs (below output names).trimmed d).1, e) := by
  have hmade : Disk.makeDirs (below output names).trimmed d =
      (.error (if (d.root.kindAt (output.place ++ names)).isSome then .exists
        else .notDirectory), d) :=
    Disk.makeDirs_of_blocked hd.plain hd.leads hnames hcheck hblocked
  obtain ⟨mid, n, rest, k, rfl, hk, hkne⟩ := Disk.exists_of_not_clear hd.leads.dir hblocked
  have hk' := htrails.kindAt hlast hk
  have hblocked' : ¬ Disk.Clear e.root (output.place ++ (mid ++ [n] ++ rest)) := by
    intro hclear
    rw [← List.append_assoc] at hclear
    have hdir := (hclear.front _ (List.prefix_refl _)).resolve_left (by rw [hk']; simp)
    exact hkne (Option.some.inj (hk'.symm.trans hdir))
  have hagain : Disk.makeDirs (below output (mid ++ [n] ++ rest)).trimmed e =
      (.error (if (e.root.kindAt (output.place ++ (mid ++ [n] ++ rest))).isSome then .exists
        else .notDirectory), e) :=
    Disk.makeDirs_of_blocked htrails.plain (htrails.leads hlast hd.leads) hnames hcheck hblocked'
  -- nothing is below what is no directory, so nothing can have come there
  have hwhole : (e.root.kindAt (output.place ++ (mid ++ [n] ++ rest))).isSome =
      (d.root.kindAt (output.place ++ (mid ++ [n] ++ rest))).isSome := by
    rw [← List.append_assoc]
    cases rest with
    | nil => rw [List.append_nil, hk, hk']
    | cons m rest =>
        rw [Node.kindAt_append_eq_none (by rw [hk']; simpa using hkne),
          Node.kindAt_append_eq_none (by rw [hk]; simpa using hkne)]
  rw [hagain, hmade, hwhole]

/-- Directories that were made are found. -/
theorem makeDirs_again_of_clear (hd : Ready output d) (hnames : ∀ n ∈ names, IsName n)
    (hfree : ∀ pre, pre ≠ [] → pre <+: names → free (output.place ++ pre))
    (hcheck : Disk.checkPath (below output names) = .ok ())
    (hclear : Disk.Clear d.root (output.place ++ names)) (htrails : Trails last d e)
    (hlast : Reworked free (Disk.makeDirs (below output names).trimmed d).2 last) :
    (Disk.makeDirs (below output names).trimmed e).1 =
        (Disk.makeDirs (below output names).trimmed d).1 ∧
      Trails last (Disk.makeDirs (below output names).trimmed d).2
        (Disk.makeDirs (below output names).trimmed e).2 := by
  obtain ⟨after, hmade, hcleared⟩ :=
    Disk.makeDirs_of_clear hd.plain hd.leads hnames hcheck hclear
  have hmade' : Disk.makeDirs (below output names).trimmed d = (.ok (), after) := hmade
  have hgrows := reworked_makeDirs_below hd.plain hd.leads hnames hfree
  have hfurnished := Disk.furnished_makeDirs hd.plain
    (Path.isAbsolute_trimmed (isAbsolute_below hd.leads.isAbsolute names))
  rw [hmade'] at hgrows hlast hfurnished ⊢
  have hthere : ∀ q, q <+: output.place ++ names → e.root.kindAt q = some .dir := by
    intro q hq
    rw [htrails.kinds]
    refine hlast.kinds _ _ ?_
    rw [← Node.seen_dir_iff, hcleared.seen, if_pos hq]
  obtain ⟨after', hagain, hcleared'⟩ := Disk.makeDirs_of_clear htrails.plain
    (htrails.leads (hgrows.trans hlast) hd.leads) hnames hcheck fun q hq => Or.inr (hthere q hq)
  have hagain' : Disk.makeDirs (below output names).trimmed e = (.ok (), after') := hagain
  have hsame : ∀ q, after'.root.seen q = e.root.seen q := by
    intro q
    rw [hcleared'.seen]
    split
    · next hq => exact (Node.seen_dir_iff.2 (hthere q hq)).symm
    · rfl
  rw [hagain']
  have hcwd : after'.cwd = after.cwd := by rw [hcleared'.cwd, htrails.cwd, hcleared.cwd]
  refine ⟨rfl, hcleared'.plain, hcwd, fun q => ?_, fun q => ?_⟩
  · rw [Node.kindAt_congr (hsame q), htrails.kinds]
  · rw [Node.bytesAt_congr (hsame q), hfurnished.bytesAt]
    exact htrails.bytes q

theorem lasting_makeDirs_below (hnames : ∀ n ∈ names, IsName n)
    (hfree : ∀ pre, pre ≠ [] → pre <+: names → free (output.place ++ pre)) :
    Lasting output free last P (Disk.makeDirs (below output names).trimmed) where
  grows d hd _ := reworked_makeDirs_below hd.plain hd.leads hnames hfree
  again d e hd _ htrails hlast := by
    cases hcheck : Disk.checkPath (below output names) with
    | error f =>
        have hfault : ∀ e, Disk.makeDirs (below output names).trimmed e = (.error f, e) :=
          Disk.makeDirs_below_of_check hd.leads hnames hcheck
        rw [hfault, hfault]
        exact ⟨rfl, htrails⟩
    | ok u =>
        by_cases hclear : Disk.Clear d.root (output.place ++ names)
        · exact makeDirs_again_of_clear hd hnames hfree hcheck hclear htrails hlast
        · have hsame : (Disk.makeDirs (below output names).trimmed d).2 = d :=
            congrArg Prod.snd (Disk.makeDirs_of_blocked hd.plain hd.leads hnames hcheck hclear)
          rw [hsame] at hlast ⊢
          rw [makeDirs_again_of_blocked hd hnames hcheck hclear htrails hlast]
          exact ⟨rfl, htrails⟩

/-- What stands where a file was written stays no directory. -/
theorem kindAt_ne_dir_of_wrote (hplain : d.Plain) (hw : Wrote place bytes d d')
    (hlast : Reworked free d' last) : last.root.kindAt place ≠ some .dir := by
  intro hdir
  have hsome : ∃ k, d'.root.kindAt place = some k ∧ k ≠ .dir := by
    by_cases hdevice : d.root.kindAt place = some .device
    · exact ⟨.device, hw.kindAt hplain hdevice, nofun⟩
    · refine ⟨.file, ?_, nofun⟩
      rw [Node.kindAt_eq_seen, hw.seen, if_pos ⟨rfl, hdevice⟩]
      rfl
  obtain ⟨k, hk, hne⟩ := hsome
  rw [hlast.kinds _ _ hk] at hdir
  exact hne (Option.some.inj hdir)

/-- A change that writes one file at a place, or fails, and that does the same when it is made
again. -/
theorem Lasting.ofWhole {whole : Disk → Except Disk.Fault Disk}
    (hplace : ∀ d, Ready output d → P d → d.root.kindAt place ≠ some .dir → free place)
    (hwrote : ∀ d d', Ready output d → P d → whole d = .ok d' → ∃ bytes, Wrote place bytes d d')
    (hagain : ∀ d e, Ready output d → P d → Trails last d e → Reworked free d last →
      (∀ d', whole d = .ok d' → Reworked free d' last) →
      (∃ f, whole d = .error f ∧ whole e = .error f) ∨ ∃ d' e' bytes, whole d = .ok d' ∧
        whole e = .ok e' ∧ Wrote place bytes d d' ∧ Wrote place bytes e e') :
    Lasting output free last P (.ofWhole whole) := by
  have hgrows : ∀ d, Ready output d → P d →
      Reworked free d (Disk.Change.ofWhole whole d).2 := by
    intro d hd hP
    cases hwhole : whole d with
    | error f =>
        rw [Disk.ofWhole_error hwhole]
        exact Reworked.refl hd.plain
    | ok d' =>
        obtain ⟨bytes, hw⟩ := hwrote d d' hd hP hwhole
        rw [Disk.ofWhole_ok hwhole]
        exact Reworked.of_wrote hd.plain hw (hplace d hd hP hw.free)
  refine ⟨hgrows, fun d e hd hP htrails hlast => ?_⟩
  have hafter : ∀ d', whole d = .ok d' → Reworked free d' last := by
    intro d' hwhole
    rwa [Disk.ofWhole_ok hwhole] at hlast
  rcases hagain d e hd hP htrails ((hgrows d hd hP).trans hlast) hafter with
    ⟨f, hfirst, hsecond⟩ | ⟨d', e', bytes, hfirst, hsecond, hw, hw'⟩
  · rw [Disk.ofWhole_error hfirst, Disk.ofWhole_error hsecond]
    exact ⟨rfl, htrails⟩
  · rw [Disk.ofWhole_ok hfirst, Disk.ofWhole_ok hsecond]
    exact ⟨rfl, htrails.wrote hd.plain hw hw' (hafter d' hfirst)⟩

/-- Where a file was written, one is aimed at again. -/
theorem Trails.target? (htrails : Trails last d e) (hlast : Reworked free d last) (hplain : d.Plain)
    (habove : Leads d above) (hn : Ordinary n ∨ n = ['.', '.'])
    (hwrote : ∀ goal, d.target? (above.child n) = .ok goal →
      ∃ d' bytes, Wrote goal bytes d d' ∧ Reworked free d' last) :
    e.target? (above.child n) = d.target? (above.child n) := by
  refine Disk.target?_again hplain htrails.plain habove (htrails.leads hlast habove) hn
    (htrails.kindAt hlast) fun goal hgoal => ?_
  obtain ⟨d', bytes, hw, hafter⟩ := hwrote goal hgoal
  rw [htrails.kinds]
  exact kindAt_ne_dir_of_wrote hplain hw hafter

/-- What is written under a name in a directory stands there. -/
theorem wrote_target (hd : d.Plain) (h : Leads d above) (hn : Ordinary n ∨ n = ['.', '.'])
    {goal : Place} (hgoal : d.target? (above.child n) = .ok goal) (bytes : ByteArray) :
    goal = above.place ++ [n] ∧ Wrote goal bytes d (d.fill goal bytes) := by
  obtain ⟨hchild, hplace⟩ := Disk.target?_child_ok hd h hn hgoal
  have hok : d.write (above.child n) bytes = .ok (d.fill goal bytes) :=
    Disk.write_ok_iff.2 ⟨goal, hgoal, rfl⟩
  have hw := Disk.wrote_write hd (Path.isAbsolute_child h.isAbsolute n) hok
  rw [hchild, ← hplace] at hw
  exact ⟨hplace, hw⟩

theorem lasting_writeText {t : Text} (hleads : ∀ d, Ready output d → P d → Leads d above)
    (hn : Ordinary n ∨ n = ['.', '.'])
    (hplace : ∀ d, Ready output d → P d → d.root.kindAt (above.place ++ [n]) ≠ some .dir →
      free (above.place ++ [n])) :
    Lasting output free last P (.ofWhole (·.writeText (above.child n) t)) := by
  have hwrite : ∀ d : Disk, d.writeText (above.child n) t =
      (d.target? (above.child n)).map (d.fill · t.toBytes) := fun d => Disk.write_eq_map d _ _
  refine Lasting.ofWhole hplace (fun d d' hd hP hok => ?_) ?_
  · obtain ⟨goal, htarget, rfl⟩ := Disk.write_ok_iff.1 hok
    obtain ⟨rfl, hw⟩ := wrote_target hd.plain (hleads d hd hP) hn htarget t.toBytes
    exact ⟨_, hw⟩
  · intro d e hd hP htrails hlast hafter
    have habove := hleads d hd hP
    have hagain := htrails.target? hlast hd.plain habove hn fun goal hgoal =>
      ⟨_, _, (wrote_target hd.plain habove hn hgoal t.toBytes).2, hafter _ (by rw [hwrite, hgoal]; rfl)⟩
    rw [hwrite, hwrite, hagain]
    cases htarget : d.target? (above.child n) with
    | error f => exact Or.inl ⟨f, rfl, rfl⟩
    | ok goal =>
        obtain ⟨rfl, hw⟩ := wrote_target hd.plain habove hn htarget t.toBytes
        have hw' := wrote_target htrails.plain (htrails.leads hlast habove) hn
          (hagain.trans htarget) t.toBytes
        exact Or.inr ⟨_, _, _, rfl, rfl, hw, hw'.2⟩

theorem lasting_copy {source : Path} (hsource : Straight source) (hfixed : Fixed free source.place)
    (hn : IsName n) (hplace : free (above.place ++ [n])) :
    Lasting output free last (Leads · above) (.ofWhole (·.copy source (above.child n))) := by
  have hwrote : ∀ {d d' : Disk}, d.Plain → Leads d above → d.copy source (above.child n) = .ok d' →
      ∃ bytes, d.root.bytesAt source.place = some bytes ∧
        Wrote (above.place ++ [n]) bytes d d' := by
    intro d d' hplain habove hok
    obtain ⟨bytes, hbytes, hw⟩ := Disk.wrote_copy hplain hsource.isAbsolute
      (Path.isAbsolute_child habove.isAbsolute n) hok
    rw [Path.place_child habove.isAbsolute hn.toOrdinary] at hw
    have hne : source.place ≠ above.place ++ [n] := by
      intro heq
      exact hfixed _ (List.prefix_refl _) (heq ▸ hplace)
    rw [if_neg hne] at hw
    exact ⟨bytes, hbytes, hw⟩
  refine Lasting.ofWhole (fun _ _ _ _ => hplace) (fun d d' hd habove hok => ?_) ?_
  · obtain ⟨bytes, _, hw⟩ := hwrote hd.plain habove hok
    exact ⟨bytes, hw⟩
  · intro d e hd habove htrails hlast hafter
    have halike := htrails.alike hlast hd.plain hfixed
    have hn' : Ordinary n ∨ n = ['.', '.'] := Or.inl hn.toOrdinary
    have htarget : (∀ goal, d.target? (above.child n) = .ok goal →
        ∃ d', d.copy source (above.child n) = .ok d') →
        e.target? (above.child n) = d.target? (above.child n) := by
      intro hthere
      refine htrails.target? hlast hd.plain habove hn' fun goal hgoal => ?_
      obtain ⟨d', hok⟩ := hthere goal hgoal
      obtain ⟨bytes, _, hw⟩ := hwrote hd.plain habove hok
      rw [(Disk.target?_child_ok hd.plain habove hn' hgoal).2]
      exact ⟨d', bytes, hw, hafter d' hok⟩
    rcases halike.copy hsource htarget with ⟨f, hfirst, hsecond⟩ | ⟨d', e', hfirst, hsecond⟩
    · exact Or.inl ⟨f, hfirst, hsecond⟩
    · obtain ⟨bytes, hbytes, hw⟩ := hwrote hd.plain habove hfirst
      obtain ⟨bytes', hbytes', hw'⟩ := hwrote htrails.plain (htrails.leads hlast habove) hsecond
      have hsame := htrails.bytesAt_eq hlast (hfixed _ (List.prefix_refl _))
      rw [hbytes, hbytes'] at hsame
      obtain rfl := Option.some.inj hsame
      exact Or.inr ⟨d', e', bytes', hfirst, hsecond, hw, hw'⟩

/-- A file that is copied into the output, with the directories above it. -/
theorem lasting_copyInto {source : Path} (hout : output.isAbsolute) (hsource : Straight source)
    (hfixed : Fixed free source.place) (hnames : ∀ m ∈ names, IsName m) (hn : IsName n)
    (hfree : ∀ pre, pre ≠ [] → pre <+: names ++ [n] → free (output.place ++ pre)) :
    Lasting output free last P (Disk.copyInto source ((below output names).child n)) := by
  unfold Disk.copyInto
  rw [makeParents_child (isAbsolute_below hout names) hn.noSlash hn.toOrdinary.not_isIdle]
  have hordinary : ∀ m ∈ names, Ordinary m := fun m hm => (hnames m hm).toOrdinary
  have hdirs : Lasting output free last P (Disk.makeDirs (below output names).trimmed) :=
    lasting_makeDirs_below hnames fun pre hne hpre => hfree pre hne (hpre.trans (by simp))
  refine hdirs.andThen (lasting_copy hsource hfixed hn ?_) fun d hd _ hok => ?_
  · rw [place_below hout hordinary, List.append_assoc]
    exact hfree _ (by simp) (List.prefix_refl _)
  · exact leads_of_makeDirs_below hd hnames hok

end Quire.Build
