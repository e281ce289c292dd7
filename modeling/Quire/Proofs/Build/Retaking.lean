import Mathlib.Data.List.Find
import Quire.Proofs.Build.Steady
import Quire.Proofs.Path.Trailing

/-!
Taking a source tree a second time. Templates and assets are read outside of the output and written
inside of it, and so are the directories that are copied; so everything comes out as before.
-/

namespace Quire.Build

open Disk (Place Plain Node IsName Leads)
open Quire.Path (Ordinary Straight)

variable {d e last : Disk} {free : Place → Prop} {place : Place} {output source : Path} {n : Text}
  {names : List Text} {P : Disk → Prop}

theorem steady_put (y : Yield) (src : Path) (f : Failure) :
    Steady output free last P (y.put src f) :=
  (Steady.say _ _).next fun _ => Steady.pure _

theorem Trails.outcome (htrails : Trails last d e) (hlast : Reworked free d last) (hd : d.Plain)
    (pass : Pass) {src : Path} (hsrc : Straight src) (hfixed : Fixed free src.place) :
    pass.outcome e src = pass.outcome d src := by
  unfold Pass.outcome
  rw [(htrails.alike hlast hd hfixed).readText hsrc
    (htrails.bytesAt_eq hlast (hfixed _ (List.prefix_refl _)))]

theorem steady_transpile (pass : Pass) {src above : Path} (hsrc : Straight src)
    (hfixed : Fixed free src.place)
    (hparents : Lasting output free last P (Disk.makeParents (above.child n)))
    (hleads : ∀ d, Ready output d → P d → (Disk.makeParents (above.child n) d).1 = .ok () →
      Leads (Disk.makeParents (above.child n) d).2 above)
    (hn : Ordinary n ∨ n = ['.', '.'])
    (hplace : ∀ d, Ready output d → P d → d.root.kindAt (above.place ++ [n]) ≠ some .dir →
      free (above.place ++ [n])) :
    Steady output free last P (pass.transpile src (above.child n)) := by
  unfold Pass.transpile
  refine Steady.look (fun d e hd _ htrails hlast => ?_) fun d hd hP => Steady.lift fun outcome _ => ?_
  · rw [id_eq, id_eq, htrails.outcome hlast hd.plain pass hsrc hfixed]
  · cases outcome with
    | clientOnly => exact Steady.pure _
    | module code references =>
        -- where a directory is, there is one still after others have been made
        refine Steady.bind (Q := fun _ d => Leads d above ∧
          (d.root.kindAt (above.place ++ [n]) ≠ some .dir → free (above.place ++ [n])))
          ?_ (fun _ => ?_) fun w _ _ heq hok => ?_
        · refine (Steady.change hparents _).weaken ?_
          rintro _ _ rfl
          exact hP
        · exact (Steady.change (lasting_writeText (fun _ _ h => h.1) hn fun _ _ h => h.2) _).next
            fun _ => Steady.pure _
        · subst heq
          rw [Job.result_change]
          refine ⟨hleads _ hd hP (Job.ok_of_change hok), fun hafter => hplace _ hd hP fun hdir => ?_⟩
          exact hafter ((hparents.grows _ hd hP).kinds _ _ hdir)

theorem steady_takeTemplate (pass : Pass) (y : Yield)
    (h : ∀ dst, pass.outputPath (relativePath names) output = .ok dst →
      Steady output free last P (pass.transpile (below pass.root names) dst)) :
    Steady output free last P (pass.takeTemplate output y names) := by
  unfold Pass.takeTemplate
  refine Steady.lift fun dst hdst => (Steady.attempt (h dst hdst)).next fun answer => ?_
  cases answer with
  | error f => exact steady_put y _ f
  | ok outcome =>
      cases outcome with
      | module _ _ => exact (Steady.detail _ _).next fun _ => Steady.pure _
      | clientOnly => exact (Steady.detail _ _).next fun _ => Steady.pure _

/-- The module of a template stands in the output, where it was written before. -/
theorem steady_transpile_below (pass : Pass) (hout : Straight output) (hroot : Straight pass.root)
    (hnames : ∀ n ∈ names, IsName n) (hne : names ≠ [])
    (hplace : ¬ output.place <+: (below pass.root names).place) {dst : Path}
    (hdst : pass.outputPath (relativePath names) output = .ok dst) :
    Steady output (Inside output.place) last P (pass.transpile (below pass.root names) dst) := by
  have hsrc : Straight (below pass.root names) :=
    hroot.foldl_child fun n hn => (hnames n hn).toOrdinary
  obtain ⟨dir, n, rfl⟩ := (List.eq_nil_or_concat' names).resolve_left hne
  have hdir : ∀ m ∈ dir, IsName m := fun m hm => hnames m (List.mem_append_left [n] hm)
  have hordinary : ∀ m ∈ dir, Ordinary m := fun m hm => (hdir m hm).toOrdinary
  have hn : Ordinary n := (hnames n (by simp)).toOrdinary
  have habove := isAbsolute_below hout.isAbsolute dir
  obtain ⟨hslash, rfl⟩ := outputPath_relativePath pass hordinary hn hdst
  have hparents := makeParents_child habove (Path.noSlash_renamed hn hslash)
    (Path.not_isIdle_renamed hn hslash)
  refine steady_transpile pass hsrc (fixed_of_not_isPrefix hplace) ?_ (fun d hd _ hok => ?_)
    (Path.renamed_cases hn hslash) fun _ _ _ _ => ?_
  · rw [hparents]
    exact lasting_makeDirs_below hdir fun _ hne _ => inside_append hne
  · rw [hparents] at hok ⊢
    exact leads_of_makeDirs_below hd hdir hok
  · rw [place_below hout.isAbsolute hordinary]
    exact inside_append_concat

theorem steady_takeAsset (pass : Pass) (hout : Straight output) (hroot : Straight pass.root)
    (y : Yield) (hnames : ∀ n ∈ names, IsName n) (hne : names ≠ [])
    (hplace : ¬ output.place <+: (below pass.root names).place) :
    Steady output (Inside output.place) last (fun _ => True) (pass.takeAsset output y names) := by
  have hsrc : Straight (below pass.root names) :=
    hroot.foldl_child fun n hn => (hnames n hn).toOrdinary
  obtain ⟨dir, n, rfl⟩ := (List.eq_nil_or_concat' names).resolve_left hne
  have hdir : ∀ m ∈ dir, IsName m := fun m hm => hnames m (List.mem_append_left [n] hm)
  have hn : IsName n := hnames n (by simp)
  unfold Pass.takeAsset
  refine (Steady.attempt (Steady.change ?_ _)).next fun answer => ?_
  · rw [join_relativePath hdir hn]
    exact lasting_copyInto hout.isAbsolute hsrc (fixed_of_not_isPrefix hplace) hdir hn
      fun _ hne _ => inside_append hne
  · cases answer with
    | error f => exact steady_put y _ f
    | ok _ => exact (Steady.detail _ _).next fun _ => Steady.pure _

/-- Whatever a build's visit meets is taken in the same way again. -/
theorem steady_take (pass : Pass) (hout : Straight output) (hroot : Straight pass.root)
    (y : Yield) (m : Met) (hnames : ∀ n ∈ names, IsName n) (hm : m = .file → names ≠ [])
    (hplace : ¬ output.place <+: (below pass.root names).place) :
    Steady output (Inside output.place) last (fun _ => True) (pass.take output y names m) := by
  cases m with
  | unlisted e => exact steady_put y _ _
  | file =>
      rw [Pass.take]
      split
      · exact Steady.pure y
      · split
        · exact steady_takeTemplate pass y fun _ =>
            steady_transpile_below pass hout hroot hnames (hm rfl) hplace
        · split
          · exact steady_takeAsset pass hout hroot y hnames (hm rfl) hplace
          · exact Steady.pure y

/-- The copy of a directory of one name stands below the output, under that name. -/
theorem below_child (output : Path) (n : Text) (names : List Text) :
    below (output.child n) names = below output (n :: names) := rfl

theorem steady_copyFile {dir : Path} (hout : Straight output) (hdir : Straight dir) (hn : IsName n)
    (count : Nat) (m : Met) (hnames : ∀ n ∈ names, IsName n)
    (hplace : ¬ output.place <+: (below dir names).place) :
    Steady output (Inside output.place) last (fun _ => True)
      (copyFile dir (output.child n) count names m) := by
  cases m with
  | unlisted e => exact (Steady.say _ _).next fun _ => Steady.pure _
  | file =>
      have hsrc : Straight (below dir names) :=
        hdir.foldl_child fun n hn => (hnames n hn).toOrdinary
      have hdest : ∀ m ∈ n :: names, IsName m := List.forall_mem_cons.2 ⟨hn, hnames⟩
      obtain ⟨front, k, hsplit⟩ := (List.eq_nil_or_concat' (n :: names)).resolve_left (by simp)
      rw [hsplit] at hdest
      rw [copyFile]
      split
      · exact Steady.pure count
      · refine (Steady.attempt (Steady.change ?_ _)).next fun answer => ?_
        · rw [below_child, hsplit, below_concat output]
          exact lasting_copyInto hout.isAbsolute hsrc (fixed_of_not_isPrefix hplace)
            (fun m hm => hdest m (List.mem_append_left [k] hm)) (hdest k (by simp))
            fun _ hne _ => inside_append hne
        · cases answer with
          | error f => exact (Steady.say _ _).next fun _ => Steady.pure _
          | ok _ => exact (Steady.detail _ _).next fun _ => Steady.pure _

/-- A directory to be copied is found beside the source root or in it, under a name for a file. -/
theorem straight_of_locate {dir : Path} (hd : d.Plain) (hsource : Straight source) (hn : Ordinary n)
    (h : locate d source n = some dir) :
    Straight dir ∧ IsName n ∧ d.root.kindAt dir.place = some .dir := by
  obtain ⟨above, habove, rfl⟩ : ∃ above, Straight above ∧ dir = above.child n := by
    unfold locate at h
    rcases List.mem_append.1 (List.mem_of_find?_eq_some h) with hmem | hmem
    · obtain ⟨above, habove, rfl⟩ := Option.map_eq_some_iff.1 (Option.mem_toList.1 hmem)
      exact ⟨above, (hsource.parent? habove).1, rfl⟩
    · exact ⟨source, hsource, List.mem_singleton.1 hmem⟩
  have hdir := habove.child hn
  have hkind := Disk.kindAt_of_isDir hd hdir.isAbsolute (located hsource.isAbsolute h).2
  obtain ⟨children, hget⟩ := Node.kindAt_dir_iff.1 hkind
  refine ⟨hdir, (Node.isPlain_get? hd.tree hget).2 n ?_, hkind⟩
  rw [Path.place_child habove.isAbsolute hn]
  simp

/-- Where a directory to be copied is found is told by what is outside of the output. -/
theorem locate_congr (hsource : Straight source) (hplace : ¬ output.place <+: source.place)
    (hn : Ordinary n)
    (h : ∀ dir, Straight dir → Fixed (Inside output.place) dir.place → e.isDir dir = d.isDir dir) :
    locate e source n = locate d source n := by
  have hsame : ∀ above, Straight above → ¬ output.place <+: above.place →
      e.isDir (above.child n) = d.isDir (above.child n) := by
    intro above habove hoff
    refine h _ (habove.child hn) ?_
    rw [Path.place_child habove.isAbsolute hn]
    exact fixed_child hoff n
  unfold Build.locate
  refine List.find?_congr fun dir hmem => ?_
  rcases List.mem_append.1 hmem with hmem | hmem
  · obtain ⟨above, habove, rfl⟩ := Option.map_eq_some_iff.1 (Option.mem_toList.1 hmem)
    obtain ⟨hstraight, hdrop⟩ := hsource.parent? habove
    refine hsame above hstraight fun hpre => hplace ?_
    rw [hdrop] at hpre
    exact hpre.trans (List.dropLast_prefix _)
  · rw [List.mem_singleton.1 hmem]
    exact hsame source hsource hplace

theorem Trails.locate (htrails : Trails last d e)
    (hlast : Reworked (Inside output.place) d last) (hd : d.Plain) (hsource : Straight source)
    (hplace : ¬ output.place <+: source.place) (hn : Ordinary n) :
    locate e source n = locate d source n :=
  locate_congr hsource hplace hn fun _ hdir hfixed => (htrails.alike hlast hd hfixed).isDir hdir

/-- Directories are copied from beside the output, and found in the same places again. -/
theorem steady_copyVerbatim (hout : Straight output) (hsource : Straight source)
    (hplace : ¬ output.place <+: source.place) {copyDirs : List Text}
    (hcopy : ∀ n ∈ copyDirs, Ordinary n) :
    Steady output (Inside output.place) last (fun _ => True)
      (copyVerbatim source output copyDirs) := by
  refine Steady.foldlM copyDirs (fun count n hn => ?_) 0
  refine Steady.look (fun d e hd _ htrails hlast => ?_) fun d hd _ => ?_
  · rw [htrails.locate hlast hd.plain hsource hplace (hcopy n hn)]
  · cases hlocate : locate d source n with
    | none => exact Steady.pure count
    | some dir =>
        obtain ⟨hdir, hname, hkind⟩ := straight_of_locate hd.plain hsource (hcopy n hn) hlocate
        dsimp only
        unfold copyDir
        split
        · exact Steady.pure count
        · next hskip =>
            have hoff : ¬ output.place <+: dir.place := fun hpre =>
              hskip ((hdir.isWithin_iff hout).2 hpre)
            refine Steady.visit hout hdir rfl hoff ?_ (fun s names m hnames _ hplace => ?_) count
            · rintro _ rfl
              simp [hkind]
            · exact steady_copyFile hout hdir hname s m hnames hplace

/-- The source directory of a pass is visited again as it was visited before. -/
theorem steady_run (pass : Pass) (hout : Straight output) (hroot : Straight pass.root)
    (hplace : ¬ output.place <+: pass.root.place)
    (hnoFile : ∀ d, P d → d.root.kindAt pass.root.place ≠ some .file) :
    Steady output (Inside output.place) last P
      (Visit.run ⟨pass.root, output.isWithin, pass.take output⟩ {}) := by
  refine Steady.visit (v := ⟨pass.root, output.isWithin, pass.take output⟩) hout hroot rfl hplace
    hnoFile (fun s names m hnames hm hplace => ?_) {}
  exact steady_take pass hout hroot s m hnames hm hplace

/-- Where the module of a pass stands whose root is a template itself: beside the output. -/
def besideOutput (pass : Pass) (output : Path) (q : Place) : Prop :=
  ∃ dst, pass.outputPath (relativePath []) output = .ok dst ∧ q = dst.place ∧
    ¬ dst.place <+: pass.root.place

theorem steady_transpile_beside (pass : Pass) (hout : Straight output) (hroot : Straight pass.root)
    (hfixed : Fixed (fun q => Inside output.place q ∨ besideOutput pass output q) pass.root.place)
    (hext : pass.ext.module ≠ []) {dst : Path} (hself : dst.place ≠ pass.root.place)
    (hplace : ¬ output.place <+: pass.root.place)
    (hdst : pass.outputPath (relativePath []) output = .ok dst) :
    Steady output (fun q => Inside output.place q ∨ besideOutput pass output q) last
      (·.root.kindAt pass.root.place = some .file) (pass.transpile pass.root dst) := by
  have hne : output.place ≠ [] := by
    intro hnil
    rw [hnil] at hplace
    exact hplace List.nil_prefix
  have hslash : '/' ∉ pass.ext.module := by
    unfold Pass.outputPath withExtension at hdst
    split at hdst
    · next hok => simpa [Path.isExtension] using hok
    · cases hdst
  obtain ⟨above, n, k, hjoin, hn, habove, _, hpre, hsteps⟩ :=
    hout.withExtension_join_nil hne hslash hext
  have hbeside := hdst
  obtain rfl : dst = above.child n := by
    unfold Pass.outputPath withExtension at hdst
    rw [if_pos (by simp [Path.isExtension, hslash])] at hdst
    rw [← hjoin]
    exact (Except.ok.inj hdst).symm
  have hchild := Path.place_child habove.isAbsolute hn
  have hleads : ∀ d, Ready output d → Leads d above :=
    fun d hd => hd.leads.above habove.isAbsolute hpre hsteps
  have hparents := makeParents_child habove.isAbsolute hn.noSlash hn.not_isIdle
  refine steady_transpile pass hroot hfixed ?_ (fun d hd _ _ => ?_) (Or.inl hn)
    fun d _ hfile hfree => ?_
  · rw [hparents]
    exact lasting_makeDirs_there fun d hd _ => (hleads d hd).trimmed
  · rw [hparents, (hleads d hd).trimmed.makeDirs hd.plain]
    exact hleads d hd
  · refine Or.inr ⟨_, hbeside, hchild.symm, fun hpre => hfree ?_⟩
    -- the source is there, so above it are directories
    obtain ⟨rest, hrest⟩ := hpre
    cases rest with
    | nil =>
        rw [List.append_nil] at hrest
        exact absurd hrest hself
    | cons m rest =>
        rw [← hrest] at hfile
        rw [← hchild]
        exact Node.kindAt_of_append (Option.isSome_of_mem hfile)

theorem steady_run_of_file (pass : Pass) (hout : Straight output) (hroot : Straight pass.root)
    (hplace : ¬ output.place <+: pass.root.place) (hext : pass.ext.module ≠ [])
    (hself : ∀ dst, pass.root.extension? = some pass.ext.template →
      pass.outputPath (relativePath []) output = .ok dst → dst.place ≠ pass.root.place) :
    Steady output (fun q => Inside output.place q ∨ besideOutput pass output q) last
      (·.root.kindAt pass.root.place = some .file)
      (Visit.run ⟨pass.root, output.isWithin, pass.take output⟩ {}) := by
  have hfixed : Fixed (fun q => Inside output.place q ∨ besideOutput pass output q)
      pass.root.place := by
    rintro q hq (hinside | ⟨dst, _, rfl, hdst⟩)
    · exact fixed_of_not_isPrefix hplace q hq hinside
    · exact hdst hq
  refine Steady.run (v := ⟨pass.root, output.isWithin, pass.take output⟩) hroot hfixed {}
    (fun f => steady_put _ _ _) (fun d hd _ hfile => ?_) fun d _ hfile hdir => ?_
  · show Steady _ _ _ _ (pass.take output {} [] .file)
    rw [Pass.take]
    split
    · exact Steady.pure _
    · split
      · next htemplate =>
          refine steady_takeTemplate pass _ fun dst hdst => ?_
          refine (steady_transpile_beside pass hout hroot hfixed hext (hself dst htemplate hdst)
            hplace hdst).weaken ?_
          rintro _ _ rfl
          exact hfile
      · rw [if_neg (by decide)]
        exact Steady.pure _
  · rw [hfile] at hdir
    cases hdir

end Quire.Build
