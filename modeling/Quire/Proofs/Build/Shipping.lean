import Quire.Proofs.Build.Accounting
import Quire.Proofs.Build.Disregarding
import Quire.Proofs.Build.Touring

/-!
What is copied of a directory. Each file of it that is not within the output is tried once, in the
order of the names; the copies that succeed are counted, and they are all that is written.
-/

namespace Quire.Build

open Disk (Place Plain Write Overlaid IsName Leads Node)
open Quire.Path (Ordinary Straight)

variable {d e e' e'' : Disk} {w : Work} {source output dir : Path} {n : Text} {x : List Text}
  {count count' count'' : Nat} {met : List (List Text × Met)}

/-- A file that is to be copied with its directory: it is not within the output, it is no notes of a
file browser, and its own directory does not have too long a path to be listed. -/
structure Static (d : Disk) (output dir : Path) (x : List Text) : Prop where
  file : d.root.kindAt (dir.place ++ x) = some .file
  outside : ¬ output.place <+: dir.place ++ x
  noted : x.getLast? ≠ some ".DS_Store".toList
  listable : (below dir x.dropLast).text.byteSize ≤ Disk.maxPath

/-- A file of a directory that was to be copied under a name, and why it could not be, if so. -/
structure Copied where
  dir : Path
  name : Text
  file : List Text
  fault : Option Disk.Fault

namespace Copied

/-- Where the file is. -/
def origin (c : Copied) : Path := below c.dir c.file

/-- Where its copy is to be. -/
def goal (output : Path) (c : Copied) : Path := below (output.child c.name) c.file

/-- How trying to copy it ended. -/
def answer (c : Copied) : Except Disk.Fault Unit := c.fault.elim (.ok ()) .error

/-- What was written, if it could be copied. -/
def write? (d : Disk) (output : Path) (c : Copied) : Option Write :=
  if c.fault.isNone then (d.root.bytesAt c.origin.place).map (⟨(c.goal output).place, ·⟩) else none

end Copied

theorem Copied.write?_eq_some_iff {c : Copied} {write : Write} : c.write? d output = some write ↔
    c.fault = none ∧ ∃ bytes, d.root.bytesAt c.origin.place = some bytes ∧
      ⟨(c.goal output).place, bytes⟩ = write := by
  unfold Copied.write?
  cases c.fault <;> simp

/-- What came of some files, beginning with the disk `d`: those that could be copied are counted,
and nothing else was written. Each was tried on a disk that differs in the output only. -/
structure Shipped (d : Disk) (output : Path) (copies : List Copied) (count count' : Nat)
    (e e' : Disk) : Prop where
  counted : count' = count + copies.countP (·.fault.isNone)
  overlaid : Overlaid (copies.filterMap (·.write? d output)) e e'
  reworked : Reworked (Inside output.place) e e'
  tried : ∀ c ∈ copies, ∃ a, Reworked (Inside output.place) d a ∧
    (Disk.copyInto c.origin (c.goal output) a).1 = c.answer

theorem Shipped.nil (he : e.Plain) : Shipped d output [] count count e e where
  counted := rfl
  overlaid := Overlaid.refl e
  reworked := Reworked.refl he
  tried := by simp

theorem Shipped.trans {a b : List Copied} (h : Shipped d output a count count' e e')
    (h' : Shipped d output b count' count'' e' e'') :
    Shipped d output (a ++ b) count count'' e e'' where
  counted := by rw [h'.counted, h.counted, List.countP_append, Nat.add_assoc]
  overlaid := by
    rw [List.filterMap_append]
    exact h.overlaid.trans h'.overlaid
  reworked := h.reworked.trans h'.reworked
  tried c hc := (List.mem_append.1 hc).elim (h.tried c) (h'.tried c)

/-- The place of a copy is told by the name and the file. -/
theorem place_below_child (hout : output.isAbsolute) (hn : Ordinary n) (hnames : ∀ m ∈ x, IsName m) :
    (below (output.child n) x).place = output.place ++ n :: x := by
  rw [place_below (Path.isAbsolute_child hout n) (ordinary_of_isName hnames),
    Path.place_child hout hn, List.append_assoc, List.singleton_append]

/-- A file outside of the output is copied with the bytes that it had at the beginning. -/
theorem shipped_copyFile (hout : Straight output) (hdir : Straight dir) (hn : IsName n)
    (hnames : ∀ m ∈ x, IsName m) (hplace : ¬ output.place <+: (below dir x).place)
    (hkept : ¬ isIgnored (below dir x)) (hd : Reworked (Inside output.place) d w.disk)
    (hready : Ready output w.disk) (count : Nat) :
    ∃ fault count' after,
      (copyFile dir (output.child n) count x .file).result w = (.ok count', after) ∧
      Shipped d output [⟨dir, n, x, fault⟩] count count' w.disk after.disk := by
  have hsteady : Steady output (Inside output.place) w.disk (fun _ => True)
      (copyFile dir (output.child n) count x .file) :=
    steady_copyFile hout hdir hn count .file hnames hplace
  have hgrows := hsteady.grows w hready trivial
  have hdst := Path.isAbsolute_child hout.isAbsolute n
  have hgoal := place_below_child hout.isAbsolute hn.toOrdinary hnames
  have hne : (below dir x).place ≠ (below (output.child n) x).place := by
    intro heq
    rw [hgoal] at heq
    exact hplace (heq ▸ List.prefix_append _ _)
  have hinside : ¬ Inside output.place (below dir x).place := fun ⟨m, rest, hrest⟩ =>
    hplace ⟨m :: rest, hrest.symm⟩
  have hbytes := Node.bytesAt_congr (hd.frame _ hinside)
  rcases hcopy : Disk.copyInto (below dir x) (below (output.child n) x) w.disk with ⟨answer, last⟩
  have hanswer : (Disk.copyInto (below dir x) (below (output.child n) x) w.disk).1 = answer := by
    rw [hcopy]
  unfold copyFile at hgrows ⊢
  simp only [if_neg hkept, Job.result_bind, Job.result_attempt, Job.result_change,
    hcopy] at hgrows ⊢
  rcases overlaid_copyInto hready.plain (isAbsolute_below hdir.isAbsolute x)
      (isAbsolute_below hdst x) hne hcopy with ⟨bytes, rfl, hread, hover⟩ | ⟨⟨fault, rfl⟩, hover⟩
  · refine ⟨none, _, _, rfl, rfl, ?_, hgrows, ?_⟩
    · have hwrite : Copied.write? d output ⟨dir, n, x, none⟩ =
          some ⟨(below (output.child n) x).place, bytes⟩ := by
        rw [hbytes] at hread
        simp [Copied.write?, Copied.origin, Copied.goal, hread]
      rw [List.filterMap_cons, hwrite]
      exact hover
    · exact List.forall_mem_singleton.2 ⟨w.disk, hd, hanswer⟩
  · refine ⟨some fault, _, _, rfl, rfl, hover, hgrows, ?_⟩
    exact List.forall_mem_singleton.2 ⟨w.disk, hd, hanswer⟩

/-- The file that something met is, unless it is left alone. -/
def taken? (dir : Path) : List Text × Met → Option (List Text)
  | (x, .file) => if isIgnored (below dir x) then none else some x
  | (_, .unlisted _) => none

theorem taken?_eq_some_iff {m : List Text × Met} :
    taken? dir m = some x ↔ m = (x, .file) ∧ ¬ isIgnored (below dir x) := by
  obtain ⟨y, m⟩ := m
  cases m with
  | unlisted fault => simp [taken?]
  | file =>
      by_cases hignored : isIgnored (below dir y)
      · simp only [taken?, if_pos hignored, reduceCtorEq, Prod.mk.injEq, and_true, false_iff,
          not_and, not_not]
        rintro rfl
        exact hignored
      · simp only [taken?, if_neg hignored, Option.some.injEq, Prod.mk.injEq, and_true]
        refine ⟨fun heq => ⟨heq, heq ▸ hignored⟩, fun h => h.1⟩

theorem mem_filterMap_taken?_iff :
    x ∈ met.filterMap (taken? dir) ↔ (x, .file) ∈ met ∧ ¬ isIgnored (below dir x) := by
  rw [List.mem_filterMap]
  constructor
  · rintro ⟨m, hm, htaken⟩
    obtain ⟨rfl, hkept⟩ := taken?_eq_some_iff.1 htaken
    exact ⟨hm, hkept⟩
  · rintro ⟨hm, hkept⟩
    exact ⟨_, hm, taken?_eq_some_iff.2 ⟨rfl, hkept⟩⟩

/-- The files that are copied are in the order in which they were met. -/
theorem pairwise_filterMap_taken? (dir : Path) (h : met.Pairwise fun a b => a.1 < b.1) :
    (met.filterMap (taken? dir)).Pairwise (· < ·) := by
  refine List.Pairwise.filterMap _ (fun a b hlt y hy z hz => ?_) h
  obtain ⟨rfl, -⟩ := taken?_eq_some_iff.1 hy
  obtain ⟨rfl, -⟩ := taken?_eq_some_iff.1 hz
  exact hlt

/-- Whatever is met is copied, left alone, or a directory that cannot be listed. -/
theorem exists_shipped_meet (hout : Straight output) (hdir : Straight dir) (hn : IsName n)
    (m : List Text × Met) (hnames : ∀ k ∈ m.1, IsName k)
    (hplace : m.2 = .file → ¬ output.place <+: (below dir m.1).place)
    (hd : Reworked (Inside output.place) d w.disk) (hready : Ready output w.disk) (count : Nat) :
    ∃ copies count' after,
      ((copyVisit output dir (output.child n)).meet count m.1 m.2).result w = (.ok count', after) ∧
      Shipped d output copies count count' w.disk after.disk ∧
      (∀ c ∈ copies, c.dir = dir ∧ c.name = n) ∧ copies.map (·.file) = (taken? dir m).toList := by
  obtain ⟨x, m⟩ := m
  cases m with
  | unlisted fault => exact ⟨[], count, _, rfl, Shipped.nil hready.plain, by simp, rfl⟩
  | file =>
      by_cases hignored : isIgnored (below dir x)
      · refine ⟨[], count, w, ?_, Shipped.nil hready.plain, by simp, by simp [taken?, hignored]⟩
        simp only [copyVisit, copyFile, if_pos hignored, Job.result_pure]
      · obtain ⟨fault, count', after, hresult, hshipped⟩ :=
          shipped_copyFile hout hdir hn hnames (hplace rfl) hignored hd hready count
        exact ⟨_, count', after, hresult, hshipped, by simp, by simp [taken?, hignored]⟩

theorem exists_shipped_meetAll (hout : Straight output) (hdir : Straight dir) (hn : IsName n)
    (hmet : ∀ m ∈ met, (∀ k ∈ m.1, IsName k) ∧
      (m.2 = .file → ¬ output.place <+: (below dir m.1).place))
    (hd : Reworked (Inside output.place) d w.disk) (hready : Ready output w.disk) (count : Nat) :
    ∃ copies count' after,
      (meetAll (copyVisit output dir (output.child n)) count met).result w = (.ok count', after) ∧
      Shipped d output copies count count' w.disk after.disk ∧
      (∀ c ∈ copies, c.dir = dir ∧ c.name = n) ∧
      copies.map (·.file) = met.filterMap (taken? dir) := by
  induction met generalizing w count with
  | nil => exact ⟨[], count, w, rfl, Shipped.nil hready.plain, by simp, rfl⟩
  | cons m met ih =>
      obtain ⟨hnames, hplace⟩ := hmet m List.mem_cons_self
      obtain ⟨first, mid, between, hmeet, hfirst, hhere, hfile⟩ :=
        exists_shipped_meet hout hdir hn m hnames hplace hd hready count
      obtain ⟨rest, last, after, hmeets, hrest, hhere', hfiles⟩ :=
        ih (fun m' hm' => hmet m' (List.mem_cons_of_mem m hm')) (hd.trans hfirst.reworked)
          (hready.mono hfirst.reworked) mid
      refine ⟨first ++ rest, last, after, ?_, hfirst.trans hrest, ?_, ?_⟩
      · rw [← List.singleton_append, result_meetAll_append, result_meetAll_singleton, hmeet]
        exact hmeets
      · exact List.forall_mem_append.2 ⟨hhere, hhere'⟩
      · rw [List.map_append, hfile, hfiles]
        cases htaken : taken? dir m <;> simp [htaken]

theorem isIgnored_below (hnames : ∀ m ∈ x, IsName m) (hne : x ≠ []) :
    isIgnored (below dir x) ↔ x.getLast? = some ".DS_Store".toList := by
  obtain ⟨front, m, rfl⟩ := (List.eq_nil_or_concat' x).resolve_left hne
  have hm : Ordinary m := (hnames m (by simp)).toOrdinary
  rw [isIgnored, below_concat, Path.fileName?_child _ hm, Option.getD_some, decide_eq_true_iff,
    List.getLast?_concat, Option.some.injEq]

/-- The visit to a directory that is copied is never stopped. -/
theorem unhindered_copyVisit (hout : Straight output) (hdir : Straight dir) (hn : IsName n)
    (hready : Ready output d) (hleads : Leads d dir) :
    Unhindered (copyVisit output dir (output.child n)) d (Inside output.place) where
  plain := hready.plain
  leads := hleads
  avoids y _ hnames hfree := by
    by_contra hskip
    refine not_inside_of_not_isWithin hout.isAbsolute (isAbsolute_below hdir.isAbsolute y) hskip ?_
    rw [place_below hdir.isAbsolute (ordinary_of_isName hnames)]
    exact hfree
  skips_append y z _ hnames hskip :=
    isWithin_below_append hout.isAbsolute hdir.isAbsolute hnames hskip
  meets count y m w hw hnames _ := by
    have hdst := Path.isAbsolute_child hout.isAbsolute n
    have hinside : ∀ q, (output.child n).place <+: q → Inside output.place q := by
      rintro _ ⟨rest, rfl⟩
      rw [Path.place_child hout.isAbsolute hn.toOrdinary, List.append_assoc]
      exact inside_append (by simp)
    show ∃ t after, (copyFile dir (output.child n) count y m).result w = (.ok t, after) ∧
      Confined (Inside output.place) w.disk after.disk
    have hkeeps : Confined (Inside output.place) w.disk
        ((copyFile dir (output.child n) count y m).result w).2.disk :=
      keeps_copyFile hdir.isAbsolute hdst hinside count m hnames w.disk w (Confined.refl hw)
    obtain ⟨count', hanswer⟩ := exists_answer_copyFile dir (output.child n) count y m w
    rcases hresult : (copyFile dir (output.child n) count y m).result w with ⟨answer, after⟩
    rw [hresult] at hkeeps hanswer
    simp only at hanswer
    exact ⟨count', after, by rw [hanswer], hkeeps⟩

/-- What the visit to a directory is to meet and does not leave alone are the files that are to be
copied, as they were at the beginning. -/
theorem due_iff_static (hout : Straight output) (hdir : Straight dir)
    (hd : Reworked (Inside output.place) d e) (hleads : Leads e dir) (dst : Path) :
    Due (copyVisit output dir dst) e x ∧ ¬ isIgnored (below dir x) ↔ Static d output dir x := by
  have hskips : ∀ {x : List Text}, (∀ m ∈ x, IsName m) →
      ((copyVisit output dir dst).skips (below dir x) ↔ output.place <+: dir.place ++ x) := by
    intro x hnames
    have hordinary := ordinary_of_isName hnames
    rw [← place_below hdir.isAbsolute hordinary]
    exact (hdir.foldl_child hordinary).isWithin_iff hout
  have hinside : ∀ {q : Place}, ¬ output.place <+: q → e.root.kindAt q = d.root.kindAt q :=
    fun hq => Node.kindAt_congr (hd.frame _ fun ⟨m, rest, hrest⟩ => hq ⟨m :: rest, hrest.symm⟩)
  constructor
  · rintro ⟨hdue, hkept⟩
    have hnames : ∀ m ∈ x, IsName m := isName_of_kindAt hd.plain (by rw [hdue.file]; rfl)
    have hskip := hdue.skips
    rw [show (copyVisit output dir dst).root = dir from rfl, hskips hnames] at hskip
    refine ⟨?_, hskip, ?_, Nat.not_lt.1 hdue.short⟩
    · rw [← hinside hskip]
      exact hdue.file
    · rwa [isIgnored_below hnames hdue.ne_nil] at hkept
  · rintro ⟨hfile, houtside, hnoted, hlistable⟩
    rw [← hinside houtside] at hfile
    have hnames : ∀ m ∈ x, IsName m := isName_of_kindAt hd.plain (by rw [hfile]; rfl)
    have hne : x ≠ [] := by
      rintro rfl
      rw [List.append_nil, hleads.dir] at hfile
      cases hfile
    refine ⟨⟨hne, hfile, ?_, Nat.not_lt.2 hlistable⟩, ?_⟩
    · rw [show (copyVisit output dir dst).root = dir from rfl, hskips hnames]
      exact houtside
    · rwa [isIgnored_below hnames hne]

/-- The files of a directory that were to be copied under a name: all of them, once each and in the
order of their names. -/
structure Load (d : Disk) (output dir : Path) (n : Text) (copies : List Copied) : Prop where
  of : ∀ c ∈ copies, c.dir = dir ∧ c.name = n
  ordered : copies.Pairwise fun a b => a.file < b.file
  complete : ∀ x, (∃ c ∈ copies, c.file = x) ↔ Static d output dir x

/-- A directory is copied with all its files. -/
theorem exists_load_copyDir (hout : Straight output) (hdir : Straight dir) (hn : IsName n)
    (hd : Reworked (Inside output.place) d w.disk) (hready : Ready output w.disk)
    (hthere : w.disk.isDir dir) (count : Nat) :
    ∃ copies count' after,
      (copyDir output dir (output.child n) count).result w = (.ok count', after) ∧
      Shipped d output copies count count' w.disk after.disk ∧ Load d output dir n copies := by
  by_cases hwithin : output.isWithin dir
  · refine ⟨[], count, w, ?_, Shipped.nil hready.plain, by simp, List.Pairwise.nil, fun x => ?_⟩
    · rw [copyDir, if_pos hwithin, Job.result_pure]
    · have hpre := (hdir.isWithin_iff hout).1 hwithin
      constructor
      · rintro ⟨c, hc, -⟩
        cases hc
      · exact fun h => absurd (hpre.trans (List.prefix_append _ x)) h.outside
  · have hleads := Disk.leads_of_isDir hready.plain hdir.isAbsolute hthere
    have hunhindered := unhindered_copyVisit hout hdir hn hready hleads
    obtain ⟨met, hmet, htour⟩ := exists_tour_run hunhindered count rfl
    have hdue : ∀ y, (y, Met.file) ∈ met ↔ Due (copyVisit output dir (output.child n)) w.disk y :=
      fun y => by rw [htour.file, true_and]
    have hmeetable : ∀ m ∈ met, (∀ k ∈ m.1, IsName k) ∧
        (m.2 = .file → ¬ output.place <+: (below dir m.1).place) := by
      rintro ⟨y, m⟩ hm
      have hnames := (htour.inside _ hm).2
      refine ⟨hnames, ?_⟩
      rintro rfl hpre
      have hstraight := hdir.foldl_child (ordinary_of_isName hnames)
      exact ((hdue y).1 hm).skips ((hstraight.isWithin_iff hout).2 hpre)
    obtain ⟨copies, count', after, hmeets, hshipped, hof, hfiles⟩ :=
      exists_shipped_meetAll hout hdir hn hmeetable hd hready count
    refine ⟨copies, count', after, ?_, hshipped, hof, ?_, fun x => ?_⟩
    · rw [copyDir, if_neg hwithin]
      exact hmet.trans hmeets
    · have hordered := pairwise_filterMap_taken? dir htour.ordered
      rw [← hfiles] at hordered
      exact List.pairwise_map.1 hordered
    · rw [← due_iff_static hout hdir hd hleads (output.child n), ← hdue, ← List.mem_map, hfiles,
        mem_filterMap_taken?_iff]

end Quire.Build
