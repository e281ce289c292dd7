import Quire.Proofs.Build.Running
import Quire.Proofs.Disk.Removing

/-!
Removing an output directory. What holds the working directory is not removed, unless it is the
working directory itself under an absolute path that takes other steps; and of what is outside of
the removed directory nothing changes.
-/

namespace Quire.Build

open Disk (Place Plain Node)

variable {w : Work} {path : Path}

/-- The working directory as a path is spelled by names of directories. -/
theorem ordinary_of_workingDir {cwd : Path} (hd : w.disk.Plain)
    (h : w.disk.workingDir = .ok cwd) :
    cwd = .ofNames w.disk.cwd ∧ ∀ n ∈ w.disk.cwd, Path.Ordinary n := by
  unfold Disk.workingDir at h
  split at h
  · next children hchildren =>
      have hget := Disk.childrenAt_ok_iff.1 hchildren
      exact ⟨(Except.ok.inj h).symm,
        fun n hn => ((Node.isPlain_get? hd.tree hget).2 n hn).toOrdinary⟩
  · cases h

/-- What a path means on the way to be removed leads to where it leads behind the working
directory. -/
theorem place_resolve_eq_place_join {cwd : Path} (hcwd : cwd.isAbsolute) (path : Path) :
    (cwd.resolve path).place = (cwd.join path).place := by
  by_cases habs : path.isAbsolute
  · rw [Path.resolve, Path.join, if_pos habs, if_pos habs]
  · rw [Path.place_resolve hcwd habs, Path.place_join hcwd habs]

/-- A path that leads to the working directory or above it is recognised, if it is relative or takes
the steps of the working directory. -/
theorem isWithin_workingDir {cwd : Path} (hcwd : cwd.isAbsolute)
    (hspelled : path.isAbsolute → path.place = cwd.place → path.sameSteps cwd)
    (hstraight : cwd = .ofNames cwd.place) (h : (cwd.join path).place <+: cwd.place) :
    (cwd.resolve path).isWithin cwd := by
  rw [← place_resolve_eq_place_join hcwd] at h
  by_cases heq : (cwd.resolve path).place = cwd.place
  · have hsame : cwd.sameSteps (cwd.resolve path) := by
      by_cases habs : path.isAbsolute
      · have hresolve : cwd.resolve path = path := if_pos habs
        rw [hresolve] at heq ⊢
        exact decide_eq_true (of_decide_eq_true (hspelled habs heq)).symm
      · rw [Path.place_resolve hcwd habs] at heq
        rw [Path.resolve_eq_ofNames hcwd habs, heq, ← hstraight]
        exact decide_eq_true rfl
    rw [Path.isWithin, hsame, Bool.true_or]
  · exact Path.isWithin_of_place_isPrefix (Path.isAbsolute_resolve hcwd path) hcwd h heq

theorem result_clean_of_error {f : Disk.Fault} (h : w.disk.workingDir = .error f) (path : Path) :
    (clean path).result w = (.error (.failure (.noWorkingDir f)), w) := by
  unfold clean
  rw [Job.result_bind, Job.result_look]
  simp only [h]
  rw [Job.result_bind, Job.result_orFail]

/-- What would take the working directory away is refused. -/
theorem result_clean_of_isWithin {cwd : Path} (hcwd : w.disk.workingDir = .ok cwd)
    (h : (cwd.resolve path).isWithin cwd) :
    (clean path).result w = (.error (.failure (.holdsWorkingDir (cwd.resolve path))), w) := by
  unfold clean
  rw [Job.result_bind, Job.result_look]
  simp only [hcwd]
  rw [Job.result_bind, Job.result_orFail]
  simp only [h, if_true]
  rw [Job.result_bind, Job.result_fail]

/-- What is not refused is removed if it is there. -/
theorem disk_clean {cwd : Path} (hcwd : w.disk.workingDir = .ok cwd)
    (h : ¬ (cwd.resolve path).isWithin cwd) :
    ((clean path).result w).2.disk =
      if w.disk.has (cwd.resolve path) then (Disk.removeAll (cwd.resolve path) w.disk).2
      else w.disk := by
  unfold clean
  rw [Job.result_bind, Job.result_look]
  simp only [hcwd]
  rw [Job.result_bind, Job.result_orFail]
  simp only [h, Bool.false_eq_true, if_false]
  rw [Job.result_bind, Job.result_look]
  by_cases hthere : w.disk.has (cwd.resolve path)
  · simp only [hthere, if_true]
    rw [Job.result_bind, Job.result_change]
    cases (Disk.removeAll (cwd.resolve path) w.disk).1 <;> rfl
  · simp only [hthere, Bool.false_eq_true, if_false]
    rfl

/-- Whatever comes of it, what is not below the path that is to be removed stays. -/
theorem seen_clean (hd : w.disk.Plain) {q : Place}
    (hq : ¬ ((Path.ofNames w.disk.cwd).join path).place <+: q) :
    ((clean path).result w).2.disk.root.seen q = w.disk.root.seen q := by
  cases hcwd : w.disk.workingDir with
  | error f => rw [result_clean_of_error hcwd]
  | ok cwd =>
      obtain ⟨rfl, -⟩ := ordinary_of_workingDir hd hcwd
      have habs : (Path.ofNames w.disk.cwd).isAbsolute := Path.isAbsolute_ofNames _
      rw [← place_resolve_eq_place_join habs] at hq
      by_cases h : ((Path.ofNames w.disk.cwd).resolve path).isWithin (.ofNames w.disk.cwd)
      · rw [result_clean_of_isWithin hcwd h]
      · rw [disk_clean hcwd h]
        split
        · exact Disk.seen_removeAll hd (Path.isAbsolute_resolve habs path) hq
        · rfl

/-- A path to the working directory or above it is refused and nothing changes, unless it is an
absolute path to the working directory that takes other steps; and whatever comes of it, what is not
below the path stays. -/
theorem spared_clean (hd : w.disk.Plain) (path : Path)
    (hspelled : path.isAbsolute → path.place = w.disk.cwd →
      path.sameSteps (.ofNames w.disk.cwd)) :
    (((Path.ofNames w.disk.cwd).join path).normalize.place <+: w.disk.cwd →
        ∃ f, (clean path).result w = (.error (.failure f), w)) ∧
      ∀ q, ¬ ((Path.ofNames w.disk.cwd).join path).normalize.place <+: q →
        ((clean path).result w).2.disk.root.seen q = w.disk.root.seen q := by
  have habs : (Path.ofNames w.disk.cwd).isAbsolute := Path.isAbsolute_ofNames _
  rw [Path.place_normalize (Path.isAbsolute_join habs path)]
  refine ⟨fun hplace => ?_, fun q hq => seen_clean hd hq⟩
  cases hcwd : w.disk.workingDir with
  | error f => exact ⟨_, result_clean_of_error hcwd path⟩
  | ok cwd =>
      obtain ⟨rfl, hnames⟩ := ordinary_of_workingDir hd hcwd
      have hcwdPlace : (Path.ofNames w.disk.cwd).place = w.disk.cwd := by
        rw [Path.place, Path.steps_ofNames hnames]
        exact (Path.placeFrom_names [] _).trans (List.nil_append _)
      refine ⟨_, result_clean_of_isWithin hcwd (isWithin_workingDir habs ?_ ?_ ?_)⟩
      · rwa [hcwdPlace]
      · rw [hcwdPlace]
      · rwa [hcwdPlace]

/-- A project with its output beside it, worked on from the project. -/
def workedProject : Work where
  disk :=
    { root := .dir [("p".toList, .dir [
        ("out".toList, .dir [("page.js".toList, .file "page".toUTF8)]),
        ("site".toList, .dir [("pages".toList, .dir [
          ("page.pw".toList, .file "<p>home</p>".toUTF8)])])])]
      cwd := ["p".toList, "site".toList] }

/-- An absolute path with a detour above the working directory, and a relative one to the output. -/
theorem spared_clean_above :
    Plain workedProject.disk ∧
      (∃ f, (clean ⟨"/p/out/..".toList⟩).result workedProject =
        (.error (.failure f), workedProject)) ∧
      (((clean ⟨"./../out/".toList⟩).result workedProject).1.toOption = some () ∧
        ((clean ⟨"./../out/".toList⟩).result workedProject).2.disk.root.seen
            ["p".toList, "out".toList, "page.js".toList] = none ∧
        ((clean ⟨"./../out/".toList⟩).result workedProject).2.disk.root.seen
            ["p".toList, "site".toList, "pages".toList, "page.pw".toList] =
          workedProject.disk.root.seen
            ["p".toList, "site".toList, "pages".toList, "page.pw".toList]) := by
  have hplain : Plain workedProject.disk := ⟨by decide, by decide⟩
  refine ⟨hplain, (spared_clean hplain ⟨"/p/out/..".toList⟩ (by decide)).1 (by decide),
    by decide +kernel, by decide +kernel, ?_⟩
  exact (spared_clean hplain ⟨"./../out/".toList⟩ (by decide)).2 _ (by decide)

/-- The working directory under an absolute path that goes down and up again: it is not refused, and
all that is in it is gone. -/
theorem clean_detour :
    Plain workedProject.disk ∧
      ((Path.ofNames workedProject.disk.cwd).join
        ⟨"/p/site/pages/..".toList⟩).normalize.place = workedProject.disk.cwd ∧
      ((clean ⟨"/p/site/pages/..".toList⟩).result workedProject).1.toOption = some () ∧
      workedProject.disk.root.bytesAt
          ["p".toList, "site".toList, "pages".toList, "page.pw".toList] =
        some "<p>home</p>".toUTF8 ∧
      ((clean ⟨"/p/site/pages/..".toList⟩).result workedProject).2.disk.root.bytesAt
        ["p".toList, "site".toList, "pages".toList, "page.pw".toList] = none := by
  refine ⟨⟨by decide, by decide⟩, by decide, by decide +kernel, by decide, by decide +kernel⟩

end Quire.Build
