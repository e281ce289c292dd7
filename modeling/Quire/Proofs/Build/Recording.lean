import Quire.Proofs.Build.Accounting

/-!
A record of what a walk sets out to do. Beside the walk runs a list of the templates that it sets
out to write as modules and the files that it sets out to copy, each with its source and its
destination; an early end of the walk ends the list. Main statement: `records_takeTree`, since the
record leaves the walk as it is, and what the walk does to the disk is what is on the record.
-/

namespace Quire.Build

variable {α β σ τ : Type} {names : List Text} {w : Work}

/-- How a job ends, as an answer. -/
def Job.ending (job : Job α) : Job (Except Stop α) :=
  tryCatch (job >>= fun a => pure (.ok a)) fun stop => pure (.error stop)

theorem Job.result_ending (job : Job α) (w : Work) :
    job.ending.result w = (.ok (job.result w).1, (job.result w).2) := by
  unfold Job.ending
  rw [Job.result_tryCatch, Job.result_bind]
  rcases job.result w with ⟨answer, after⟩
  cases answer <;> rfl

/-- How a job has ended, with a record of what it set out to do until then. -/
abbrev Recorded (σ τ : Type) := Except Stop σ × List τ

/-- What is recorded next, unless the end has come. -/
def Recorded.next (s : Recorded α τ) (f : α → List τ → Job (Recorded β τ)) : Job (Recorded β τ) :=
  match s.1 with
  | .error stop => return (.error stop, s.2)
  | .ok a => f a s.2

/-- A job with a record beside it answers how the job ends and leaves what the job leaves; and the
disk is as what is recorded, carried out in this order, makes it. -/
def Records (carry : Disk → τ → Disk) (job : Job α) (recorded : List τ → Job (Recorded α τ)) : Prop :=
  ∀ seen w, ∃ more, (recorded seen).result w =
      (.ok ((job.result w).1, seen ++ more), (job.result w).2) ∧
    more.foldl carry w.disk = (job.result w).2.disk

namespace Records

variable {carry : Disk → τ → Disk}

theorem pure (a : α) : Records carry (pure a) fun seen => pure (.ok a, seen) :=
  fun seen _ => ⟨[], by simp, rfl⟩

theorem bind {job : Job α} {recorded : List τ → Job (Recorded α τ)} {f : α → Job β}
    {g : α → List τ → Job (Recorded β τ)} (hjob : Records carry job recorded)
    (hf : ∀ a, Records carry (f a) (g a)) :
    Records carry (job >>= f) fun seen => recorded seen >>= fun s => s.next g := by
  intro seen w
  obtain ⟨more, hresult, hdisk⟩ := hjob seen w
  rw [Job.result_bind, Job.result_bind, hresult]
  rcases hjob : job.result w with ⟨answer, mid⟩
  rw [hjob] at hdisk
  cases answer with
  | error stop => exact ⟨more, rfl, hdisk⟩
  | ok a =>
      obtain ⟨rest, hrest, hdisk'⟩ := hf a (seen ++ more) mid
      refine ⟨more ++ rest, ?_, ?_⟩
      · rw [← List.append_assoc]
        exact hrest
      · rw [List.foldl_append, hdisk]
        exact hdisk'

theorem look {ask : Disk → α} {f : α → Job β} {g : α → List τ → Job (Recorded β τ)}
    (hf : ∀ a, Records carry (f a) (g a)) :
    Records carry (look ask >>= f) fun seen => Build.look ask >>= fun a => g a seen :=
  fun seen w => hf (ask w.disk) seen w

/-- A job that is done once, with what it sets out to do. -/
theorem ending {job : Job α} {more : List τ}
    (h : ∀ w, more.foldl carry w.disk = (job.result w).2.disk) :
    Records carry job fun seen => job.ending >>= fun answer => Pure.pure (answer, seen ++ more) := by
  intro seen w
  refine ⟨more, ?_, h w⟩
  rw [Job.result_bind, Job.result_ending]
  rfl

theorem foldlM {f : σ → α → Job σ} {g : Recorded σ τ → α → Job (Recorded σ τ)} (items : List α)
    (hf : ∀ s, ∀ a ∈ items, Records carry (f s a) fun seen => g (.ok s, seen) a)
    (hend : ∀ stop seen a w, (g (.error stop, seen) a).result w = (.ok (.error stop, seen), w))
    (s : σ) : Records carry (items.foldlM f s) fun seen => items.foldlM g (.ok s, seen) := by
  have hended : ∀ (rest : List α) stop seen w,
      (rest.foldlM g (.error stop, seen)).result w = (.ok (.error stop, seen), w) := by
    intro rest stop seen w
    induction rest with
    | nil => rfl
    | cons a rest ih =>
        rw [List.foldlM_cons, Job.result_bind, hend]
        exact ih
  induction items generalizing s with
  | nil => exact pure s
  | cons a items ih =>
      intro seen w
      obtain ⟨more, hresult, hdisk⟩ := hf s a List.mem_cons_self seen w
      simp only [List.foldlM_cons]
      rw [Job.result_bind, Job.result_bind, hresult]
      rcases hfirst : (f s a).result w with ⟨answer, mid⟩
      rw [hfirst] at hdisk
      cases answer with
      | error stop => exact ⟨more, hended items stop _ mid, hdisk⟩
      | ok t =>
          obtain ⟨rest, hrest, hdisk'⟩ :=
            ih (fun u x hx => hf u x (List.mem_cons_of_mem a hx)) t (seen ++ more) mid
          refine ⟨more ++ rest, ?_, ?_⟩
          · rw [← List.append_assoc]
            exact hrest
          · rw [List.foldl_append, hdisk]
            exact hdisk'

end Records

/-- A visit with a record of what it sets out to do at each meeting. -/
def Visit.recording (v : Visit σ) (sets : List Text → Met → List τ) : Visit (Recorded σ τ) where
  root := v.root
  skips := v.skips
  meet s names m := s.next fun t seen => do
    let answer ← (v.meet t names m).ending
    return (answer, seen ++ sets names m)

section

variable {carry : Disk → τ → Disk} {v : Visit σ} {sets : List Text → Met → List τ}

/-- After its end, a recorded visit does nothing any more. -/
theorem result_visitBelow_recording_of_error (depth : Nat) (names : List Text) (stop : Stop)
    (seen : List τ) (w : Work) :
    ((v.recording sets).visitBelow depth names (.error stop, seen)).result w =
      (.ok (.error stop, seen), w) := by
  induction depth generalizing names w with
  | zero => rfl
  | succ depth ih =>
      rw [result_visitBelow]
      cases w.disk.listing (below (v.recording sets).root names) with
      | error f => rfl
      | ok entries =>
          simp only
          induction entries with
          | nil => rfl
          | cons entry entries ihe =>
              rw [List.foldlM_cons, Job.result_bind]
              have hentry : (visitEntry (v.recording sets) depth names (.error stop, seen)
                  entry).result w = (.ok (.error stop, seen), w) := by
                unfold visitEntry
                split
                · rfl
                · cases entry.2 <;> first | exact ih _ w | rfl
              rw [hentry]
              exact ihe

variable (hmeet : ∀ s names m w,
  (sets names m).foldl carry w.disk = ((v.meet s names m).result w).2.disk)

include hmeet

theorem Records.visitBelow (depth : Nat) (names : List Text) (s : σ) :
    Records carry (v.visitBelow depth names s) fun seen =>
      (v.recording sets).visitBelow depth names (.ok s, seen) := by
  induction depth generalizing names s with
  | zero => exact Records.pure s
  | succ depth ih =>
      simp only [visitBelow_succ]
      refine Records.look fun listing => ?_
      cases listing with
      | error f => exact Records.ending (hmeet s names (.unlisted f))
      | ok entries =>
          refine Records.foldlM entries (fun t entry _ => ?_) (fun stop seen entry w => ?_) s
          · have hsame : (v.recording sets).skips (below (v.recording sets).root
                (names ++ [entry.1])) = v.skips (below v.root (names ++ [entry.1])) := rfl
            simp only [visitEntry, hsame]
            by_cases hskip : v.skips (below v.root (names ++ [entry.1]))
            · simp only [hskip, if_true]
              exact Records.pure t
            · simp only [hskip, Bool.false_eq_true, if_false]
              cases entry.2 with
                | file => exact Records.ending (hmeet t _ .file)
                | dir => exact ih _ t
                | link | device => exact Records.pure t
          · unfold visitEntry
            split
            · rfl
            · cases entry.2 <;> first | exact result_visitBelow_recording_of_error _ _ _ _ w | rfl

theorem Records.run (s : σ) :
    Records carry (v.run s) fun seen => (v.recording sets).run (.ok s, seen) := by
  unfold Visit.run
  refine Records.look fun node => ?_
  cases node with
  | error f => exact Records.ending (hmeet s [] (.unlisted f))
  | ok m =>
      cases m with
      | file bytes => exact Records.ending (hmeet s [] .file)
      | dir children => exact Records.visitBelow hmeet Disk.maxPath [] s
      | sink => exact Records.pure s
      | link target =>
          refine Records.look fun node => ?_
          cases node with
          | error f => exact Records.ending (hmeet s [] (.unlisted f))
          | ok m =>
              cases m with
              | dir children => exact Records.visitBelow hmeet Disk.maxPath [] s
              | file bytes | link target | sink => exact Records.pure s

end

/-- What a walk sets out to do with a file: to write it as a module, or to copy it. -/
inductive Attempt
  | compile (source dest : Path)
  | copy (source dest : Path)

namespace Attempt

/-- The file that is read. -/
def source : Attempt → Path
  | .compile source _ => source
  | .copy source _ => source

/-- Where it is to go. -/
def dest : Attempt → Path
  | .compile _ dest => dest
  | .copy _ dest => dest

end Attempt

/-- The disk after the work on a template. -/
def Pass.written (p : Pass) (src dst : Path) (d : Disk) : Disk :=
  match p.outcome d src with
  | .ok (.module code _) =>
    ((Disk.makeParents dst).andThen (.ofWhole (·.writeText dst code)) d).2
  | _ => d

/-- The disk after an attempt. -/
def Attempt.carry (p : Pass) (d : Disk) : Attempt → Disk
  | .compile source dest => p.written source dest d
  | .copy source dest => (Disk.copyInto source dest d).2

/-- What a pass sets out to do with what it meets. -/
def Pass.sets (p : Pass) (output : Path) (names : List Text) : Met → List Attempt
  | .unlisted _ => []
  | .file =>
    let src := below p.root names
    if isIgnored src then []
    else if src.extension? = some p.ext.template then
      match p.outputPath (relativePath names) output with
      | .ok dst => [.compile src dst]
      | .error _ => []
    else if isRouted names then [.copy src (output.join (relativePath names))]
    else []

/-- What is set out to be done with a file of a directory that is copied. -/
def copySets (dir dst : Path) (names : List Text) : Met → List Attempt
  | .unlisted _ => []
  | .file => if isIgnored (below dir names) then [] else [.copy (below dir names) (below dst names)]

/-- The visit to a directory that is copied. -/
def copyVisit (output dir dst : Path) : Visit Nat := ⟨dir, output.isWithin, copyFile dir dst⟩

/-- The copies of directories, with a record. -/
def recordVerbatim (source output : Path) (names : List Text) (seen : List Attempt) :
    Job (Recorded Nat Attempt) :=
  names.foldlM (fun s name => s.next fun count seen => do
    match ← look (locate · source name) with
    | none => return (.ok count, seen)
    | some dir =>
      if output.isWithin dir then return (.ok count, seen)
      else ((copyVisit output dir (output.child name)).recording
        (copySets dir (output.child name))).run (.ok count, seen)) (.ok 0, seen)

/-- The walk through a source tree and the copies of directories, with a record. -/
def Pass.recordTree (p : Pass) (output : Path) (copyDirs : List Text) (seen : List Attempt) :
    Job (Recorded Yield Attempt) := do
  let s ← ((p.visit output).recording (p.sets output)).run (.ok {}, seen)
  s.next fun y seen => do
    let s ← recordVerbatim p.root output copyDirs seen
    s.next fun copied seen => return (.ok { y with copied := y.copied + copied }, seen)

/-! What is on the record is what is done. -/

theorem disk_attempt (job : Job α) (w : Work) :
    (job.attempt.result w).2.disk = (job.result w).2.disk := by
  rw [Job.result_attempt]
  rcases job.result w with ⟨answer, after⟩
  cases answer with
  | ok a => rfl
  | error stop => cases stop <;> rfl

theorem disk_bind_of_silent {job : Job α} {f : α → Job β} (w : Work)
    (hf : ∀ a w', ((f a).result w').2.disk = w'.disk) :
    ((job >>= f).result w).2.disk = (job.result w).2.disk := by
  rw [Job.result_bind]
  rcases job.result w with ⟨answer, after⟩
  cases answer with
  | ok a => exact hf a after
  | error stop => rfl

theorem disk_transpile (pass : Pass) (src dst : Path) (w : Work) :
    ((pass.transpile src dst).result w).2.disk = pass.written src dst w.disk := by
  unfold Pass.transpile Pass.written
  simp only [Job.result_bind, Job.result_look, id, Job.result_lift]
  cases pass.outcome w.disk src with
  | error stop => rfl
  | ok outcome =>
      cases outcome with
      | clientOnly => rfl
      | module code references =>
          simp only [Job.result_bind, Job.result_change, Disk.Change.andThen]
          rcases Disk.makeParents dst w.disk with ⟨made, mid⟩
          cases made with
          | error fault => rfl
          | ok u =>
              simp only
              rcases Disk.Change.ofWhole (·.writeText dst code) mid with ⟨written, last⟩
              cases written <;> rfl

theorem disk_takeTemplate (pass : Pass) (output : Path) (y : Yield) (names : List Text) (w : Work) :
    ((pass.takeTemplate output y names).result w).2.disk =
      match pass.outputPath (relativePath names) output with
      | .ok dst => pass.written (below pass.root names) dst w.disk
      | .error _ => w.disk := by
  unfold Pass.takeTemplate
  rw [Job.result_bind, Job.result_lift]
  cases pass.outputPath (relativePath names) output with
  | error stop => rfl
  | ok dst =>
      refine (disk_bind_of_silent w fun answer w' => ?_).trans
        ((disk_attempt _ w).trans (disk_transpile pass _ dst w))
      cases answer with
      | error f => rfl
      | ok outcome => cases outcome <;> rfl

theorem disk_takeAsset (pass : Pass) (output : Path) (y : Yield) (names : List Text) (w : Work) :
    ((pass.takeAsset output y names).result w).2.disk =
      (Disk.copyInto (below pass.root names) (output.join (relativePath names)) w.disk).2 := by
  unfold Pass.takeAsset
  refine (disk_bind_of_silent w fun answer w' => ?_).trans ((disk_attempt _ w).trans ?_)
  · cases answer <;> rfl
  · rw [Job.result_change]

theorem carry_take (pass : Pass) (output : Path) (y : Yield) (names : List Text) (m : Met)
    (w : Work) :
    (pass.sets output names m).foldl (Attempt.carry pass) w.disk =
      ((pass.take output y names m).result w).2.disk := by
  cases m with
  | unlisted fault => rfl
  | file =>
      simp only [Pass.sets, Pass.take]
      split
      · rfl
      · split
        · rw [disk_takeTemplate]
          cases pass.outputPath (relativePath names) output <;> rfl
        · split
          · rw [disk_takeAsset]
            rfl
          · rfl

theorem carry_copyFile (pass : Pass) (dir dst : Path) (count : Nat) (names : List Text) (m : Met)
    (w : Work) :
    (copySets dir dst names m).foldl (Attempt.carry pass) w.disk =
      ((copyFile dir dst count names m).result w).2.disk := by
  cases m with
  | unlisted fault => rfl
  | file =>
      simp only [copySets, copyFile]
      split
      · rfl
      · refine Eq.symm ((disk_bind_of_silent w fun answer w' => ?_).trans ((disk_attempt _ w).trans ?_))
        · cases answer <;> rfl
        · rw [Job.result_change]
          rfl

theorem records_copyVerbatim (pass : Pass) (source output : Path) (names : List Text) :
    Records (Attempt.carry pass) (copyVerbatim source output names)
      (recordVerbatim source output names) := by
  unfold copyVerbatim recordVerbatim
  refine Records.foldlM names (fun count name _ => ?_) (fun _ _ _ _ => rfl) 0
  refine Records.look fun found => ?_
  cases found with
  | none => exact Records.pure count
  | some dir =>
      simp only [copyDir]
      by_cases hwithin : output.isWithin dir
      · simp only [hwithin, if_true]
        exact Records.pure count
      · simp only [hwithin, Bool.false_eq_true, if_false]
        exact Records.run (v := copyVisit output dir (output.child name))
          (fun s names m w => carry_copyFile pass dir (output.child name) s names m w) count

/-- The record leaves the walk as it is, and tells all that the walk does to the disk. -/
theorem records_takeTree (pass : Pass) (output : Path) (copyDirs : List Text) :
    Records (Attempt.carry pass) (pass.takeTree output copyDirs)
      (pass.recordTree output copyDirs) := by
  refine (Records.run (v := pass.visit output)
    (fun s names m w => carry_take pass output s names m w) {}).bind fun y => ?_
  exact (records_copyVerbatim pass pass.root output copyDirs).bind fun copied =>
    Records.pure _

end Quire.Build
