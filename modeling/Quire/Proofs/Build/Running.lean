import Quire.Build.Project

/-!
Jobs as functions: what a job answers and what it leaves, given the work that it starts from. There
is one equation for each way in which jobs are put together.
-/

namespace Quire.Build

variable {α β σ : Type}

/-- What a job answers and what it leaves. -/
def Job.result (job : Job α) (w : Work) : Except Stop α × Work := (ExceptT.run job).run w

namespace Job

@[simp]
theorem result_pure (a : α) (w : Work) : (pure a : Job α).result w = (.ok a, w) := rfl

theorem result_bind (job : Job α) (f : α → Job β) (w : Work) :
    (job >>= f).result w =
      match job.result w with
      | (.ok a, after) => (f a).result after
      | (.error e, after) => (.error e, after) := by
  show (ExceptT.run (job >>= f)).run w = _
  rw [ExceptT.run_bind, StateT.run_bind]
  unfold result
  show (match (ExceptT.run job).run w with | (a, s) => _) = _
  rcases (ExceptT.run job).run w with ⟨answer, after⟩
  cases answer <;> rfl

@[simp]
theorem result_look (ask : Disk → α) (w : Work) : (look ask).result w = (.ok (ask w.disk), w) := rfl

@[simp]
theorem result_lift (answer : Except Stop α) (w : Work) :
    (liftM answer : Job α).result w = (answer, w) := by
  cases answer <;> rfl

@[simp]
theorem result_orFail {ε : Type} (wording : ε → Failure) (answer : Except ε α) (w : Work) :
    (orFail wording answer : Job α).result w =
      (match answer with
        | .ok a => .ok a
        | .error e => .error (.failure (wording e)), w) := by
  cases answer <;> rfl

@[simp]
theorem result_fail (f : Failure) (w : Work) :
    (fail f : Job α).result w = (.error (.failure f), w) := rfl

@[simp]
theorem result_change (c : Disk.Change) (wording : Disk.Fault → Failure) (w : Work) :
    (change c wording).result w =
      (match (c w.disk).1 with
        | .ok u => .ok u
        | .error e => .error (.failure (wording e)), { w with disk := (c w.disk).2 }) := by
  have hrun : (change c wording).result w =
      (orFail wording (c w.disk).1 : Job Unit).result { w with disk := (c w.disk).2 } := rfl
  rw [hrun]
  cases (c w.disk).1 <;> rfl

theorem ok_of_change {c : Disk.Change} {wording : Disk.Fault → Failure} {w : Work} {u : Unit}
    (h : ((change c wording).result w).1 = .ok u) : (c w.disk).1 = .ok () := by
  rw [result_change] at h
  cases hanswer : (c w.disk).1 with
  | ok u => rfl
  | error e =>
      rw [hanswer] at h
      cases h

@[simp]
theorem result_say (topic : Log.Topic) (message : Text) (w : Work) :
    (say topic message).result w = (.ok (), { w with log := w.log ++ [⟨topic, message, false⟩] }) :=
  rfl

@[simp]
theorem result_detail (topic : Log.Topic) (message : Text) (w : Work) :
    (detail topic message).result w =
      (.ok (), { w with log := w.log ++ [⟨topic, message, true⟩] }) := rfl

theorem result_tryCatch (job : Job α) (handle : Stop → Job α) (w : Work) :
    (tryCatch job handle).result w =
      match job.result w with
      | (.ok a, after) => (.ok a, after)
      | (.error e, after) => (handle e).result after := by
  show (ExceptT.run (ExceptT.tryCatch job handle)).run w = _
  unfold result ExceptT.tryCatch
  rw [ExceptT.run_mk, StateT.run_bind]
  rcases h : (ExceptT.run job).run w with ⟨answer, after⟩
  have hjob : StateT.run (m := Id) job w = (answer, after) := h
  rw [hjob]
  cases answer <;> rfl

theorem result_attempt (job : Job α) (w : Work) :
    job.attempt.result w =
      match job.result w with
      | (.ok a, after) => (.ok (.ok a), after)
      | (.error (.failure f), after) => (.ok (.error f), after)
      | (.error e, after) => (.error e, after) := by
  rw [attempt, result_tryCatch, result_bind]
  rcases job.result w with ⟨answer, after⟩
  cases answer with
  | ok a => rfl
  | error e => cases e <;> rfl

end Job

/-- What a build does once its visit is over. -/
def finish (c : Config) (output : Path) (y : Yield) : Job Report := do
  let routes ← emitRoutes c output
  let report : Report :=
    ⟨y.transpiled, y.clientOnly, y.copied, y.failed, routes, y.references.length, none⟩
  match ← (writeManifest c.bundler output y.references).attempt with
  | .ok manifest =>
    manifest.report output y.references
    match manifest with
    | .empty => return report
    | .written _ made => return { report with bundle := made }
  | .error f =>
    say .error f.message
    return { report with failed := report.failed ++ [(output.join clientDir, f)] }

/-- What a build does below its output directory once that is there. -/
def buildBelow (c : Config) (source output : Path) : Job Report := do
  say .build (source.text ++ " -> ".toList ++ output.text)
  finish c output (← (passOf c source).takeTree output c.build.copyDirs)

theorem buildProject_eq (c : Config) (source output : Path) :
    buildProject c source output =
      if output.isWithin source then fail (.outputHoldsSource output source)
      else change (Disk.makeDirs output) (.disk output) >>= fun _ => buildBelow c source output := by
  unfold buildProject
  split <;> rfl

theorem result_buildProject {c : Config} {source output : Path} (h : ¬ output.isWithin source)
    (w : Work) :
    (buildProject c source output).result w =
      match (Disk.makeDirs output w.disk).1 with
      | .ok _ =>
        (buildBelow c source output).result { w with disk := (Disk.makeDirs output w.disk).2 }
      | .error e =>
        (.error (.failure (.disk output e)), { w with disk := (Disk.makeDirs output w.disk).2 }) := by
  rw [buildProject_eq, if_neg h, Job.result_bind, Job.result_change]
  cases (Disk.makeDirs output w.disk).1 <;> rfl

/-- A configuration that is accepted has an extension for modules. -/
theorem moduleExt_ne_nil {c : Config} (h : c.validate = .ok ()) : c.build.moduleExt ≠ [] := by
  intro hnil
  have hviolation : ∃ v, c.violation? = some v := by
    unfold Config.violation?
    cases Config.extViolation? .template c.build.templateExt with
    | some v => exact ⟨v, rfl⟩
    | none => exact ⟨.emptyExt .module, by simp [Config.extViolation?, hnil]⟩
  obtain ⟨v, hv⟩ := hviolation
  rw [Config.validate, hv] at h
  cases h

end Quire.Build
