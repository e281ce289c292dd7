import Quire.Proofs.Build.Linking

/-!
A build that has walked through its sources reports. Whatever comes of the route table and of the
entry script, the rest of the build ends with a report, and the report tells what came of them.
-/

namespace Quire.Build

open Disk (Leads)

variable {α β : Type} {w mid : Work} {output : Path} {c : Config} {y : Yield} {routes : List Route}

/-- A job that never ends early, and of whose answer something holds. -/
def Gives (job : Job α) (P : α → Prop) : Prop :=
  ∀ w, ∃ a after, job.result w = (.ok a, after) ∧ P a

namespace Gives

variable {P : α → Prop} {Q : β → Prop} {job : Job α} {f : α → Job β}

theorem pure {a : α} (h : P a) : Gives (pure a : Job α) P := fun w => ⟨a, w, rfl, h⟩

theorem bind (hjob : Gives job P) (hf : ∀ a, P a → Gives (f a) Q) : Gives (job >>= f) Q := by
  intro w
  obtain ⟨a, mid, hfirst, ha⟩ := hjob w
  obtain ⟨b, after, hrest, hb⟩ := hf a ha mid
  exact ⟨b, after, by rw [Job.result_bind, hfirst]; exact hrest, hb⟩

theorem say (topic : Log.Topic) (message : Text) : Gives (say topic message) fun _ => True :=
  fun _ => ⟨(), _, rfl, trivial⟩

theorem detail (topic : Log.Topic) (message : Text) : Gives (detail topic message) fun _ => True :=
  fun _ => ⟨(), _, rfl, trivial⟩

theorem forM {f : α → Job PUnit} (items : List α) (hf : ∀ a, Gives (f a) fun _ => True) :
    Gives (items.forM f) fun _ => True := by
  induction items with
  | nil => exact Gives.pure trivial
  | cons a items ih => exact (hf a).bind fun _ _ => ih

end Gives

/-- A job that ends early with failures only, which can be recorded. -/
def Fails (job : Job α) : Prop := ∀ w ext, (job.result w).1 ≠ .error (.badExtension ext)

namespace Fails

variable {job : Job α} {f : α → Job β}

theorem pure (a : α) : Fails (pure a : Job α) := fun _ _ h => by cases h

theorem bind (hjob : Fails job) (hf : ∀ a, Fails (f a)) : Fails (job >>= f) := by
  intro w ext
  have hfirst := hjob w ext
  rw [Job.result_bind]
  rcases hresult : job.result w with ⟨answer, mid⟩
  rw [hresult] at hfirst
  cases answer with
  | error stop => exact fun h => hfirst (congrArg Except.error (Except.error.inj h))
  | ok a => exact hf a mid ext

theorem orFail {ε : Type} (wording : ε → Failure) (answer : Except ε α) :
    Fails (orFail wording answer : Job α) := by
  intro w ext
  rw [Job.result_orFail]
  cases answer <;> simp

theorem change (c : Disk.Change) (wording : Disk.Fault → Failure) : Fails (change c wording) := by
  intro w ext
  rw [Job.result_change]
  cases (c w.disk).1 <;> simp

/-- What may fail is done, or its failure is told. -/
theorem attempt (h : Fails job) : Gives job.attempt fun _ => True := by
  intro w
  have hjob := h w
  rw [Job.result_attempt]
  rcases hresult : job.result w with ⟨answer, after⟩
  rw [hresult] at hjob
  cases answer with
  | ok a => exact ⟨_, _, rfl, trivial⟩
  | error stop =>
      cases stop with
      | failure f => exact ⟨_, _, rfl, trivial⟩
      | badExtension ext => exact absurd rfl (hjob ext)

end Fails

theorem fails_writeManifest {b : Config.Bundler} (hb : b.enable = false) (output : Path)
    (references : List Reference) : Fails (writeManifest b output references) := by
  unfold writeManifest
  split
  · exact Fails.pure _
  · refine (Fails.orFail _ _).bind fun script => ?_
    refine (Fails.change _ _).bind fun _ => (Fails.change _ _).bind fun _ => ?_
    rw [if_neg (by simp [hb])]
    exact Fails.pure _

theorem gives_report (output : Path) (references : List Reference) (m : Manifest) :
    Gives (m.report output references) fun _ => True := by
  cases m with
  | empty => exact Gives.say _ _
  | written entry made =>
      refine (Gives.forM references fun _ => Gives.detail _ _).bind fun _ _ => ?_
      refine (Gives.say _ _).bind fun _ _ => ?_
      cases made with
      | none => exact Gives.pure trivial
      | some b => cases b <;> exact Gives.say _ _

/-- What a report says of a walk and of the routes. Only the entry script can add a failure to those
of the walk. -/
structure Reports (output : Path) (y : Yield) (status : RouteStatus) (report : Report) : Prop where
  transpiled : report.transpiled = y.transpiled
  clientOnly : report.clientOnly = y.clientOnly
  copied : report.copied = y.copied
  failed : report.failed = y.failed ∨
    ∃ f, report.failed = y.failed ++ [(output.join clientDir, f)]
  components : report.components = y.references.length
  routes : report.routes = status

theorem exists_report_finish (hb : c.bundler.enable = false) (y : Yield) {status : RouteStatus}
    (h : (emitRoutes c output).result w = (.ok status, mid)) :
    ∃ report after, (finish c output y).result w = (.ok report, after) ∧
      Reports output y status report := by
  unfold finish
  rw [Job.result_bind, h]
  refine ((fails_writeManifest hb output y.references).attempt.bind fun answer _ => ?_ :
    Gives _ (Reports output y status)) mid
  cases answer with
  | error f =>
      exact (Gives.say _ _).bind fun _ _ => Gives.pure ⟨rfl, rfl, rfl, .inr ⟨f, rfl⟩, rfl, rfl⟩
  | ok manifest =>
      refine (gives_report output y.references manifest).bind fun _ _ => ?_
      cases manifest <;> exact Gives.pure ⟨rfl, rfl, rfl, .inl rfl, rfl, rfl⟩

/-- What a status says of the routes that were scanned. If there are any, they are tabulated unless
the disk refuses one of the files. -/
def RouteStatus.Tells (output : Path) (routes : List Route) : RouteStatus → Prop
  | .emitted n => routes ≠ [] ∧ n = routes.length
  | .noPages => routes = []
  | .noRoutes => routes = []
  | .failed f => routes ≠ [] ∧
    ∃ n ∈ [routesFile, serverFile], ∃ fault, f = .disk (output.child n) fault

theorem exists_status_emitRoutes (hd : w.disk.Plain) (hleads : Leads w.disk output)
    (hdot : '.' ∉ c.build.moduleExt) (hslash : '/' ∉ c.build.moduleExt)
    (hrun : Route.Scan.run ⟨w.disk, output, markersOf c⟩ (output.child Route.pagesDir) =
      .ok routes) :
    ∃ status mid, (emitRoutes c output).result w = (.ok status, mid) ∧
      status.Tells output routes := by
  have hfault := tableFault?_of_run hd hleads.isAbsolute hdot hslash hrun
  have hmade : ∀ fault, (Disk.makeDirs output w.disk).1 ≠ .error fault := by
    rw [hleads.makeDirs hd]
    simp
  unfold emitRoutes
  simp only [Job.result_bind, Job.result_look]
  by_cases hdir : w.disk.isDir (output.child Route.pagesDir)
  · rw [if_neg (by simp [hdir])]
    simp only [Job.result_bind, Job.result_look, hrun]
    cases routes with
    | nil => exact ⟨.noRoutes, _, rfl, rfl⟩
    | cons r routes =>
        rw [if_neg (by simp), Job.result_bind, Job.result_attempt]
        rcases hemit : (emit output c.build.moduleExt (r :: routes)).result w with ⟨answer, after⟩
        rcases emit_cases hd hleads.isAbsolute hfault hemit with ⟨fault, hother, -⟩ |
          ⟨n, hn, fault, rfl⟩ | ⟨rfl, -⟩
        · exact absurd hother (hmade fault)
        · exact ⟨.failed _, _, rfl, List.cons_ne_nil _ _, n, hn, fault, rfl⟩
        · exact ⟨.emitted _, _, rfl, List.cons_ne_nil _ _, rfl⟩
  · have hnone : Route.Scan.run ⟨w.disk, output, markersOf c⟩ (output.child Route.pagesDir) =
        .ok [] := Route.Scan.run_of_not_isDir hdir
    rw [if_pos (by simp [hdir])]
    exact ⟨.noPages, _, rfl, Except.ok.inj (hrun.symm.trans hnone)⟩

/-- Routes whose table is written are emitted. -/
theorem exists_emitted {table : Path}
    (hrun : Route.Scan.run ⟨w.disk, output, markersOf c⟩ (output.child Route.pagesDir) =
      .ok routes)
    (hne : routes ≠ [])
    (hemit : (emit output c.build.moduleExt routes).result w = (.ok table, mid)) :
    ∃ last, (emitRoutes c output).result w = (.ok (.emitted routes.length), last) := by
  have hdir : w.disk.isDir (output.child Route.pagesDir) := by
    by_contra hno
    exact hne (Except.ok.inj (hrun.symm.trans (Route.Scan.run_of_not_isDir hno)))
  unfold emitRoutes
  simp only [Job.result_bind, Job.result_look]
  rw [if_neg (by simp [hdir])]
  simp only [Job.result_bind, Job.result_look, hrun]
  rw [if_neg (by simp [hne]), Job.result_bind, Job.result_attempt, hemit]
  exact ⟨_, rfl⟩

end Quire.Build
