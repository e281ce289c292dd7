import Quire.Proofs.Build.Running
import Quire.Proofs.Disk.Change

/-!
What a build's visit does with what it meets. Every meeting comes to exactly one end: the thing is
passed by, written as a module, left to the browser, copied, or it failed. No end stops the visit,
and the yield grows in the columns of the ends.
-/

namespace Quire.Build

/-- What came of something that was met. -/
inductive Fate
  | passed
  | transpiled (references : List Reference)
  | clientOnly
  | copied
  | failed (cause : Failure)

namespace Fate

/-- Whether a module was written. -/
def isTranspiled : Fate → Bool
  | .transpiled _ => true
  | _ => false

/-- Whether it is for the browser alone. -/
def isClientOnly : Fate → Bool
  | .clientOnly => true
  | _ => false

/-- Whether it was copied. -/
def isCopied : Fate → Bool
  | .copied => true
  | _ => false

/-- The references of the module that was written. -/
def references : Fate → List Reference
  | .transpiled references => references
  | _ => []

/-- Why it failed, if it did. -/
def failure? : Fate → Option Failure
  | .failed cause => some cause
  | _ => none

end Fate

/-- Something that was met, and what came of it. -/
structure Finding where
  names : List Text
  met : Met
  fate : Fate

/-- The failure of a finding, with the path that it is reported under. -/
def Finding.failure? (root : Path) (f : Finding) : Option (Path × Failure) :=
  f.fate.failure?.map (below root f.names, ·)

/-- What came of a source tree so far and of one more finding. -/
def Yield.add (root : Path) (y : Yield) (f : Finding) : Yield :=
  match f.fate with
  | .passed => y
  | .transpiled references =>
    { y with transpiled := y.transpiled + 1, references := y.references ++ references }
  | .clientOnly => { y with clientOnly := y.clientOnly + 1 }
  | .copied => { y with copied := y.copied + 1 }
  | .failed cause => { y with failed := y.failed ++ [(below root f.names, cause)] }

variable {α β : Type} {d e : Disk} {w : Work} {pass : Pass} {output : Path} {names : List Text}
  {y y' y'' : Yield} {a b : List Finding}

/-- What some findings add to a yield, column by column. -/
structure Tally (root : Path) (found : List Finding) (y y' : Yield) : Prop where
  transpiled : y'.transpiled = y.transpiled + found.countP (·.fate.isTranspiled)
  clientOnly : y'.clientOnly = y.clientOnly + found.countP (·.fate.isClientOnly)
  copied : y'.copied = y.copied + found.countP (·.fate.isCopied)
  failed : y'.failed = y.failed ++ found.filterMap (·.failure? root)
  references : y'.references = y.references ++ found.flatMap (·.fate.references)

theorem Tally.nil (root : Path) (y : Yield) : Tally root [] y y := by
  constructor <;> simp

theorem Tally.single (root : Path) (y : Yield) (f : Finding) :
    Tally root [f] y (y.add root f) := by
  obtain ⟨names, m, fate⟩ := f
  cases fate <;>
    constructor <;>
    simp [Yield.add, Finding.failure?, Fate.isTranspiled, Fate.isClientOnly, Fate.isCopied,
      Fate.references, Fate.failure?]

theorem Tally.trans {root : Path} (h : Tally root a y y') (h' : Tally root b y' y'') :
    Tally root (a ++ b) y y'' where
  transpiled := by rw [h'.transpiled, h.transpiled, List.countP_append, Nat.add_assoc]
  clientOnly := by rw [h'.clientOnly, h.clientOnly, List.countP_append, Nat.add_assoc]
  copied := by rw [h'.copied, h.copied, List.countP_append, Nat.add_assoc]
  failed := by rw [h'.failed, h.failed, List.filterMap_append, List.append_assoc]
  references := by rw [h'.references, h.references, List.flatMap_append, List.append_assoc]

/-- Whether what the names lead to is taken for a template. -/
def Pass.Compiles (pass : Pass) (names : List Text) : Prop :=
  ¬ isIgnored (below pass.root names) ∧
    (below pass.root names).extension? = some pass.ext.template

/-- Whether what the names lead to is taken for a file that accompanies a page. -/
def Pass.Carries (pass : Pass) (names : List Text) : Prop :=
  ¬ isIgnored (below pass.root names) ∧
    (below pass.root names).extension? ≠ some pass.ext.template ∧ isRouted names

/-- Whether a module can be written, or under which path that fails and why. -/
def writable (dst : Path) (code : Text) (d : Disk) : Except (Path × Disk.Fault) Unit :=
  match Disk.makeParents dst d with
  | (.error fault, _) => .error (dst.parent?.getD dst, fault)
  | (.ok _, after) =>
    match after.writeText dst code with
    | .error fault => .error (dst, fault)
    | .ok _ => .ok ()

/-- How a meeting ends on the disk `e`, where the visit began on `d`. What a template gives is told
from what its file held at the beginning; whether that can be written, and whether a file can be
copied, is told from the disk of the moment. -/
inductive Ends (pass : Pass) (output : Path) (d e : Disk) (names : List Text) : Met → Fate → Prop
  | unlisted (fault : Disk.Fault) :
      Ends pass output d e names (.unlisted fault)
        (.failed (.unlisted (below pass.root names) fault))
  | passed (htemplate : ¬ pass.Compiles names) (hasset : ¬ pass.Carries names) :
      Ends pass output d e names .file .passed
  | refused {cause : Failure} (htemplate : pass.Compiles names)
      (houtcome : pass.outcome d (below pass.root names) = .error (.failure cause)) :
      Ends pass output d e names .file (.failed cause)
  | clientOnly (htemplate : pass.Compiles names)
      (houtcome : pass.outcome d (below pass.root names) = .ok .clientOnly) :
      Ends pass output d e names .file .clientOnly
  | transpiled {dst : Path} {code : Text} {references : List Reference}
      (htemplate : pass.Compiles names)
      (houtcome : pass.outcome d (below pass.root names) = .ok (.module code references))
      (hdst : pass.outputPath (relativePath names) output = .ok dst)
      (hwritten : writable dst code e = .ok ()) :
      Ends pass output d e names .file (.transpiled references)
  | unwritten {dst at' : Path} {code : Text} {references : List Reference} {fault : Disk.Fault}
      (htemplate : pass.Compiles names)
      (houtcome : pass.outcome d (below pass.root names) = .ok (.module code references))
      (hdst : pass.outputPath (relativePath names) output = .ok dst)
      (hwritten : writable dst code e = .error (at', fault)) :
      Ends pass output d e names .file (.failed (.source (.disk at' fault)))
  | copied (hasset : pass.Carries names)
      (hcopied : (Disk.copyInto (below pass.root names) (output.join (relativePath names)) e).1 =
        .ok ()) :
      Ends pass output d e names .file .copied
  | uncopied {fault : Disk.Fault} (hasset : pass.Carries names)
      (hcopied : (Disk.copyInto (below pass.root names) (output.join (relativePath names)) e).1 =
        .error fault) :
      Ends pass output d e names .file (.failed (.notCopied (below pass.root names) fault))

namespace Ends

variable {fate : Fate}

theorem of_unlisted {fault : Disk.Fault} (h : Ends pass output d e names (.unlisted fault) fate) :
    fate = .failed (.unlisted (below pass.root names) fault) := by
  cases h
  rfl

theorem template (h : Ends pass output d e names .file fate) (htemplate : pass.Compiles names) :
    fate.isTranspiled ∨ fate.isClientOnly ∨ fate.failure?.isSome := by
  cases h with
  | passed hno _ => exact absurd htemplate hno
  | refused _ _ => exact Or.inr (Or.inr rfl)
  | clientOnly _ _ => exact Or.inr (Or.inl rfl)
  | transpiled _ _ _ _ => exact Or.inl rfl
  | unwritten _ _ _ _ => exact Or.inr (Or.inr rfl)
  | copied hasset _ => exact absurd htemplate.2 hasset.2.1
  | uncopied hasset _ => exact absurd htemplate.2 hasset.2.1

theorem asset (h : Ends pass output d e names .file fate) (hasset : pass.Carries names) :
    fate.isCopied ∨ fate.failure?.isSome := by
  cases h with
  | passed _ hno => exact absurd hasset hno
  | refused htemplate _ => exact absurd htemplate.2 hasset.2.1
  | clientOnly htemplate _ => exact absurd htemplate.2 hasset.2.1
  | transpiled htemplate _ _ _ => exact absurd htemplate.2 hasset.2.1
  | unwritten htemplate _ _ _ => exact absurd htemplate.2 hasset.2.1
  | copied _ _ => exact Or.inl rfl
  | uncopied _ _ => exact Or.inr rfl

theorem other (h : Ends pass output d e names .file fate) (htemplate : ¬ pass.Compiles names)
    (hasset : ¬ pass.Carries names) : fate = .passed := by
  cases h with
  | passed _ _ => rfl
  | refused hyes _ => exact absurd hyes htemplate
  | clientOnly hyes _ => exact absurd hyes htemplate
  | transpiled hyes _ _ _ => exact absurd hyes htemplate
  | unwritten hyes _ _ _ => exact absurd hyes htemplate
  | copied hyes _ => exact absurd hyes hasset
  | uncopied hyes _ => exact absurd hyes hasset

end Ends

theorem exists_mapM_ok {f : α → Except Stop β} (hf : ∀ x, ∃ z, f x = .ok z) (items : List α) :
    ∃ all, items.mapM f = .ok all := by
  induction items with
  | nil => exact ⟨[], rfl⟩
  | cons x items ih =>
      obtain ⟨z, hz⟩ := hf x
      obtain ⟨all, hall⟩ := ih
      refine ⟨z :: all, ?_⟩
      rw [List.mapM_cons, hz, hall]
      rfl

section

variable (hext : '/' ∉ pass.ext.module)

include hext

theorem withExtension_module (p : Path) :
    withExtension p pass.ext.module = .ok (p.withExtension pass.ext.module) := by
  rw [withExtension, if_pos (by simpa [Path.isExtension] using hext)]

theorem exists_reference (dir : Path) (i : Template.Island) :
    ∃ r, pass.reference dir i = .ok r := by
  unfold Pass.reference Pass.importPath
  simp only [withExtension_module hext]
  split <;> exact ⟨_, rfl⟩

/-- What a template gives is never that the build has to end. -/
theorem exists_failure_of_outcome {stop : Stop} (h : pass.outcome d src = .error stop) :
    ∃ cause, stop = .failure cause := by
  unfold Pass.outcome at h
  split at h
  · exact ⟨_, (Except.error.inj h).symm⟩
  · unfold Pass.outcomeOf at h
    split at h
    · cases h
    · split at h
      · exact ⟨_, (Except.error.inj h).symm⟩
      · next m _ =>
          obtain ⟨references, hall⟩ :=
            exists_mapM_ok (exists_reference hext (pass.dirOf src)) m.islands
          rw [hall] at h
          cases h

end

/-- What the work on a template answers. -/
theorem answer_transpile (pass : Pass) (src dst : Path) (w : Work) :
    ((pass.transpile src dst).result w).1 =
      match pass.outcome w.disk src with
      | .error stop => .error stop
      | .ok .clientOnly => .ok .clientOnly
      | .ok (.module code references) =>
        match writable dst code w.disk with
        | .error (at', fault) => .error (.failure (.source (.disk at' fault)))
        | .ok _ => .ok (.module code references) := by
  unfold Pass.transpile writable
  simp only [Job.result_bind, Job.result_look, id, Job.result_lift]
  cases pass.outcome w.disk src with
  | error stop => rfl
  | ok outcome =>
      cases outcome with
      | clientOnly => rfl
      | module code references =>
          simp only [Job.result_bind, Job.result_change]
          rcases Disk.makeParents dst w.disk with ⟨made, mid⟩
          cases made with
          | error fault => rfl
          | ok u =>
              simp only
              cases hwrite : mid.writeText dst code with
              | error fault =>
                  rw [Disk.ofWhole_error hwrite]
              | ok last =>
                  rw [Disk.ofWhole_ok hwrite]
                  rfl

theorem ends_takeTemplate (hext : '/' ∉ pass.ext.module) (htemplate : pass.Compiles names)
    (hsame : pass.outcome w.disk (below pass.root names) =
      pass.outcome d (below pass.root names)) (y : Yield) :
    ∃ fate, ((pass.takeTemplate output y names).result w).1 =
        .ok (y.add pass.root ⟨names, .file, fate⟩) ∧
      Ends pass output d w.disk names .file fate := by
  obtain ⟨dst, hdst⟩ : ∃ dst, pass.outputPath (relativePath names) output = .ok dst :=
    ⟨_, withExtension_module hext _⟩
  have hanswer := answer_transpile pass (below pass.root names) dst w
  rw [hsame] at hanswer
  unfold Pass.takeTemplate
  simp only [Job.result_bind, Job.result_lift, hdst, Job.result_attempt]
  rcases hrun : (pass.transpile (below pass.root names) dst).result w with ⟨answer, mid⟩
  rw [hrun] at hanswer
  simp only at hanswer
  subst hanswer
  cases houtcome : pass.outcome d (below pass.root names) with
  | error stop =>
      obtain ⟨cause, rfl⟩ := exists_failure_of_outcome hext houtcome
      exact ⟨.failed cause, rfl, .refused htemplate houtcome⟩
  | ok outcome =>
      cases outcome with
      | clientOnly => exact ⟨.clientOnly, rfl, .clientOnly htemplate houtcome⟩
      | module code references =>
          simp only
          cases hwritten : writable dst code w.disk with
          | error cause =>
              obtain ⟨at', fault⟩ := cause
              exact ⟨.failed (.source (.disk at' fault)), rfl,
                .unwritten htemplate houtcome hdst hwritten⟩
          | ok u =>
              exact ⟨.transpiled references, rfl, .transpiled htemplate houtcome hdst hwritten⟩

theorem ends_takeAsset (hasset : pass.Carries names) (y : Yield) :
    ∃ fate, ((pass.takeAsset output y names).result w).1 =
        .ok (y.add pass.root ⟨names, .file, fate⟩) ∧
      Ends pass output d w.disk names .file fate := by
  unfold Pass.takeAsset
  simp only [Job.result_bind, Job.result_attempt, Job.result_change]
  cases hcopied : (Disk.copyInto (below pass.root names) (output.join (relativePath names))
    w.disk).1 with
  | error fault =>
      exact ⟨.failed (.notCopied (below pass.root names) fault), rfl, .uncopied hasset hcopied⟩
  | ok u => exact ⟨.copied, rfl, .copied hasset hcopied⟩

/-- Every meeting comes to an end that is added to the yield. -/
theorem ends_take (output : Path) (m : Met)
    (hext : m = .file → pass.Compiles names → '/' ∉ pass.ext.module)
    (hsame : m = .file → pass.Compiles names → pass.outcome w.disk (below pass.root names) =
      pass.outcome d (below pass.root names)) (y : Yield) :
    ∃ fate, ((pass.take output y names m).result w).1 = .ok (y.add pass.root ⟨names, m, fate⟩) ∧
      Ends pass output d w.disk names m fate := by
  cases m with
  | unlisted fault =>
      exact ⟨.failed (.unlisted (below pass.root names) fault), rfl, .unlisted fault⟩
  | file =>
      unfold Pass.take
      by_cases hignored : isIgnored (below pass.root names)
      · simp only [hignored, if_true]
        exact ⟨.passed, rfl, .passed (fun h => h.1 hignored) fun h => h.1 hignored⟩
      · simp only [hignored]
        by_cases htemplate : (below pass.root names).extension? = some pass.ext.template
        · simp only [htemplate, if_true]
          have hcompiles : pass.Compiles names := ⟨hignored, htemplate⟩
          exact ends_takeTemplate (hext rfl hcompiles) hcompiles (hsame rfl hcompiles) y
        · simp only [htemplate]
          by_cases hrouted : isRouted names
          · simp only [hrouted, if_true]
            exact ends_takeAsset ⟨hignored, htemplate, hrouted⟩ y
          · simp only [hrouted]
            exact ⟨.passed, rfl, .passed (fun h => htemplate h.2) fun h => hrouted h.2.2⟩

theorem result_transpile {src dst : Path} {code : Text} {references : List Reference}
    {mid last : Disk} (houtcome : pass.outcome w.disk src = .ok (.module code references))
    (hmade : Disk.makeParents dst w.disk = (.ok (), mid))
    (hwrite : mid.writeText dst code = .ok last) :
    (pass.transpile src dst).result w =
      (.ok (.module code references), { w with disk := last }) := by
  have hchange : Disk.Change.ofWhole (·.writeText dst code) mid = (.ok (), last) :=
    Disk.ofWhole_ok hwrite
  unfold Pass.transpile
  simp only [Job.result_bind, Job.result_look, id, Job.result_lift, houtcome, Job.result_change,
    hmade, hchange, Job.result_pure]

theorem take_of_compiles (htemplate : pass.Compiles names) (output : Path) (y : Yield) :
    pass.take output y names .file = pass.takeTemplate output y names := by
  unfold Pass.take
  dsimp only
  rw [if_neg htemplate.1, if_pos htemplate.2]

theorem disk_take {dst : Path} {code : Text} {references : List Reference} {mid last : Disk}
    (htemplate : pass.Compiles names)
    (houtcome : pass.outcome w.disk (below pass.root names) = .ok (.module code references))
    (hdst : pass.outputPath (relativePath names) output = .ok dst)
    (hmade : Disk.makeParents dst w.disk = (.ok (), mid))
    (hwrite : mid.writeText dst code = .ok last) :
    ((pass.take output y names .file).result w).2.disk = last := by
  rw [take_of_compiles htemplate]
  unfold Pass.takeTemplate
  simp only [Job.result_bind, Job.result_lift, hdst, Job.result_attempt,
    result_transpile houtcome hmade hwrite, Job.result_detail, Job.result_pure]

end Quire.Build
