import Quire.Proofs.Build.Confinement
import Quire.Proofs.Build.Refinishing
import Quire.Proofs.Build.Retaking

/-!
Building a second time. Each part of a build changes nothing that the parts before it have read; so
the same build of what the first one left answers the same and leaves all as it is.
-/

namespace Quire.Build

open Disk (Place Plain Node IsName Leads)
open Quire.Path (Ordinary Straight)

variable {α β : Type} {d e last : Disk} {free : Place → Prop} {source output : Path}
  {P : Disk → Prop} {c : Config}

/-- A job that changes nothing but what is free, and that answers the same and leaves no other files
when it is done again once it has left the last disk. -/
structure Repeats (output : Path) (free : Place → Prop) (last : Disk) (P : Disk → Prop)
    (job : Job α) : Prop where
  grows : Grows output free P job
  again : ∀ w w', Ready output w.disk → P w.disk → Trails last w.disk w'.disk →
    (job.result w).2.disk = last →
    (job.result w').1 = (job.result w).1 ∧
      Trails last (job.result w).2.disk (job.result w').2.disk

theorem Repeats.of_steady {job : Job α} (h : Steady output free last P job) :
    Repeats output free last P job := by
  refine ⟨h.grows, fun w w' hw hP htrails hend => h.again w w' hw hP htrails ?_⟩
  rw [hend]
  exact Reworked.refl (hend ▸ (h.grows w hw hP).plain)

/-- A steady job, and after it one that repeats and changes nothing that the first one needs. -/
theorem Repeats.bind {job : Job α} {f : α → Job β} {free' : Place → Prop}
    {Q : Disk → Prop} (hjob : Steady output free last P job)
    (hf : ∀ a, Repeats output free' last Q (f a)) (hsub : ∀ q, free' q → free q)
    (hQ : ∀ w, Ready output w.disk → P w.disk → Q (job.result w).2.disk) :
    Repeats output free last P (job >>= f) := by
  have hlater : ∀ a, Grows output free Q (f a) :=
    fun a w hw hP => ((hf a).grows w hw hP).mono hsub
  refine ⟨hjob.grows.bind hlater fun w _ hw hP _ => hQ w hw hP, fun w w' hw hP htrails hend => ?_⟩
  have hfirst := hjob.grows w hw hP
  have hafter := hQ w hw hP
  have hagain := hjob.again w w' hw hP htrails
  rw [Job.result_bind] at hend
  rw [Job.result_bind, Job.result_bind]
  rcases hresult : job.result w with ⟨answer, mid⟩
  rcases hresult' : job.result w' with ⟨answer', mid'⟩
  rw [hresult] at hfirst hafter hagain hend
  rw [hresult'] at hagain
  have hmid := hw.mono hfirst
  cases answer with
  | error stop =>
      have hlast : mid.disk = last := hend
      obtain ⟨rfl, htrails'⟩ := hagain (hlast ▸ Reworked.refl hmid.plain)
      exact ⟨rfl, htrails'⟩
  | ok a =>
      have hlast : Reworked free mid.disk last := hend ▸ hlater a mid hmid hafter
      obtain ⟨rfl, htrails'⟩ := hagain hlast
      exact (hf a).again mid mid' hmid hafter htrails' hend

theorem buildBelow_eq (c : Config) (source output : Path) :
    buildBelow c source output =
      say .build (source.text ++ " -> ".toList ++ output.text) >>= fun _ =>
      Visit.run ⟨source, output.isWithin, (passOf c source).take output⟩ {} >>= fun y =>
      copyVerbatim source output c.build.copyDirs >>= fun copied =>
      finish c output { y with copied := y.copied + copied } := by
  unfold buildBelow Pass.takeTree
  simp only [bind_assoc, pure_bind]
  rfl

/-- Once the output directory is there, a build repeats if its visit is steady. -/
theorem repeats_buildBelow (hout : Straight output) (hsource : Straight source)
    (hplace : ¬ output.place <+: source.place) (hext : '/' ∉ c.build.moduleExt)
    (hcopy : ∀ n ∈ c.build.copyDirs, Ordinary n) (hbundler : c.bundler.enable = false)
    (hrun : Steady output free last P
      (Visit.run ⟨source, output.isWithin, (passOf c source).take output⟩ {}))
    (hfree : ∀ q, Inside output.place q → free q) :
    Repeats output free last P (buildBelow c source output) := by
  rw [buildBelow_eq]
  refine Repeats.bind (Steady.say _ _) (fun _ => ?_) (fun _ hq => hq) fun _ _ hP => hP
  refine Repeats.bind (Q := fun _ => True) hrun (fun y => ?_) hfree fun _ _ _ => trivial
  refine Repeats.bind (Q := fun _ => True) (steady_copyVerbatim hout hsource hplace hcopy)
    (fun copied => ?_) (fun _ (hq : Beside output _) => hq.1) fun _ _ _ => trivial
  exact Repeats.of_steady (steady_finish hout hext hbundler _)

/-- A disk that trails its own end is the end. -/
theorem Trails.eq (htrails : Trails last last e) (hlast : last.Plain) : e = last := by
  have hroot : e.root = last.root := by
    apply Node.eq_of_seen_eq htrails.plain.tree hlast.tree
    intro q
    apply Node.seen_eq_of_kindAt_eq htrails.plain.tree hlast.tree (htrails.kinds q)
    rcases htrails.bytes q with heq | heq <;> exact heq
  obtain ⟨root, cwd⟩ := e
  obtain rfl : root = last.root := hroot
  obtain rfl : cwd = last.cwd := htrails.cwd
  rfl

/-- Whether the source of a build is a single template whose module would be written over it. -/
def OverwritesSource (c : Config) (source output : Path) (d : Disk) : Prop :=
  (d.root.bytesAt source.place).isSome ∧ source.extension? = some c.build.templateExt ∧
    ∃ dst, (passOf c source).outputPath (relativePath []) output = .ok dst ∧
      dst.place = source.place

/-- The visit of a source is steady, whether that is a directory or a single template. -/
theorem exists_steady_run (hout : Straight output) (hsource : Straight source)
    (hplace : ¬ output.place <+: source.place) (hext : c.build.moduleExt ≠ [])
    (hself : ¬ OverwritesSource c source output d) (last : Disk) :
    ∃ (free : Place → Prop) (P : Disk → Prop), (∀ q, Inside output.place q → free q) ∧ P d ∧
      Steady output free last P
        (Visit.run ⟨source, output.isWithin, (passOf c source).take output⟩ {}) := by
  by_cases hfile : d.root.kindAt source.place = some .file
  · refine ⟨_, _, fun _ => Or.inl, hfile, steady_run_of_file (passOf c source) hout hsource hplace
      hext fun dst htemplate hdst hover => hself ⟨?_, htemplate, dst, hdst, hover⟩⟩
    obtain ⟨m, hm, hkind⟩ := Option.map_eq_some_iff.1 hfile
    cases m with
    | file bytes => simp [Node.bytesAt, hm]
    | link _ => cases hkind
    | dir _ => cases hkind
    | sink => cases hkind
  · exact ⟨_, (·.root.kindAt source.place ≠ some .file), fun _ hq => hq, hfile,
      steady_run (passOf c source) hout hsource hplace fun _ h => h⟩

/-- A build of what the same build has left reports the same and leaves all as it is, unless its
source is a single template that its own module is written over. -/
theorem buildProject_again {w w' : Work} {report : Report} (hd : w.disk.Plain)
    (hsource : source.isAbsolute) (hsource' : source.sameSteps source.normalize)
    (hout : output.isAbsolute) (hout' : output.sameSteps output.normalize)
    (hvalid : c.validate = .ok ()) (hext : '/' ∉ c.build.moduleExt)
    (hcopy : ∀ n ∈ c.build.copyDirs, Ordinary n) (hbundler : c.bundler.enable = false)
    (hself : ¬ OverwritesSource c source output w.disk)
    (hrun : ((buildProject c source output).result w).1 = .ok report)
    (hagain : w'.disk = ((buildProject c source output).result w).2.disk) :
    ((buildProject c source output).result w').1 = .ok report ∧
      ((buildProject c source output).result w').2.disk = w'.disk := by
  have hstraight := Path.straight_of_normalize hsource hsource'
  have hstraight' := Path.straight_of_normalize hout hout'
  by_cases hwithin : output.isWithin source
  · rw [buildProject_eq, if_pos hwithin] at hrun
    cases hrun
  have hplace : ¬ output.place <+: source.place := fun hpre =>
    hwithin ((hstraight.isWithin_iff hstraight').2 hpre)
  have hmade := Disk.furnished_makeDirs hd hout
  rw [result_buildProject hwithin] at hrun hagain ⊢
  cases hanswer : (Disk.makeDirs output w.disk).1 with
  | error f =>
      rw [hanswer] at hrun
      cases hrun
  | ok u =>
      rw [hanswer] at hrun hagain
      dsimp only at hrun hagain
      have hstands := stands_of_makeDirs hd hout hanswer
      have hnil : output.place ≠ [] := fun hnil => hplace (hnil ▸ List.nil_prefix)
      have hready : Ready output (Disk.makeDirs output w.disk).2 :=
        ⟨hmade.plain, hstands.leads.resolve_right hnil⟩
      have hself' : ¬ OverwritesSource c source output (Disk.makeDirs output w.disk).2 := by
        rintro ⟨hthere, hover⟩
        rw [hmade.bytesAt] at hthere
        exact hself ⟨hthere, hover⟩
      obtain ⟨free, P, hfree, hP, hsteady⟩ := exists_steady_run hstraight' hstraight hplace
        (moduleExt_ne_nil hvalid) hself' w'.disk
      have hrepeats := repeats_buildBelow hstraight' hstraight hplace hext hcopy hbundler hsteady
        hfree
      have hgrows := hrepeats.grows { w with disk := (Disk.makeDirs output w.disk).2 } hready hP
      rw [← hagain] at hgrows
      have hthere := (hready.mono hgrows).leads.makeDirs hgrows.plain
      have htrails : Trails w'.disk (Disk.makeDirs output w.disk).2 w'.disk :=
        ⟨hgrows.plain, hgrows.cwd, fun _ => rfl, fun _ => Or.inr rfl⟩
      obtain ⟨hsame, htrails'⟩ := hrepeats.again { w with disk := (Disk.makeDirs output w.disk).2 } w'
        hready hP htrails hagain.symm
      rw [← hagain] at htrails'
      rw [hthere]
      exact ⟨hsame.trans hrun, htrails'.eq hgrows.plain⟩

/-- A project with a page, an asset, a template that is none, and a directory to be copied. -/
def mixedProject : Work where
  disk :=
    { root := .dir [("p".toList, .dir [("site".toList, .dir [
        ("assets".toList, .dir [("a.css".toList, .file "a".toUTF8)]),
        ("bad.pw".toList, .file "\x7b\x7d".toUTF8),
        ("pages".toList, .dir [
          ("logo.svg".toList, .file "<svg/>".toUTF8),
          ("page.pw".toList, .file "<p>home</p>".toUTF8)])])])]
      cwd := [] }

theorem buildProject_again_nested :
    Plain mixedProject.disk ∧ (copying "assets".toList).validate = .ok () ∧
      ∃ report after, (buildProject (copying "assets".toList) ⟨"/p/site".toList⟩
          ⟨"/p/site/.out".toList⟩).result mixedProject = (.ok report, after) ∧
        (report.transpiled = 1 ∧ report.copied = 2 ∧ report.failed.length = 1) ∧
        ¬ OverwritesSource (copying "assets".toList) ⟨"/p/site".toList⟩ ⟨"/p/site/.out".toList⟩
          mixedProject.disk ∧
        ((buildProject (copying "assets".toList) ⟨"/p/site".toList⟩
          ⟨"/p/site/.out".toList⟩).result after).1 = .ok report ∧
        ((buildProject (copying "assets".toList) ⟨"/p/site".toList⟩
          ⟨"/p/site/.out".toList⟩).result after).2.disk = after.disk := by
  have hplain : Plain mixedProject.disk := ⟨by decide, by decide⟩
  have hself : ¬ OverwritesSource (copying "assets".toList) ⟨"/p/site".toList⟩
      ⟨"/p/site/.out".toList⟩ mixedProject.disk := fun h => absurd h.1 (by decide)
  have hrun : ((buildProject (copying "assets".toList) ⟨"/p/site".toList⟩
      ⟨"/p/site/.out".toList⟩).result mixedProject).1.toOption.any (fun report =>
        report.transpiled = 1 ∧ report.copied = 2 ∧ report.failed.length = 1) := by
    decide +kernel
  refine ⟨hplain, rfl, ?_⟩
  rcases h : (buildProject (copying "assets".toList) ⟨"/p/site".toList⟩
    ⟨"/p/site/.out".toList⟩).result mixedProject with ⟨answer, after⟩
  rw [h] at hrun
  cases answer with
  | error stop => cases hrun
  | ok report =>
      have hfirst := congrArg Prod.fst h
      have hafter := congrArg (fun r => r.2.disk) h
      exact ⟨report, after, rfl, of_decide_eq_true hrun, hself,
        buildProject_again hplain (by decide) (by decide) (by decide) (by decide) rfl (by decide)
          (by decide) rfl hself hfirst hafter.symm⟩

/-- A configuration whose modules have an extension that ends like that of templates. -/
def endingAlike : Config :=
  { build := { moduleExt := "x.pw".toList, copyDirs := [] }, bundler := { enable := false } }

/-- A template alone, beside which an output directory is to stand. -/
def singleTemplate : Work where
  disk :=
    { root := .dir [("p".toList, .dir [("out.x.pw".toList, .file "<p>hi</p>".toUTF8)])]
      cwd := [] }

/-- A source that is a single template: its module is written over it, and is no template. -/
theorem buildProject_again_single :
    Plain singleTemplate.disk ∧ endingAlike.validate = .ok () ∧
      Path.sameSteps ⟨"/p/out.x.pw".toList⟩ (Path.normalize ⟨"/p/out.x.pw".toList⟩) ∧
      Path.sameSteps ⟨"/p/out".toList⟩ (Path.normalize ⟨"/p/out".toList⟩) ∧
      '/' ∉ endingAlike.build.moduleExt ∧
      (((buildProject endingAlike ⟨"/p/out.x.pw".toList⟩ ⟨"/p/out".toList⟩).result
        singleTemplate).1.toOption.map fun report =>
          (report.transpiled, report.failed.length)) = some (1, 0) ∧
      (((buildProject endingAlike ⟨"/p/out.x.pw".toList⟩ ⟨"/p/out".toList⟩).result
        ((buildProject endingAlike ⟨"/p/out.x.pw".toList⟩ ⟨"/p/out".toList⟩).result
          singleTemplate).2).1.toOption.map fun report =>
            (report.transpiled, report.failed.length)) = some (0, 1) := by
  refine ⟨⟨by decide, by decide⟩, rfl, by decide, by decide, by decide, ?_⟩
  decide +kernel

end Quire.Build
