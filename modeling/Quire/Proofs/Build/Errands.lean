import Quire.Proofs.Build.Fates
import Quire.Proofs.Build.Identity
import Quire.Proofs.Template.Closure

/-!
Errands: one source after the other is transpiled, in memory or into a file, and their references
are listed. An errand is done entirely or not at all, so the list grows at its end only, by the
references of what was done. Main statement: `all_or_nothing`.
-/

namespace Quire.Build

open Disk (Plain Furnished)

variable {pass : Pass} {src : Path} {text code : Text} {references listed listed' : List Reference}
  {d d' : Disk} {w : Work} {e : Errand} {answer : Except Failure Outcome}

/-- The references of a source are one for each component that it leaves to the browser, in the
order of its body. They are numbered from zero on, and each is made from the one import of its
name. -/
structure Refers (pass : Pass) (src : Path) (s : Template.Source) (references : List Reference) :
    Prop where
  names : references.map (·.name) = s.pieces.filterMap Template.clientUse?
  ids : references.map (·.id) =
    Template.islandIds (Template.idStem (pass.moduleId src)) references.length
  made : ∀ r ∈ references, ∃ path, ⟨r.name, path⟩ ∈ s.imports ∧
    (∀ i ∈ s.imports, i.name = r.name → i = ⟨r.name, path⟩) ∧
    pass.reference (pass.dirOf src) ⟨r.id, r.name, path⟩ = .ok r

/-- The path of an island is that of the one import of its name. -/
theorem declared_of_mem_bodyIslands {s : Template.Source} {stem : Text} {n : Nat}
    {i : Template.Island} (hread : Template.read text = .ok s)
    (hi : i ∈ Template.bodyIslands stem s.imports n s.pieces) :
    ⟨i.name, i.path⟩ ∈ s.imports ∧ ∀ j ∈ s.imports, j.name = i.name → j = ⟨i.name, i.path⟩ := by
  obtain ⟨attributes, hpiece, hpath⟩ := Template.name_of_mem_bodyIslands hi
  cases Template.sound_of_read hread _ hpiece with
  | component himport =>
      rw [hpath]
      exact Template.eq_of_declaredPath (Template.imports_of_read hread).1 himport

/-- What a source gives that gives a module. -/
theorem refers_of_outcomeOf (h : pass.outcomeOf src text = .ok (.module code references)) :
    ∃ s, Template.read text = .ok s ∧
      code = (Template.generate pass.ext (pass.moduleId src) s.imports s.pieces).code ∧
      Refers pass src s references := by
  obtain ⟨made, hcompile, rfl, hmap⟩ := compiled_of_outcomeOf h
  obtain ⟨s, hread, rfl⟩ := Template.map_eq_ok_iff.1 hcompile
  have hall := forall₂_of_mapM_ok hmap
  refine ⟨s, hread, rfl, ⟨?_, ids_of_outcomeOf h, fun r hr => ?_⟩⟩
  · rw [(ids_names_of_mapM_reference hmap).2]
    exact Template.names_bodyIslands _ _ _ _
  · obtain ⟨n, hn, rfl⟩ := List.getElem_of_mem hr
    have hmade := (List.forall₂_iff_get.1 hall).2 n (hall.length_eq ▸ hn) hn
    obtain ⟨hid, hname⟩ := id_name_of_reference hmade
    obtain ⟨himport, hone⟩ := declared_of_mem_bodyIslands hread (List.get_mem _ _)
    rw [List.get_eq_getElem] at hid hname
    rw [hid, hname]
    exact ⟨_, himport, hone, hmade⟩

/-- What is done: the source was read and its code is in the file, where what is written is kept, and
in no other place a file came, went or changed. -/
structure Errand.Done (e : Errand) (d d' : Disk) (code : Text) (references : List Reference) :
    Prop where
  source : ∃ text s, d.readText e.src = .ok text ∧ Template.read text = .ok s ∧
    code = (Template.generate e.pass.ext (e.pass.moduleId e.src) s.imports s.pieces).code ∧
    Refers e.pass e.src s references
  written : ∀ dst ∈ e.dst, d.Takes (d.placeOf dst) → d'.read dst = .ok code.toBytes
  kept : ∀ place, (∀ dst ∈ e.dst, place ≠ d.placeOf dst) →
    d'.root.bytesAt place = d.root.bytesAt place

/-- Why an errand fails: its source gives nothing, or the disk does not take what it gives. -/
inductive Errand.Fails (e : Errand) (d : Disk) : Failure → Prop
  | source {cause : Failure} (h : e.pass.outcome d e.src = .error (.failure cause)) :
      Fails e d cause
  | unwritten {dst at' : Path} {code : Text} {references : List Reference} {fault : Disk.Fault}
      (hdst : e.dst = some dst)
      (houtcome : e.pass.outcome d e.src = .ok (.module code references))
      (hwritten : writable dst code d = .error (at', fault)) :
      Fails e d (.source (.disk at' fault))

/-- What an errand comes to: all that it is for, or no change to any file and to the list. -/
inductive Errand.Effect (e : Errand) (d : Disk) (listed : List Reference) (d' : Disk) :
    Except Failure Outcome → List Reference → Prop
  | failed {cause : Failure} (hwhy : e.Fails d cause)
      (h : ∀ place, d'.root.bytesAt place = d.root.bytesAt place) :
      Effect e d listed d' (.error cause) listed
  | clientOnly (hwhy : e.pass.outcome d e.src = .ok .clientOnly)
      (h : ∀ place, d'.root.bytesAt place = d.root.bytesAt place) :
      Effect e d listed d' (.ok .clientOnly) listed
  | done {code : Text} {references : List Reference} (h : e.Done d d' code references) :
      Effect e d listed d' (.ok (.module code references)) (listed ++ references)

theorem done_of_write {mid : Disk} {dst : Path} (hdst : e.dst = some dst)
    (htext : d.readText e.src = .ok text)
    (houtcome : e.pass.outcomeOf e.src text = .ok (.module code references))
    (hroom : Furnished d mid) (hwrite : mid.writeText dst code = .ok d') :
    e.Done d d' code references := by
  have hplace : mid.placeOf dst = d.placeOf dst := by rw [Disk.placeOf, hroom.cwd, Disk.placeOf]
  have hwrote := hroom.plain.wrote_write hwrite
  obtain ⟨s, hread, hcode, hrefers⟩ := refers_of_outcomeOf houtcome
  refine ⟨⟨text, s, htext, hread, hcode, hrefers⟩, fun p hp hdevice => ?_, fun place hne => ?_⟩
  · obtain rfl : dst = p := Option.some.inj (hdst.symm.trans hp)
    refine hroom.plain.read_write hwrite ?_
    rw [hplace]
    exact (Disk.Overlaid.of_furnished hroom).takes hdevice
  · rw [hwrote.bytesAt, if_neg fun h => hne dst hdst (h.1.trans hplace), hroom.bytesAt]

theorem done_of_outcome (hdst : e.dst = none)
    (houtcome : e.pass.outcome d e.src = .ok (.module code references)) :
    e.Done d d code references := by
  obtain ⟨text, htext, hof⟩ := exists_text_of_outcome houtcome
  obtain ⟨s, hread, hcode, hrefers⟩ := refers_of_outcomeOf hof
  exact ⟨⟨text, s, htext, hread, hcode, hrefers⟩, by simp [hdst], fun _ _ => rfl⟩

theorem result_run_ok {outcome : Outcome} {after : Work}
    (h : e.job.result w = (.ok outcome, after)) (listed : List Reference) :
    (e.run listed).result w = (.ok (.ok outcome, listed ++ outcome.references), after) := by
  rw [Errand.run, Job.result_bind, Job.result_attempt, h]
  rfl

theorem result_run_error {f : Failure} {after : Work}
    (h : e.job.result w = (.error (.failure f), after)) (listed : List Reference) :
    (e.run listed).result w = (.ok (.error f, listed), after) := by
  rw [Errand.run, Job.result_bind, Job.result_attempt, h]
  rfl

theorem outcome_of_transpile {dst : Path} {outcome : Outcome}
    (h : ((pass.transpile src dst).result w).1 = .ok outcome) :
    pass.outcome w.disk src = .ok outcome := by
  rw [answer_transpile] at h
  cases houtcome : pass.outcome w.disk src with
  | error stop => simp [houtcome] at h
  | ok found =>
      rw [houtcome] at h
      cases found with
      | clientOnly => exact h
      | module code references =>
          dsimp only at h
          split at h
          · cases h
          · exact h

theorem fails_of_transpile {dst : Path} {stop : Stop} (hext : '/' ∉ e.pass.ext.module)
    (hdst : e.dst = some dst) (h : ((e.pass.transpile e.src dst).result w).1 = .error stop) :
    ∃ cause, stop = .failure cause ∧ e.Fails w.disk cause := by
  rw [answer_transpile] at h
  cases houtcome : e.pass.outcome w.disk e.src with
  | error found =>
      obtain ⟨cause, rfl⟩ := exists_failure_of_outcome hext houtcome
      rw [houtcome] at h
      exact ⟨cause, (Except.error.inj h).symm, .source houtcome⟩
  | ok found =>
      rw [houtcome] at h
      cases found with
      | clientOnly => cases h
      | module code references =>
          dsimp only at h
          split at h
          · next hwritten => exact ⟨_, (Except.error.inj h).symm, .unwritten hdst houtcome hwritten⟩
          · cases h

/-- What the job of an errand leaves, whatever it answers. -/
structure Errand.Leaves (e : Errand) (d d' : Disk) (answer : Except Stop Outcome) : Prop where
  plain : d'.Plain
  fails : ∀ stop, answer = .error stop → ∃ cause, stop = .failure cause ∧ e.Fails d cause
  clientOnly : answer = .ok .clientOnly → e.pass.outcome d e.src = .ok .clientOnly
  done : ∀ code references, answer = .ok (.module code references) → e.Done d d' code references
  kept : (∀ code references, answer ≠ .ok (.module code references)) →
    ∀ place, d'.root.bytesAt place = d.root.bytesAt place

theorem leaves_of_outcome (hd : d.Plain) (hext : '/' ∉ e.pass.ext.module) (hdst : e.dst = none) :
    e.Leaves d d (e.pass.outcome d e.src) where
  plain := hd
  fails stop h := by
    obtain ⟨cause, rfl⟩ := exists_failure_of_outcome hext h
    exact ⟨cause, rfl, .source h⟩
  clientOnly h := h
  done _ _ := done_of_outcome hdst
  kept _ _ := rfl

theorem leaves_of_transpile {dst : Path} (hd : w.disk.Plain) (hext : '/' ∉ e.pass.ext.module)
    (hdst : e.dst = some dst) {answer : Except Stop Outcome} {after : Work}
    (h : (e.pass.transpile e.src dst).result w = (answer, after)) :
    e.Leaves w.disk after.disk answer := by
  have hanswer : ((e.pass.transpile e.src dst).result w).1 = answer := congrArg Prod.fst h
  have hfails : ∀ stop, answer = .error stop → ∃ cause, stop = .failure cause ∧
      e.Fails w.disk cause := fun stop hstop =>
    fails_of_transpile hext hdst (hanswer.trans hstop)
  have honly : answer = .ok .clientOnly → e.pass.outcome w.disk e.src = .ok .clientOnly :=
    fun hok => outcome_of_transpile (hanswer.trans hok)
  rcases transpile_cases hd h with
    ⟨text, code, references, mid, rfl, htext, houtcome, hroom, hwrite⟩ | ⟨hnone, hroom⟩
  · refine ⟨(hroom.plain.wrote_write hwrite).plain, hfails, honly,
      fun code' references' hmade => ?_, fun hnone => absurd rfl (hnone code references)⟩
    obtain ⟨rfl, rfl⟩ := Outcome.module.inj (Except.ok.inj hmade)
    exact done_of_write hdst htext houtcome hroom hwrite
  · exact ⟨hroom.plain, hfails, honly,
      fun code references hmade => absurd hmade (hnone code references), fun _ => hroom.bytesAt⟩

/-- An errand is done entirely or not at all. -/
theorem exists_effect_run (hd : w.disk.Plain) (hext : '/' ∉ e.pass.ext.module)
    (listed : List Reference) :
    ∃ answer listed' after, (e.run listed).result w = (.ok (answer, listed'), after) ∧
      after.disk.Plain ∧ e.Effect w.disk listed after.disk answer listed' := by
  rcases hjob : e.job.result w with ⟨answer, after⟩
  have hleaves : e.Leaves w.disk after.disk answer := by
    cases hdst : e.dst with
    | none =>
        simp only [Errand.job, hdst, Job.result_bind, Job.result_look, id, Job.result_lift] at hjob
        obtain ⟨rfl, rfl⟩ := Prod.mk.inj hjob
        exact leaves_of_outcome hd hext hdst
    | some dst =>
        simp only [Errand.job, hdst] at hjob
        exact leaves_of_transpile hd hext hdst hjob
  cases answer with
  | error stop =>
      obtain ⟨cause, rfl, hwhy⟩ := hleaves.fails stop rfl
      exact ⟨_, _, _, result_run_error hjob listed, hleaves.plain,
        .failed hwhy (hleaves.kept nofun)⟩
  | ok outcome =>
      refine ⟨_, _, _, result_run_ok hjob listed, hleaves.plain, ?_⟩
      cases outcome with
      | clientOnly =>
          rw [Outcome.references, List.append_nil]
          exact .clientOnly (hleaves.clientOnly rfl) (hleaves.kept nofun)
      | module code references => exact .done (hleaves.done code references rfl)

/-! One errand after the other. -/

/-- Runs errands one after the other, whatever they come to. -/
def runAll : List Errand → List Reference → Job (List (Except Failure Outcome) × List Reference)
  | [], listed => return ([], listed)
  | e :: rest, listed => do
    let (answer, between) ← e.run listed
    let (answers, listed') ← runAll rest between
    return (answer :: answers, listed')

/-- The references that an answer adds to the list. -/
def gains : Except Failure Outcome → List Reference
  | .ok outcome => outcome.references
  | .error _ => []

/-- Errands with their answers, each with its effect on what those before it left. -/
inductive Ran : Disk → List Reference → List (Errand × Except Failure Outcome) → Disk →
    List Reference → Prop
  | nil (d : Disk) (listed : List Reference) : Ran d listed [] d listed
  | cons {e : Errand} {answer : Except Failure Outcome} {d mid d' : Disk}
      {listed between listed' : List Reference} {rest : List (Errand × Except Failure Outcome)}
      (heffect : e.Effect d listed mid answer between) (hrest : Ran mid between rest d' listed') :
      Ran d listed ((e, answer) :: rest) d' listed'

theorem Errand.Effect.listed_eq (h : e.Effect d listed d' answer listed') :
    listed' = listed ++ gains answer := by
  cases h with
  | failed => exact (List.append_nil listed).symm
  | clientOnly => exact (List.append_nil listed).symm
  | done => rfl

/-- The list grows at its end, by what the answers add. -/
theorem Ran.listed_eq {runs : List (Errand × Except Failure Outcome)}
    (h : Ran d listed runs d' listed') : listed' = listed ++ runs.flatMap (gains ·.2) := by
  induction h with
  | nil => exact (List.append_nil _).symm
  | cons heffect _ ih => rw [ih, heffect.listed_eq, List.flatMap_cons, List.append_assoc]

theorem exists_ran_runAll {es : List Errand} (hd : w.disk.Plain)
    (hext : ∀ e ∈ es, '/' ∉ e.pass.ext.module) (listed : List Reference) :
    ∃ answers listed' after, (runAll es listed).result w = (.ok (answers, listed'), after) ∧
      answers.length = es.length ∧ Ran w.disk listed (es.zip answers) after.disk listed' := by
  induction es generalizing w listed with
  | nil => exact ⟨[], listed, w, rfl, rfl, .nil _ _⟩
  | cons e es ih =>
      -- whatever the first comes to, it leaves a plain disk to the others
      obtain ⟨answer, between, mid, hrun, hmid, heffect⟩ :=
        exists_effect_run hd (hext e List.mem_cons_self) listed
      obtain ⟨answers, listed', after, hruns, hlength, hran⟩ :=
        ih hmid (fun e he => hext e (List.mem_cons_of_mem _ he)) between
      refine ⟨answer :: answers, listed', after, ?_, congrArg (· + 1) hlength,
        .cons heffect hran⟩
      rw [runAll, Job.result_bind, hrun]
      dsimp only
      rw [Job.result_bind, hruns]
      rfl

/-- An errand is done entirely, or no file and no reference comes of it; so whatever errands are run
one after the other, the list of references only grows at its end, and what fails adds nothing. -/
theorem all_or_nothing :
    (∀ (e : Errand) (listed : List Reference) (w : Work), w.disk.Plain →
      '/' ∉ e.pass.ext.module → ∃ answer listed' after,
        (e.run listed).result w = (.ok (answer, listed'), after) ∧
          e.Effect w.disk listed after.disk answer listed') ∧
    ∀ (es : List Errand) (listed : List Reference) (w : Work), w.disk.Plain →
      (∀ e ∈ es, '/' ∉ e.pass.ext.module) → ∃ answers listed' after,
        (runAll es listed).result w = (.ok (answers, listed'), after) ∧
          answers.length = es.length ∧ Ran w.disk listed (es.zip answers) after.disk listed' ∧
          listed' = listed ++ answers.flatMap gains := by
  refine ⟨fun e listed w hd hext => ?_, fun es listed w hd hext => ?_⟩
  · obtain ⟨answer, listed', after, hrun, -, heffect⟩ := exists_effect_run hd hext listed
    exact ⟨answer, listed', after, hrun, heffect⟩
  · obtain ⟨answers, listed', after, hrun, hlength, hran⟩ := exists_ran_runAll hd hext listed
    refine ⟨answers, listed', after, hrun, hlength, hran, ?_⟩
    have hanswers : (es.zip answers).map Prod.snd = answers := List.map_snd_zip hlength.le
    rw [hran.listed_eq, ← hanswers, List.flatMap_map, hanswers]

/-- Two errands into a directory that is still to be made. The first fails, and the reference of the
second is the only one that is listed. -/
theorem all_or_nothing_two :
    Plain (twoIslands "x.pw".toList "y.pw".toList).disk ∧
      ∃ answers listed' after, (runAll
          [⟨sitePass, ⟨"/p/site/lost.pw".toList⟩, some ⟨"out/lost.js".toList⟩⟩,
            ⟨sitePass, ⟨"/p/site/x.pw".toList⟩, some ⟨"out/x.js".toList⟩⟩] []).result
          (twoIslands "x.pw".toList "y.pw".toList) = (.ok (answers, listed'), after) ∧
        listed'.map (·.name) = ["C".toList] ∧ listed' = answers.flatMap gains := by
  have hplain : Plain (twoIslands "x.pw".toList "y.pw".toList).disk := ⟨by decide, by decide⟩
  have hnames : ((runAll
      [⟨sitePass, ⟨"/p/site/lost.pw".toList⟩, some ⟨"out/lost.js".toList⟩⟩,
        ⟨sitePass, ⟨"/p/site/x.pw".toList⟩, some ⟨"out/x.js".toList⟩⟩] []).result
      (twoIslands "x.pw".toList "y.pw".toList)).1.toOption.any
        (fun r => r.2.map (·.name) = ["C".toList]) := by
    decide +kernel
  obtain ⟨answers, listed', after, hrun, -, -, hlisted⟩ := all_or_nothing.2
    [⟨sitePass, ⟨"/p/site/lost.pw".toList⟩, some ⟨"out/lost.js".toList⟩⟩,
      ⟨sitePass, ⟨"/p/site/x.pw".toList⟩, some ⟨"out/x.js".toList⟩⟩] []
    (twoIslands "x.pw".toList "y.pw".toList) hplain (by decide)
  rw [hrun] at hnames
  exact ⟨hplain, answers, listed', after, hrun, of_decide_eq_true hnames, hlisted⟩

end Quire.Build
