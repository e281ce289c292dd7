import Quire.Proofs.Build.Meetings
import Quire.Proofs.Build.Reworking
import Quire.Proofs.Disk.Overlay

/-!
What the visit of a build makes: modules of templates and copies of the files that accompany pages.
Each meeting makes one of them or nothing, and the files at the end are those of the beginning with
what was made laid over them, in the order of the visit.
-/

namespace Quire.Build

open Disk (Place Plain IsName Write Overlaid)
open Quire.Path (Ordinary)

/-- What a visit made of a source, which is given by the names that lead to it. -/
inductive Product
  | module (names : List Text) (dst : Path) (text code : Text) (references : List Reference)
  | copy (names : List Text) (bytes : ByteArray)

namespace Product

/-- The names that lead to the source. -/
def names : Product → List Text
  | .module names _ _ _ _ => names
  | .copy names _ => names

/-- Whether it is the module of a template. -/
def isModule : Product → Bool
  | .module _ _ _ _ _ => true
  | .copy _ _ => false

/-- The references of its islands. -/
def references : Product → List Reference
  | .module _ _ _ _ references => references
  | .copy _ _ => []

/-- What was written. -/
def write (output : Path) : Product → Write
  | .module _ dst _ code _ => ⟨dst.place, code.toBytes⟩
  | .copy names bytes => ⟨(output.join (relativePath names)).place, bytes⟩

/-- Whether it is what the source asks for. -/
def Faithful (pass : Pass) (output : Path) : Product → Prop
  | .module names dst text code references =>
    (below pass.root names).extension? = some pass.ext.template ∧
      pass.outputPath (relativePath names) output = .ok dst ∧
      pass.outcomeOf (below pass.root names) text = .ok (.module code references)
  | .copy names _ =>
    (below pass.root names).extension? ≠ some pass.ext.template ∧ isRouted names

/-- Whether it was made of what the source holds. -/
def ReadFrom (pass : Pass) (d : Disk) : Product → Prop
  | .module names _ text _ _ => d.readText (below pass.root names) = .ok text
  | .copy names bytes => d.root.bytesAt (below pass.root names).place = some bytes

end Product

variable {d d' d'' : Disk} {w after : Work} {src dst output : Path} {n : Text} {names : List Text}
  {pass : Pass} {P : Disk → Prop} {y y' y'' : Yield}

/-- What came of some meetings: the products are right, they are all counted, and nothing else was
written. -/
structure Made (pass : Pass) (output : Path) (P : Disk → Prop) (made : List Product)
    (y y' : Yield) (d d' : Disk) : Prop where
  faithful : ∀ p ∈ made, p.Faithful pass output
  read : ∀ p ∈ made, ∃ e, P e ∧ p.ReadFrom pass e
  transpiled : y'.transpiled = y.transpiled + made.countP (·.isModule)
  copied : y'.copied = y.copied + made.countP (!·.isModule)
  references : y'.references = y.references ++ made.flatMap (·.references)
  overlaid : Overlaid (made.map (·.write output)) d d'

theorem Made.trans {a b : List Product} (h : Made pass output P a y y' d d')
    (h' : Made pass output P b y' y'' d' d'') : Made pass output P (a ++ b) y y'' d d'' where
  faithful p hp := (List.mem_append.1 hp).elim (h.faithful p) (h'.faithful p)
  read p hp := (List.mem_append.1 hp).elim (h.read p) (h'.read p)
  transpiled := by
    rw [h'.transpiled, h.transpiled, List.countP_append, Nat.add_assoc]
  copied := by
    rw [h'.copied, h.copied, List.countP_append, Nat.add_assoc]
  references := by
    rw [h'.references, h.references, List.flatMap_append, List.append_assoc]
  overlaid := by
    rw [List.map_append]
    exact h.overlaid.trans h'.overlaid

/-- Nothing was made where the counts and the references are the same. -/
theorem Made.none (hcounts : y'.transpiled = y.transpiled ∧ y'.copied = y.copied ∧
      y'.references = y.references)
    (h : Overlaid [] d d') : Made pass output P [] y y' d d' where
  faithful := by simp
  read := by simp
  transpiled := hcounts.1
  copied := hcounts.2.1
  references := by simp [hcounts.2.2]
  overlaid := h

theorem exists_text_of_outcome {outcome : Outcome} (h : pass.outcome d src = .ok outcome) :
    ∃ text, d.readText src = .ok text ∧ pass.outcomeOf src text = .ok outcome := by
  unfold Pass.outcome at h
  cases htext : d.readText src with
  | error e =>
      rw [htext] at h
      cases h
  | ok text =>
      rw [htext] at h
      exact ⟨text, rfl, h⟩

/-- A template that gives a module is written, once there are directories for it, and one that does
not adds directories at most. -/
theorem transpile_cases (hd : w.disk.Plain) {answer : Except Stop Outcome}
    (h : (pass.transpile src dst).result w = (answer, after)) :
    (∃ text code references mid, answer = .ok (.module code references) ∧
        w.disk.readText src = .ok text ∧
        pass.outcomeOf src text = .ok (.module code references) ∧
        Disk.Furnished w.disk mid ∧ mid.writeText dst code = .ok after.disk) ∨
      (∀ code references, answer ≠ .ok (.module code references)) ∧
        Disk.Furnished w.disk after.disk := by
  have hparents := furnished_makeParents hd dst
  unfold Pass.transpile at h
  simp only [Job.result_bind, Job.result_look, id, Job.result_lift] at h
  cases houtcome : pass.outcome w.disk src with
  | error e =>
      rw [houtcome] at h
      obtain ⟨rfl, rfl⟩ := Prod.mk.inj h
      exact Or.inr ⟨nofun, Disk.Furnished.refl hd⟩
  | ok outcome =>
      rw [houtcome] at h
      cases outcome with
      | clientOnly =>
          obtain ⟨rfl, rfl⟩ := Prod.mk.inj h
          exact Or.inr ⟨nofun, Disk.Furnished.refl hd⟩
      | module code references =>
          simp only [Job.result_bind, Job.result_change] at h
          rcases hmake : Disk.makeParents dst w.disk with ⟨made, mid⟩
          rw [hmake] at h hparents
          cases made with
          | error e =>
              obtain ⟨rfl, rfl⟩ := Prod.mk.inj h
              exact Or.inr ⟨nofun, hparents⟩
          | ok u =>
              simp only at h
              cases hwrite : mid.writeText dst code with
              | error e =>
                  rw [Disk.ofWhole_error hwrite] at h
                  obtain ⟨rfl, rfl⟩ := Prod.mk.inj h
                  exact Or.inr ⟨nofun, hparents⟩
              | ok last =>
                  rw [Disk.ofWhole_ok hwrite] at h
                  obtain ⟨rfl, rfl⟩ := Prod.mk.inj h
                  obtain ⟨text, htext, hof⟩ := exists_text_of_outcome houtcome
                  exact Or.inl ⟨text, code, references, mid, rfl, htext, hof, hparents, hwrite⟩

/-- A template that gives a module is written, and one that does not leaves the files as they
are. -/
theorem overlaid_transpile (hd : w.disk.Plain) (hp : dst.isAbsolute) {answer : Except Stop Outcome}
    (h : (pass.transpile src dst).result w = (answer, after)) :
    (∃ text code references, answer = .ok (.module code references) ∧
        w.disk.readText src = .ok text ∧
        pass.outcomeOf src text = .ok (.module code references) ∧
        Overlaid [⟨dst.place, code.toBytes⟩] w.disk after.disk) ∨
      (∀ code references, answer ≠ .ok (.module code references)) ∧
        Overlaid [] w.disk after.disk := by
  rcases transpile_cases hd h with
    ⟨text, code, references, mid, rfl, htext, hof, hroom, hwrite⟩ | ⟨hnone, hroom⟩
  · have hwrote := Disk.wrote_write hroom.plain hp hwrite
    exact Or.inl ⟨text, code, references, rfl, htext, hof,
      (Overlaid.of_furnished hroom).trans (Overlaid.of_wrote hroom.plain hwrote)⟩
  · exact Or.inr ⟨hnone, Overlaid.of_furnished hroom⟩

/-- A copy has the bytes of its source, if the two are not at one place. -/
theorem overlaid_copyInto {source : Path} {answer : Except Disk.Fault Unit} (hd : d.Plain)
    (hsource : source.isAbsolute) (hdst : dst.isAbsolute) (hne : source.place ≠ dst.place)
    (h : Disk.copyInto source dst d = (answer, d')) :
    (∃ bytes, answer = .ok () ∧ d.root.bytesAt source.place = some bytes ∧
        Overlaid [⟨dst.place, bytes⟩] d d') ∨
      (∃ e, answer = .error e) ∧ Overlaid [] d d' := by
  have hparents := furnished_makeParents hd dst
  unfold Disk.copyInto Disk.Change.andThen at h
  rcases hmake : Disk.makeParents dst d with ⟨made, mid⟩
  rw [hmake] at h hparents
  cases made with
  | error e =>
      obtain ⟨rfl, rfl⟩ := Prod.mk.inj h
      exact Or.inr ⟨⟨e, rfl⟩, Overlaid.of_furnished hparents⟩
  | ok u =>
      simp only at h
      cases hcopy : mid.copy source dst with
      | error e =>
          rw [Disk.ofWhole_error hcopy] at h
          obtain ⟨rfl, rfl⟩ := Prod.mk.inj h
          exact Or.inr ⟨⟨e, rfl⟩, Overlaid.of_furnished hparents⟩
      | ok last =>
          rw [Disk.ofWhole_ok hcopy] at h
          obtain ⟨rfl, rfl⟩ := Prod.mk.inj h
          obtain ⟨bytes, hbytes, hwrote⟩ := Disk.wrote_copy hparents.plain hsource hdst hcopy
          rw [if_neg hne] at hwrote
          rw [hparents.bytesAt] at hbytes
          exact Or.inl ⟨bytes, rfl, hbytes,
            (Overlaid.of_furnished hparents).trans (Overlaid.of_wrote hparents.plain hwrote)⟩

/-- What a meeting makes is of what is met. -/
def IsOf (names : List Text) (made : List Product) : Prop :=
  made = [] ∨ ∃ p, made = [p] ∧ p.names = names

section

variable (hd : w.disk.Plain) (hP : P w.disk) (hout : output.isAbsolute)
  (hroot : pass.root.isAbsolute) (hnames : ∀ n ∈ names, IsName n) (hne : names ≠ [])

include hd hP hout hnames hne

theorem exists_made_takeTemplate
    (hext : (below pass.root names).extension? = some pass.ext.template)
    (h : (pass.takeTemplate output y names).result w = (.ok y', after)) :
    ∃ made, Made pass output P made y y' w.disk after.disk ∧ IsOf names made := by
  unfold Pass.takeTemplate at h
  simp only [Job.result_bind, Job.result_lift] at h
  cases hdst : pass.outputPath (relativePath names) output with
  | error e => simp [hdst] at h
  | ok dst =>
      have habs : dst.isAbsolute := by
        obtain ⟨dir, n, rfl⟩ := (List.eq_nil_or_concat' names).resolve_left hne
        obtain ⟨_, rfl⟩ := outputPath_relativePath pass
          (fun m hm => (hnames m (List.mem_append_left [n] hm)).toOrdinary)
          (hnames n (by simp)).toOrdinary hdst
        exact Path.isAbsolute_child (isAbsolute_below hout dir) _
      simp only [hdst, Job.result_attempt] at h
      rcases hrun : (pass.transpile (below pass.root names) dst).result w with ⟨answer, mid⟩
      rw [hrun] at h
      rcases overlaid_transpile hd habs hrun with
        ⟨text, code, references, rfl, htext, hof, hmade⟩ | ⟨hno, hmade⟩
      · obtain ⟨hy, rfl⟩ := Prod.mk.inj h
        obtain rfl := Except.ok.inj hy
        refine ⟨[.module names dst text code references], ?_, Or.inr ⟨_, rfl, rfl⟩⟩
        refine ⟨?_, ?_, rfl, rfl, by simp [Product.references], hmade⟩
        · intro p hp
          rw [List.mem_singleton.1 hp]
          exact ⟨hext, hdst, hof⟩
        · intro p hp
          rw [List.mem_singleton.1 hp]
          exact ⟨w.disk, hP, htext⟩
      · -- nothing was written, and the yield at most counts it
        cases answer with
        | error stop =>
            cases stop with
            | badExtension ext => cases (Prod.mk.inj h).1
            | failure f =>
                obtain ⟨hy, rfl⟩ := Prod.mk.inj h
                obtain rfl := Except.ok.inj hy
                exact ⟨[], Made.none ⟨rfl, rfl, rfl⟩ hmade, Or.inl rfl⟩
        | ok outcome =>
            cases outcome with
            | module code references => exact absurd rfl (hno code references)
            | clientOnly =>
                obtain ⟨hy, rfl⟩ := Prod.mk.inj h
                obtain rfl := Except.ok.inj hy
                exact ⟨[], Made.none ⟨rfl, rfl, rfl⟩ hmade, Or.inl rfl⟩

include hroot

theorem exists_made_takeAsset
    (hext : (below pass.root names).extension? ≠ some pass.ext.template) (hrouted : isRouted names)
    (hinside : ¬ Inside output.place (below pass.root names).place)
    (h : (pass.takeAsset output y names).result w = (.ok y', after)) :
    ∃ made, Made pass output P made y y' w.disk after.disk ∧ IsOf names made := by
  have hdst : (output.join (relativePath names)).isAbsolute := Path.isAbsolute_join hout _
  have hplace : (below pass.root names).place ≠ (output.join (relativePath names)).place := by
    obtain ⟨dir, n, rfl⟩ := (List.eq_nil_or_concat' names).resolve_left hne
    have hdir : ∀ m ∈ dir, IsName m := fun m hm => hnames m (List.mem_append_left [n] hm)
    have hn : IsName n := hnames n (by simp)
    rw [join_relativePath hdir hn, Path.place_child (isAbsolute_below hout dir) hn.toOrdinary,
      place_below hout fun m hm => (hdir m hm).toOrdinary]
    intro heq
    rw [heq] at hinside
    exact hinside inside_append_concat
  unfold Pass.takeAsset at h
  simp only [Job.result_bind, Job.result_attempt, Job.result_change] at h
  rcases hcopy : Disk.copyInto (below pass.root names) (output.join (relativePath names)) w.disk with
    ⟨answer, d'⟩
  rw [hcopy] at h
  rcases overlaid_copyInto hd (isAbsolute_below hroot names) hdst hplace hcopy with
    ⟨bytes, rfl, hbytes, hmade⟩ | ⟨⟨e, rfl⟩, hmade⟩
  · obtain ⟨hy, rfl⟩ := Prod.mk.inj h
    obtain rfl := Except.ok.inj hy
    refine ⟨[.copy names bytes], ?_, Or.inr ⟨_, rfl, rfl⟩⟩
    refine ⟨?_, ?_, rfl, rfl, by simp [Product.references], hmade⟩
    · intro p hp
      rw [List.mem_singleton.1 hp]
      exact ⟨hext, hrouted⟩
    · intro p hp
      rw [List.mem_singleton.1 hp]
      exact ⟨w.disk, hP, hbytes⟩
  · obtain ⟨hy, rfl⟩ := Prod.mk.inj h
    obtain rfl := Except.ok.inj hy
    exact ⟨[], Made.none ⟨rfl, rfl, rfl⟩ hmade, Or.inl rfl⟩

end

/-- One meeting makes one product or nothing. -/
theorem exists_made_take {m : Met} (hd : w.disk.Plain) (hP : P w.disk) (hout : output.isAbsolute)
    (hroot : pass.root.isAbsolute) (hnames : ∀ n ∈ names, IsName n)
    (hm : m = .file → names ≠ [] ∧ ¬ Inside output.place (below pass.root names).place)
    (h : (pass.take output y names m).result w = (.ok y', after)) :
    ∃ made, Made pass output P made y y' w.disk after.disk ∧
      (made = [] ∨ m = .file ∧ ∃ p, made = [p] ∧ p.names = names) := by
  have hnone : y' = y ∧ after = w → ∃ made, Made pass output P made y y' w.disk after.disk ∧
      (made = [] ∨ m = .file ∧ ∃ p, made = [p] ∧ p.names = names) := by
    rintro ⟨rfl, rfl⟩
    exact ⟨[], Made.none ⟨rfl, rfl, rfl⟩ (Overlaid.refl _), Or.inl rfl⟩
  cases m with
  | unlisted e =>
      obtain ⟨hy, rfl⟩ := Prod.mk.inj h
      obtain rfl := Except.ok.inj hy
      exact ⟨[], Made.none ⟨rfl, rfl, rfl⟩ (Overlaid.refl _), Or.inl rfl⟩
  | file =>
      obtain ⟨hne, hinside⟩ := hm rfl
      unfold Pass.take at h
      simp only at h
      split at h
      · obtain ⟨hy, rfl⟩ := Prod.mk.inj h
        exact hnone ⟨(Except.ok.inj hy).symm, rfl⟩
      · split at h
        · next hext =>
            obtain ⟨made, hmade, hof⟩ := exists_made_takeTemplate hd hP hout hnames hne hext h
            exact ⟨made, hmade, hof.imp_right fun hone => ⟨rfl, hone⟩⟩
        · next hext =>
            split at h
            · next hrouted =>
                obtain ⟨made, hmade, hof⟩ :=
                  exists_made_takeAsset hd hP hout hroot hnames hne hext hrouted hinside h
                exact ⟨made, hmade, hof.imp_right fun hone => ⟨rfl, hone⟩⟩
            · obtain ⟨hy, rfl⟩ := Prod.mk.inj h
              exact hnone ⟨(Except.ok.inj hy).symm, rfl⟩

/-- What one meeting after the other makes is made in their order, of what is met. -/
theorem exists_made_meetAll (hhoused : Housed output P) (hroot : pass.root.isAbsolute)
    {met : List (List Text × Met)}
    (hmet : ∀ m ∈ met, Meetable P ⟨pass.root, output.isWithin, pass.take output⟩ [] m)
    (hP : P w.disk)
    (h : (meetAll ⟨pass.root, output.isWithin, pass.take output⟩ y met).result w =
      (.ok y', after)) :
    P after.disk ∧ ∃ made, Made pass output P made y y' w.disk after.disk ∧
      (made.map (·.names)).Sublist (met.map (·.1)) ∧ ∀ p ∈ made, (p.names, .file) ∈ met := by
  induction met generalizing y w with
  | nil =>
      obtain ⟨hy, rfl⟩ := Prod.mk.inj h
      obtain rfl := Except.ok.inj hy
      exact ⟨hP, [], Made.none ⟨rfl, rfl, rfl⟩ (Overlaid.refl _), List.Sublist.refl _, by simp⟩
  | cons m met ih =>
      obtain ⟨names, m⟩ := m
      have hmeet := hmet _ List.mem_cons_self
      have hfile : m = .file →
          names ≠ [] ∧ ¬ Inside output.place (below pass.root names).place := by
        intro hm
        obtain ⟨hne, hskip, _⟩ := hmeet.file hm
        exact ⟨hne, not_inside_of_not_isWithin hhoused.isAbsolute
          (isAbsolute_below hroot names) hskip⟩
      have hkeeps := hhoused.take pass hroot y m hmeet.isName fun hm => (hfile hm).1
      have hP' := hkeeps w hP
      rw [← List.singleton_append, result_meetAll_append, result_meetAll_singleton] at h
      simp only at h
      rcases hstep : (pass.take output y names m).result w with ⟨answer, mid⟩
      rw [hstep] at h hP'
      cases answer with
      | error e => cases (Prod.mk.inj h).1
      | ok t =>
          obtain ⟨first, hfirst, hof⟩ := exists_made_take (hhoused.plain _ hP) hP
            hhoused.isAbsolute hroot hmeet.isName hfile hstep
          obtain ⟨hlast, rest, hrest, hsub, hmem⟩ :=
            ih (fun m' hm' => hmet m' (List.mem_cons_of_mem _ hm')) hP' h
          refine ⟨hlast, first ++ rest, hfirst.trans hrest, ?_, ?_⟩
          · rcases hof with rfl | ⟨_, p, rfl, rfl⟩
            · exact hsub.cons _
            · exact hsub.cons_cons _
          · intro p hp
            rcases List.mem_append.1 hp with hp | hp
            · rcases hof with rfl | ⟨rfl, p', rfl, rfl⟩
              · cases hp
              · rw [List.mem_singleton.1 hp]
                exact List.mem_cons_self
            · exact List.mem_cons_of_mem _ (hmem p hp)

/-- What a visit makes: at most one product of each source, in the order of the names. -/
theorem exists_made_run (hhoused : Housed output P) (hroot : pass.root.isAbsolute)
    (hfile : w.disk.root.bytesAt pass.root.place = none) (hP : P w.disk)
    (h : (Visit.run ⟨pass.root, output.isWithin, pass.take output⟩ y).result w = (.ok y', after)) :
    P after.disk ∧ ∃ made, Made pass output P made y y' w.disk after.disk ∧
      (made.Pairwise fun a b => a.names < b.names) ∧
        ∀ p ∈ made,
          Meetable P ⟨pass.root, output.isWithin, pass.take output⟩ [] (p.names, .file) := by
  obtain ⟨met, hmet, hordered, hmeetable⟩ := exists_met_run
    (v := ⟨pass.root, output.isWithin, pass.take output⟩) hhoused.plain
    (fun s names m hnames hm => hhoused.take pass hroot s m hnames hm) hroot hfile y hP
  rw [hmet] at h
  obtain ⟨hlast, made, hmade, hsub, hmem⟩ := exists_made_meetAll hhoused hroot hmeetable hP h
  have hbefore : (made.map (·.names)).Pairwise (· < ·) := (List.pairwise_map.2 hordered).sublist hsub
  exact ⟨hlast, made, hmade, List.pairwise_map.1 hbefore, fun p hp => hmeetable _ (hmem p hp)⟩

end Quire.Build
