import Quire.Proofs.Build.Delivery
import Quire.Proofs.Build.Fates
import Quire.Proofs.Build.Touring

/-!
The account of a build's visit. Every file below the source that is not within the output is found
exactly once, in the order of the names, whatever fails on the way; the counts, the failures and the
references of the yield are those of the findings.
-/

namespace Quire.Build

open Disk (Place Plain IsName IsLong Leads Node)

variable {d e : Disk} {w : Work} {pass : Pass} {output : Path} {names : List Text} {y : Yield}
  {found : List Finding} {met : List (List Text × Met)}

/-- The visit of a pass. -/
def Pass.visit (p : Pass) (output : Path) : Visit Yield := ⟨p.root, output.isWithin, p.take output⟩

/-- What is below something within a directory is within it. -/
theorem isWithin_below_append {dir root : Path} {x z : List Text} (hdir : dir.isAbsolute)
    (hroot : root.isAbsolute) (hnames : ∀ n ∈ x ++ z, IsName n)
    (h : dir.isWithin (below root x)) : dir.isWithin (below root (x ++ z)) := by
  cases z with
  | nil => rwa [List.append_nil]
  | cons n z =>
      have hpre := Path.place_isPrefix_of_isWithin hdir (isAbsolute_below hroot x) h
      have hx : ∀ m ∈ x, IsName m := fun m hm => hnames m (List.mem_append_left _ hm)
      rw [place_below hroot (ordinary_of_isName hx)] at hpre
      have hplace := place_below hroot (ordinary_of_isName hnames)
      obtain ⟨rest, hrest⟩ := hpre
      refine isWithin_of_inside hdir (isAbsolute_below hroot _) ?_
      rw [hplace, ← List.append_assoc, ← hrest, List.append_assoc]
      exact inside_append (by simp)

/-- The visit of a pass is never stopped. -/
theorem unhindered_visit (hd : d.Plain) (hroot : pass.root.isAbsolute) (hout : output.isAbsolute)
    (hdir : d.isDir pass.root) (hext : '/' ∉ pass.ext.module) :
    Unhindered (pass.visit output) d (Inside output.place) where
  plain := hd
  leads := Disk.leads_of_isDir hd hroot hdir
  avoids x _ hnames hfree := by
    by_contra hskip
    refine not_inside_of_not_isWithin hout (isAbsolute_below hroot x) hskip ?_
    rw [place_below hroot (ordinary_of_isName hnames)]
    exact hfree
  skips_append x z _ hnames hskip := isWithin_below_append hout hroot hnames hskip
  meets y x m w hw hnames hne := by
    have hconfined := (housed_confined hout (fun _ h => h) w.disk).take pass hroot y m hnames hne w
      (Confined.refl hw)
    obtain ⟨fate, hfate, _⟩ := ends_take output m (fun _ _ => hext)
      (fun _ _ => (rfl : pass.outcome w.disk (below pass.root x) = _)) y
    exact ⟨_, _, Prod.ext hfate rfl, hconfined⟩

/-- What a template gives does not depend on what was written before it is met. -/
theorem outcome_of_confined (hd : d.Plain) (hleads : Leads d pass.root) (hout : output.isAbsolute)
    (hdue : Due (pass.visit output) d names) (hw : Confined (Inside output.place) d e) :
    pass.outcome e (below pass.root names) = pass.outcome d (below pass.root names) := by
  have hnames : ∀ n ∈ names, IsName n := isName_of_kindAt hd (by rw [hdue.file]; rfl)
  have hinside := not_inside_of_not_isWithin hout (isAbsolute_below hleads.isAbsolute names)
    hdue.skips
  rw [place_below hleads.isAbsolute (ordinary_of_isName hnames)] at hinside
  obtain ⟨bytes, hbytes⟩ := Node.kindAt_file_iff.1 hdue.file
  have hread := readText_below hd hw.plain hleads (hleads.of_kinds hw.kinds) hnames hdue.ne_nil
    hbytes ((hw.bytes _ hinside).trans hbytes)
  unfold Pass.outcome
  rw [hread]

/-- One meeting after the other comes to an end, and all are added to the yield. What each meeting
keeps of the findings so far and the disk of the moment is kept to the end. -/
theorem exists_found_keeping {P : List Finding → Disk → Prop} (hd : d.Plain)
    (hleads : Leads d pass.root) (hout : output.isAbsolute) (hext : '/' ∉ pass.ext.module)
    (hmet : ∀ m ∈ met, (∀ n ∈ m.1, IsName n) ∧ (m.2 = .file → Due (pass.visit output) d m.1))
    (hstep : ∀ before f y w after, Confined (Inside output.place) d w.disk → P before w.disk →
      (f.names, f.met) ∈ met → Ends pass output d w.disk f.names f.met f.fate →
      (pass.take output y f.names f.met).result w = (.ok (y.add pass.root f), after) →
      P (before ++ [f]) after.disk)
    (before : List Finding) (y : Yield) (hw : Confined (Inside output.place) d w.disk)
    (hP : P before w.disk) :
    ∃ found y' after, (meetAll (pass.visit output) y met).result w = (.ok y', after) ∧
      Tally pass.root found y y' ∧ found.map (fun f => (f.names, f.met)) = met ∧
      (∀ f ∈ found, ∃ e, Confined (Inside output.place) d e ∧
        Ends pass output d e f.names f.met f.fate) ∧ P (before ++ found) after.disk := by
  induction met generalizing y w before with
  | nil => exact ⟨[], y, w, rfl, Tally.nil _ _, rfl, by simp, by rwa [List.append_nil]⟩
  | cons m met ih =>
      obtain ⟨names, m⟩ := m
      obtain ⟨hnames, hdue⟩ := hmet _ List.mem_cons_self
      have hconfined := (housed_confined hout (fun _ h => h) d).take pass hleads.isAbsolute y m
        hnames (fun hfile => (hdue hfile).ne_nil) w hw
      obtain ⟨fate, hfate, hends⟩ := ends_take output m (fun _ _ => hext)
        (fun hfile _ => outcome_of_confined hd hleads hout (hdue hfile) hw) y
      rcases hmeet : (pass.take output y names m).result w with ⟨answer, mid⟩
      rw [hmeet] at hfate hconfined
      simp only at hfate hconfined
      subst hfate
      have hmid := hstep before ⟨names, m, fate⟩ y w mid hw hP List.mem_cons_self hends hmeet
      obtain ⟨found, y', after, hrest, htally, hmap, hall, hafter⟩ :=
        ih (fun m' hm' => hmet m' (List.mem_cons_of_mem _ hm'))
          (fun before f y w after hw hP hf =>
            hstep before f y w after hw hP (List.mem_cons_of_mem _ hf))
          (before ++ [⟨names, m, fate⟩]) (y.add pass.root ⟨names, m, fate⟩) hconfined hmid
      have hstep : ((pass.visit output).meet y names m).result w =
          (.ok (y.add pass.root ⟨names, m, fate⟩), mid) := hmeet
      refine ⟨⟨names, m, fate⟩ :: found, y', after, ?_, (Tally.single _ _ _).trans htally, ?_,
        ?_, by rwa [List.append_assoc] at hafter⟩
      · rw [← List.singleton_append, result_meetAll_append, result_meetAll_singleton, hstep]
        exact hrest
      · rw [List.map_cons, hmap]
      · intro f hf
        rcases List.mem_cons.1 hf with rfl | hf
        · exact ⟨w.disk, hw, hends⟩
        · exact hall f hf

/-- The account of a visit: what was found, each thing once and in the order of the names, and how
it adds up. Every file that is not within the output, and whose directory does not have too long a
path, is found; so is every directory with the first too long path on the way down. -/
structure Accounted (pass : Pass) (output : Path) (d : Disk) (found : List Finding) (y : Yield) :
    Prop where
  ordered : found.Pairwise fun a b => a.names < b.names
  isName : ∀ f ∈ found, ∀ n ∈ f.names, IsName n
  file : ∀ names, (∃ f ∈ found, f.names = names ∧ f.met = .file) ↔
    Due (pass.visit output) d names
  unlisted : ∀ f ∈ found, ∀ fault, f.met = .unlisted fault →
    fault = .nameTooLong ∧ Overlong (pass.visit output) f.names
  overlong : ∀ names, Overlong (pass.visit output) names →
    d.root.kindAt (pass.root.place ++ names) = some .dir →
    ∃ f ∈ found, f.names = names ∧ f.met = .unlisted .nameTooLong
  ends : ∀ f ∈ found, ∃ e, Confined (Inside output.place) d e ∧
    Ends pass output d e f.names f.met f.fate
  template : ∀ f ∈ found, f.met = .file → pass.Compiles f.names →
    f.fate.isTranspiled ∨ f.fate.isClientOnly ∨ f.fate.failure?.isSome
  asset : ∀ f ∈ found, f.met = .file → pass.Carries f.names →
    f.fate.isCopied ∨ f.fate.failure?.isSome
  other : ∀ f ∈ found, f.met = .file → ¬ pass.Compiles f.names → ¬ pass.Carries f.names →
    f.fate = .passed
  transpiled : y.transpiled = found.countP (·.fate.isTranspiled)
  clientOnly : y.clientOnly = found.countP (·.fate.isClientOnly)
  copied : y.copied = found.countP (·.fate.isCopied)
  failed : y.failed = found.filterMap (·.failure? pass.root)
  references : y.references = found.flatMap (·.fate.references)

/-- What was written is a file. -/
theorem Accounted.met_file (h : Accounted pass output d found y) (hf : f ∈ found)
    (hfate : f.fate.isTranspiled ∨ f.fate.isCopied) : f.met = .file := by
  obtain ⟨e, -, hends⟩ := h.ends f hf
  cases hmet : f.met with
  | file => rfl
  | unlisted fault =>
      rw [hmet] at hends
      rw [hends.of_unlisted] at hfate
      simp [Fate.isTranspiled, Fate.isCopied] at hfate

theorem meetable_of_tour (htour : Tour (pass.visit output) d (fun _ => True) met) :
    ∀ m ∈ met, (∀ n ∈ m.1, IsName n) ∧ (m.2 = .file → Due (pass.visit output) d m.1) := by
  intro m hm
  refine ⟨(htour.inside m hm).2, fun hfile => ((htour.file m.1).1 ?_).2⟩
  rw [← hfile]
  exact hm

/-- What was found on a tour of all that is below the source is an account of it. -/
theorem accounted_of_found (htour : Tour (pass.visit output) d (fun _ => True) met)
    (htally : Tally pass.root found {} y) (hmap : found.map (fun f => (f.names, f.met)) = met)
    (hends : ∀ f ∈ found, ∃ e, Confined (Inside output.place) d e ∧
      Ends pass output d e f.names f.met f.fate) :
    Accounted pass output d found y := by
  have hmem : ∀ names m, (∃ f ∈ found, f.names = names ∧ f.met = m) ↔ (names, m) ∈ met := by
    intro names m
    rw [← hmap, List.mem_map]
    simp only [Prod.mk.injEq]
  have hofFile : ∀ f ∈ found, f.met = .file →
      ∃ e, Ends pass output d e f.names .file f.fate := by
    intro f hf hfile
    obtain ⟨e, _, h⟩ := hends f hf
    exact ⟨e, hfile ▸ h⟩
  exact {
    ordered := by
      have hordered := htour.ordered
      rw [← hmap, List.pairwise_map] at hordered
      exact hordered
    isName := fun f hf => (htour.inside (f.names, f.met) ((hmem _ _).1 ⟨f, hf, rfl, rfl⟩)).2
    file := fun names => by
      rw [hmem, htour.file]
      exact ⟨fun h => h.2, fun h => ⟨trivial, h⟩⟩
    unlisted := fun f hf fault hfault =>
      htour.unlisted f.names fault ((hmem _ _).1 ⟨f, hf, rfl, hfault⟩)
    overlong := fun names hover hkind => (hmem _ _).2 (htour.overlong names trivial hover hkind)
    ends := hends
    template := fun f hf hfile => (hofFile f hf hfile).choose_spec.template
    asset := fun f hf hfile => (hofFile f hf hfile).choose_spec.asset
    other := fun f hf hfile => (hofFile f hf hfile).choose_spec.other
    transpiled := by simpa using htally.transpiled
    clientOnly := by simpa using htally.clientOnly
    copied := by simpa using htally.copied
    failed := by simpa using htally.failed
    references := by simpa using htally.references }

/-- A tour of all that is below the source gives an account of it. -/
theorem accounted_of_tour (hd : w.disk.Plain) (hleads : Leads w.disk pass.root)
    (hout : output.isAbsolute) (hext : '/' ∉ pass.ext.module)
    (htour : Tour (pass.visit output) w.disk (fun _ => True) met) :
    ∃ found y, ((meetAll (pass.visit output) {} met).result w).1 = .ok y ∧
      Accounted pass output w.disk found y := by
  obtain ⟨found, y, after, hanswer, htally, hmap, hends, -⟩ :=
    exists_found_keeping (P := fun _ _ => True) hd hleads hout hext (meetable_of_tour htour)
      (fun _ _ _ _ _ _ _ _ _ _ => trivial) [] {} (Confined.refl hd) trivial
  exact ⟨found, y, congrArg Prod.fst hanswer, accounted_of_found htour htally hmap hends⟩

/-- The walk through a source tree ends with an account of every file in it. -/
theorem accounted_takeTree (hd : w.disk.Plain) (hroot : pass.root.isAbsolute)
    (hout : output.isAbsolute) (hdir : w.disk.isDir pass.root) (hext : '/' ∉ pass.ext.module) :
    ∃ found y after, (pass.takeTree output []).result w = (.ok y, after) ∧
      Accounted pass output w.disk found y := by
  have hunhindered := unhindered_visit hd hroot hout hdir hext
  obtain ⟨met, hmet, htour⟩ := exists_tour_run hunhindered {} rfl
  obtain ⟨found, y, hanswer, haccounted⟩ :=
    accounted_of_tour hd hunhindered.leads hout hext htour
  refine ⟨found, y, ((meetAll (pass.visit output) {} met).result w).2, ?_, haccounted⟩
  rw [takeTree_nil]
  exact hmet.trans (Prod.ext hanswer rfl)

/-- A source with its output in it: a template that fails, a page with its style, and files that
are left alone. -/
def crowded : Work where
  disk :=
    { root := .dir [("p".toList, .dir [("site".toList, .dir [
        (".DS_Store".toList, .file .empty),
        ("broken.pw".toList, .file "<p>\x7b".toUTF8),
        ("out".toList, .dir [("old.pw".toList, .file "<p>old</p>".toUTF8)]),
        ("pages".toList, .dir [
          ("page.pw".toList, .file "<p>home</p>".toUTF8),
          ("style.css".toList, .file "p".toUTF8)]),
        ("readme.txt".toList, .file "read".toUTF8)])])]
      cwd := [] }

theorem accounted_takeTree_crowded :
    Plain crowded.disk ∧ crowded.disk.isDir ⟨"/p/site".toList⟩ ∧
      ∃ found y after, ((passOf copyingNothing ⟨"/p/site".toList⟩).takeTree
          ⟨"/p/site/out".toList⟩ []).result crowded = (.ok y, after) ∧
        (y.transpiled, y.clientOnly, y.copied, y.failed.length) = (1, 0, 1, 1) ∧
        Accounted (passOf copyingNothing ⟨"/p/site".toList⟩) ⟨"/p/site/out".toList⟩ crowded.disk
          found y := by
  have hplain : Plain crowded.disk := ⟨by decide, by decide⟩
  have hdir : crowded.disk.isDir ⟨"/p/site".toList⟩ := by decide
  have hcounts : (((passOf copyingNothing ⟨"/p/site".toList⟩).takeTree
      ⟨"/p/site/out".toList⟩ []).result crowded).1.toOption.map
        (fun y => (y.transpiled, y.clientOnly, y.copied, y.failed.length)) = some (1, 0, 1, 1) := by
    decide +kernel
  refine ⟨hplain, hdir, ?_⟩
  obtain ⟨found, y, after, hresult, haccounted⟩ : ∃ found y after,
      ((passOf copyingNothing ⟨"/p/site".toList⟩).takeTree ⟨"/p/site/out".toList⟩ []).result
          crowded = (.ok y, after) ∧
        Accounted (passOf copyingNothing ⟨"/p/site".toList⟩) ⟨"/p/site/out".toList⟩ crowded.disk
          found y :=
    accounted_takeTree hplain (by decide) (by decide) hdir (by decide)
  rw [hresult] at hcounts
  exact ⟨found, y, after, hresult, Option.some.inj hcounts, haccounted⟩

/-- A project with one template, in a directory of its own. -/
def oneTemplate : Work where
  disk :=
    { root := .dir [("p".toList, .dir [("site".toList, .dir [("d".toList, .dir [
        ("x.pw".toList, .file "<p>x</p>".toUTF8)])])])]
      cwd := ["p".toList] }

/-- Its source, spelled with more slashes than needed. -/
def slashedSource (k : Nat) : Path := ⟨List.replicate k '/' ++ "/p/site".toList⟩

theorem place_slashedSource (k : Nat) : (slashedSource k).place = ["p".toList, "site".toList] := by
  have hsteps : (slashedSource k).steps = _ :=
    Disk.steps_widened (p := ⟨"/p/site".toList⟩) rfl k
  rw [Path.place, hsteps]
  decide

theorem leads_slashedSource {k : Nat} (hk : k + 7 ≤ Disk.maxPath) :
    Leads oneTemplate.disk (slashedSource k) :=
  Leads.widened (p := ⟨"/p/site".toList⟩)
    (Disk.leads_of_isDir ⟨by decide, by decide⟩ (by decide) (by decide)) hk

/-- Under the longest spelling, the directory of the template has too long a path. -/
theorem isLong_slashedSource {k : Nat} (hk : Disk.maxPath ≤ k + 7) :
    IsLong ((slashedSource k).child "d".toList) :=
  Disk.isLong_widened_child (p := ⟨"/p/site".toList⟩) (by decide) (by decide) hk (by decide)

/-- Then the account has nothing but failures, and the template is none of them. -/
theorem failed_of_slashedSource {k : Nat} (hk : Disk.maxPath ≤ k + 7)
    (hroot : pass.root = slashedSource k) (h : Accounted pass output oneTemplate.disk found y) :
    ∀ f ∈ found, f.names ≠ ["d".toList, "x.pw".toList] ∧ ∃ cause, f.fate = .failed cause := by
  intro f hf
  have hshort : ¬ IsLong (below pass.root f.names.dropLast) := by
    cases hmet : f.met with
    | file => exact ((h.file f.names).1 ⟨f, hf, rfl, hmet⟩).short
    | unlisted fault => exact (h.unlisted f hf fault hmet).2.short
  have hother : f.names ≠ ["d".toList, "x.pw".toList] := by
    intro hnames
    rw [hnames, hroot] at hshort
    exact hshort (isLong_slashedSource hk)
  refine ⟨hother, ?_⟩
  obtain ⟨e, _, hends⟩ := h.ends f hf
  cases hmet : f.met with
  | unlisted fault =>
      rw [hmet] at hends
      exact ⟨_, hends.of_unlisted⟩
  | file =>
      have hdue := (h.file f.names).1 ⟨f, hf, rfl, hmet⟩
      obtain ⟨bytes, hbytes⟩ := Node.kindAt_file_iff.1 hdue.file
      have hplace : (pass.visit output).root.place = ["p".toList, "site".toList] := by
        show pass.root.place = _
        rw [hroot, place_slashedSource]
      rw [hplace] at hbytes
      have hfiles := Node.mem_files_of_bytesAt (Option.isSome_of_mem hbytes)
      have hall : oneTemplate.disk.root.files =
          [["p".toList, "site".toList, "d".toList, "x.pw".toList]] := by decide
      rw [hall, List.mem_singleton] at hfiles
      have heq : ["p".toList, "site".toList] ++ f.names =
          ["p".toList, "site".toList] ++ ["d".toList, "x.pw".toList] := hfiles
      exact absurd (List.append_cancel_left heq) hother

/-- Three walks that do not tell of every template. A module extension with a slash ends the walk
at the first template; under a source that is spelled too long, the directory of the template fails
and the template is not counted; and what is within an output is seen to be so only if the source
is given as the output is. -/
theorem unaccounted_takeTree :
    (((Pass.mk ⟨"/p/site".toList⟩ ⟨"pw".toList, "a/b".toList⟩).takeTree ⟨"/p/out".toList⟩ []).result
        oneTemplate).1.toOption.map (·.transpiled) = none ∧
      (oneTemplate.disk.isDir (slashedSource 4088) ∧
        oneTemplate.disk.root.kindAt
          ((slashedSource 4088).place ++ ["d".toList, "x.pw".toList]) = some .file ∧
        ∃ y, (((Pass.mk (slashedSource 4088) ⟨"pw".toList, "js".toList⟩).takeTree
            ⟨"/p/out".toList⟩ []).result oneTemplate).1 = .ok y ∧
          y.transpiled = 0 ∧ y.clientOnly = 0 ∧
          ∀ failure ∈ y.failed,
            failure.1 ≠ below (slashedSource 4088) ["d".toList, "x.pw".toList]) ∧
      (Path.place ⟨"/p/site/d".toList⟩ <+: ["p".toList, "site".toList, "d".toList, "x.pw".toList] ∧
        (((Pass.mk ⟨"site".toList⟩ ⟨"pw".toList, "js".toList⟩).takeTree ⟨"/p/site/d".toList⟩
          []).result oneTemplate).1.toOption.map (·.transpiled) = some 1) := by
  refine ⟨by decide +kernel, ?_, by decide, by decide +kernel⟩
  have hplain : Plain oneTemplate.disk := ⟨by decide, by decide⟩
  have hleads := leads_slashedSource (k := 4088) (Nat.le_refl _)
  refine ⟨hleads.isDir hplain, by rw [place_slashedSource]; decide, ?_⟩
  have hunhindered : Unhindered
      (Pass.visit ⟨slashedSource 4088, ⟨"pw".toList, "js".toList⟩⟩ ⟨"/p/out".toList⟩)
      oneTemplate.disk (Inside (Path.place ⟨"/p/out".toList⟩)) :=
    unhindered_visit hplain hleads.isAbsolute (by decide) (hleads.isDir hplain) (by decide)
  obtain ⟨met, hmet, htour⟩ := exists_tour_run hunhindered {} rfl
  obtain ⟨found, y, hanswer, h⟩ := accounted_of_tour hplain hleads (by decide)
    (by decide : '/' ∉ "js".toList) htour
  have hfailed := failed_of_slashedSource (k := 4088) (Nat.le_refl _) rfl h
  refine ⟨y, ?_, ?_, ?_, fun failure hfailure heq => ?_⟩
  · rw [takeTree_nil]
    exact (congrArg Prod.fst hmet).trans hanswer
  · rw [h.transpiled, List.countP_eq_zero]
    intro f hf
    obtain ⟨cause, hcause⟩ := (hfailed f hf).2
    simp [hcause, Fate.isTranspiled]
  · rw [h.clientOnly, List.countP_eq_zero]
    intro f hf
    obtain ⟨cause, hcause⟩ := (hfailed f hf).2
    simp [hcause, Fate.isClientOnly]
  · rw [h.failed] at hfailure
    obtain ⟨f, hf, hsome⟩ := List.mem_filterMap.1 hfailure
    obtain ⟨cause, _, rfl⟩ := Option.map_eq_some_iff.1 hsome
    have hplaces := congrArg Path.place heq
    rw [place_below hleads.isAbsolute (ordinary_of_isName (h.isName f hf)),
      place_below hleads.isAbsolute (by decide)] at hplaces
    exact (hfailed f hf).1 (List.append_cancel_left hplaces)

end Quire.Build
