import Quire.Proofs.Build.Accounting
import Quire.Proofs.Disk.Ancestry

/-!
What a build's visit leaves in an output that held nothing. The files below the output are those that
the findings say were written, and everything in it can be reached: no path to it is too long.
-/

namespace Quire

namespace Disk

variable {d d' : Disk} {writes : List Write} {q : Place}

/-- The files of a disk with writes laid over it: those of before, and those at the places of the
writes. -/
theorem Overlaid.kindAt_file_iff (h : Overlaid writes d d') (hq : d.Takes q) :
    d'.root.kindAt q = some .file ↔
      d.root.kindAt q = some .file ∨ ∃ w ∈ writes, w.place = q := by
  have hoverlay : ∀ (writes : List Write) (before : Option ByteArray),
      (overlay writes q before).isSome ↔ before.isSome ∨ ∃ w ∈ writes, w.place = q := by
    intro writes
    induction writes with
    | nil => simp [overlay]
    | cons w writes ih =>
        intro before
        have hstep : overlay (w :: writes) q before =
            overlay writes q (if w.place = q then some w.bytes else before) := rfl
        rw [hstep, ih]
        by_cases hplace : w.place = q <;> simp [hplace]
  have hfile : ∀ (n : Node), n.kindAt q = some .file ↔ (n.bytesAt q).isSome := fun n => by
    rw [Node.kindAt_file_iff, Option.isSome_iff_exists]
  rw [hfile, hfile, h.bytes q hq, hoverlay]

end Disk

namespace Build

open Disk (Place Plain Node IsName IsLong Leads Overlaid)
open Quire.Path (Ordinary)

variable {d e : Disk} {w after : Work} {pass : Pass} {output : Path} {names q : List Text}
  {n : Text} {y : Yield} {f : Finding} {found : List Finding} {met : List (List Text × Met)}

/-! Everything in the output can be reached. -/

/-- An output whose directories all have paths that are not too long. -/
structure Listable (output : Path) (d : Disk) : Prop where
  plain : d.Plain
  leads : Leads d output
  short : ∀ names, d.root.kindAt (output.place ++ names) = some .dir → ¬ IsLong (below output names)

theorem not_isLong_of_check {p : Path} (h : Disk.checkPath p = .ok ()) : ¬ IsLong p :=
  Nat.not_lt.2 (Disk.checkPath_ok_iff.1 h).2.2

theorem Listable.makeDirs (h : Listable output d) (hnames : ∀ n ∈ names, IsName n) :
    Listable output (Disk.makeDirs (below output names).trimmed d).2 := by
  cases hcheck : Disk.checkPath (below output names) with
  | error fault =>
      rw [below, Disk.makeDirs_below_of_check h.leads hnames hcheck]
      exact h
  | ok u =>
      by_cases hclear : Disk.Clear d.root (output.place ++ names)
      · obtain ⟨d', hmade, hcleared⟩ := Disk.makeDirs_of_clear h.plain h.leads hnames hcheck hclear
        rw [below, hmade]
        refine ⟨hcleared.plain, h.leads.mono hcleared.cwd fun _ _ => hcleared.kindAt hclear,
          fun pre hpre => ?_⟩
        rw [Node.kindAt_eq_seen, hcleared.seen] at hpre
        split at hpre
        · next hway =>
            obtain ⟨more, rfl⟩ := (List.prefix_append_right_inj _).1 hway
            exact fun hlong => not_isLong_of_check hcheck
              (isLong_below_append h.leads.isAbsolute
                (fun n hn => hnames n (List.mem_append_right _ hn)) hlong)
        · rw [← Node.kindAt_eq_seen] at hpre
          exact h.short pre hpre
      · rw [below, Disk.makeDirs_of_blocked h.plain h.leads hnames hcheck hclear]
        exact h

theorem housed_listable (hout : output.isAbsolute) : Housed output (Listable output) where
  isAbsolute := hout
  plain _ h := h.plain
  home d h := by
    rw [h.leads.makeDirs h.plain]
    exact h
  dirs _ _ hnames h := h.makeDirs hnames
  file d d' place bytes hplace hwrote h := by
    refine ⟨hwrote.plain, h.leads.mono hwrote.cwd fun _ _ => hwrote.kindAt h.plain,
      fun names hdir => h.short names ?_⟩
    rw [Node.kindAt_eq_seen, hwrote.seen] at hdir
    split at hdir
    · cases hdir
    · rwa [Node.kindAt_eq_seen]

/-! Where findings land. -/

/-- Where a finding was written, by names below the output, if it was. -/
def Finding.landing? (ext : Text) (f : Finding) : Option (List Text) :=
  match f.fate with
  | .transpiled _ => some (f.names.dropLast ++ f.names.getLast?.toList.map (Path.renamed · ext))
  | .copied => some f.names
  | _ => none

theorem check_of_write {p : Path} {bytes : ByteArray} {d' : Disk} (hd : d.Plain)
    (h : d.write p bytes = .ok d') : Disk.checkPath p = .ok () := by
  obtain ⟨goal, hgoal, -⟩ := Disk.write_ok_iff.1 h
  exact ((Disk.target?_ok_iff hd).1 hgoal).1

/-- What could be written has a name that leads to no other directory, and no path that is too
long. -/
theorem ordinary_of_writable {dir : Path} {code : Text} (he : e.Plain) (hdir : dir.isAbsolute)
    (hn : Ordinary n ∨ n = ['.', '.']) (h : writable (dir.child n) code e = .ok ()) :
    Ordinary n ∧ ¬ IsLong (dir.child n) := by
  have hplain := (furnished_makeParents he (dir.child n)).plain
  unfold writable at h
  rcases hmake : Disk.makeParents (dir.child n) e with ⟨made, mid⟩
  rw [hmake] at h hplain
  cases made with
  | error fault => cases h
  | ok u =>
      dsimp only at h
      cases hwrite : mid.writeText (dir.child n) code with
      | error fault =>
          rw [hwrite] at h
          cases h
      | ok last =>
          refine ⟨hn.resolve_right ?_, not_isLong_of_check (check_of_write hplain hwrite)⟩
          rintro rfl
          exact Disk.write_up_ne_ok hplain hdir hwrite

theorem not_isLong_of_copyInto {source dest : Path} (he : e.Plain)
    (h : (Disk.copyInto source dest e).1 = .ok ()) : ¬ IsLong dest := by
  have hplain := (furnished_makeParents he dest).plain
  unfold Disk.copyInto Disk.Change.andThen at h
  rcases hmake : Disk.makeParents dest e with ⟨made, mid⟩
  rw [hmake] at h hplain
  cases made with
  | error fault => cases h
  | ok u =>
      dsimp only at h
      cases hcopy : mid.copy source dest with
      | error fault =>
          rw [Disk.ofWhole_error hcopy] at h
          cases h
      | ok last =>
          obtain ⟨_, _, goal, _, _, hgoal, _⟩ := Disk.copy_ok hcopy
          exact not_isLong_of_check ((Disk.target?_ok_iff hplain).1 hgoal).1

/-- The module of a template lands beside it, in the output. -/
theorem landing_of_outputPath {dir : List Text} {dst : Path} {references : List Reference}
    (hdir : ∀ m ∈ dir, Ordinary m) (hn : Ordinary n) (hnames : f.names = dir ++ [n])
    (hfate : f.fate = .transpiled references)
    (hdst : pass.outputPath (relativePath f.names) output = .ok dst) :
    f.landing? pass.ext.module = some (dir ++ [Path.renamed n pass.ext.module]) ∧
      dst = (below output dir).child (Path.renamed n pass.ext.module) := by
  rw [hnames] at hdst
  refine ⟨?_, (outputPath_relativePath pass hdir hn hdst).2⟩
  simp [Finding.landing?, hfate, hnames]

/-- A finding lands on names of files, under no path that is too long. -/
theorem Ends.landing (h : Ends pass output d e f.names f.met f.fate) (he : e.Plain)
    (hout : output.isAbsolute) (hnames : ∀ n ∈ f.names, IsName n) (hne : f.met = .file → f.names ≠ [])
    (hq : f.landing? pass.ext.module = some q) :
    (∀ n ∈ q, Ordinary n) ∧ ¬ IsLong (below output q) := by
  obtain ⟨names, m, fate⟩ := f
  dsimp only at h hnames hne
  cases h with
  | transpiled htemplate houtcome hdst hwritten =>
      obtain ⟨dir, n, rfl⟩ := (List.eq_nil_or_concat' names).resolve_left (hne rfl)
      obtain ⟨hdir, hn⟩ := List.forall_mem_append.1 hnames
      have hn' := (List.forall_mem_singleton.1 hn).toOrdinary
      obtain ⟨hlanding, rfl⟩ := landing_of_outputPath (f := ⟨dir ++ [n], .file, .transpiled _⟩)
        (ordinary_of_isName hdir) hn' rfl rfl hdst
      obtain rfl := Option.some.inj (hlanding.symm.trans hq)
      have hslash := (outputPath_relativePath pass (ordinary_of_isName hdir) hn' hdst).1
      obtain ⟨hordinary, hshort⟩ := ordinary_of_writable he (isAbsolute_below hout dir)
        (Path.renamed_cases hn' hslash) hwritten
      refine ⟨List.forall_mem_append.2 ⟨ordinary_of_isName hdir, by simpa⟩, ?_⟩
      rwa [below_concat]
  | copied hasset hcopied =>
      obtain rfl := Option.some.inj hq
      obtain ⟨dir, n, rfl⟩ := (List.eq_nil_or_concat' names).resolve_left (hne rfl)
      obtain ⟨hdir, hn⟩ := List.forall_mem_append.1 hnames
      rw [join_relativePath hdir (List.forall_mem_singleton.1 hn)] at hcopied
      refine ⟨ordinary_of_isName hnames, ?_⟩
      rw [below_concat]
      exact not_isLong_of_copyInto he hcopied
  | _ => cases hq

/-- What a meeting makes is written where its finding lands. -/
theorem landing_iff_of_made {P : Disk → Prop} {made : List Product} {d' : Disk}
    (hout : output.isAbsolute) (hnames : ∀ n ∈ f.names, IsName n) (hne : f.met = .file → f.names ≠ [])
    (hordinary : ∀ q, f.landing? pass.ext.module = some q → ∀ n ∈ q, Ordinary n)
    (hmade : Made pass output P made y (y.add pass.root f) d d')
    (hone : made = [] ∨ f.met = .file ∧ ∃ p, made = [p] ∧ p.names = f.names) (q : List Text) :
    (∃ w ∈ made.map (·.write output), w.place = output.place ++ q) ↔
      f.landing? pass.ext.module = some q := by
  have htally := Tally.single pass.root y f
  have hmodules : made.countP (·.isModule) = [f].countP (·.fate.isTranspiled) :=
    Nat.add_left_cancel (hmade.transpiled.symm.trans htally.transpiled)
  have hcopies : made.countP (!·.isModule) = [f].countP (·.fate.isCopied) :=
    Nat.add_left_cancel (hmade.copied.symm.trans htally.copied)
  have hplace : ∀ q', f.landing? pass.ext.module = some q' → ∀ p : Product,
      (p.write output).place = output.place ++ q' →
      ((∃ w ∈ [p].map (·.write output), w.place = output.place ++ q) ↔
        f.landing? pass.ext.module = some q) := by
    intro q' hq' p hp
    simp [hp, hq']
  rcases hone with rfl | ⟨hfile, p, rfl, hp⟩
  · cases hfate : f.fate <;>
      simp [hfate, Fate.isTranspiled, Fate.isCopied, Finding.landing?] at hmodules hcopies ⊢
  · obtain ⟨dir, n, hsplit⟩ := (List.eq_nil_or_concat' f.names).resolve_left (hne hfile)
    rw [hsplit] at hnames
    obtain ⟨hdir, hn⟩ := List.forall_mem_append.1 hnames
    have hn' := List.forall_mem_singleton.1 hn
    have hfaithful := hmade.faithful p List.mem_cons_self
    cases p with
    | module names dst text code references =>
        obtain ⟨references', hfate⟩ : ∃ references', f.fate = .transpiled references' := by
          cases hfate : f.fate <;>
            simp [hfate, Fate.isTranspiled, Product.isModule] at hmodules ⊢
        obtain rfl : names = f.names := hp
        obtain ⟨hlanding, rfl⟩ := landing_of_outputPath (ordinary_of_isName hdir)
          hn'.toOrdinary hsplit hfate hfaithful.2.1
        refine hplace _ hlanding _ ?_
        rw [← place_below hout (hordinary _ hlanding), below_concat]
        rfl
    | copy names bytes =>
        have hfate : f.fate = .copied := by
          cases hfate : f.fate <;>
            simp [hfate, Fate.isCopied, Product.isModule] at hcopies ⊢
        obtain rfl : names = f.names := hp
        have hlanding : f.landing? pass.ext.module = some f.names := by
          simp [Finding.landing?, hfate]
        refine hplace _ hlanding _ ?_
        rw [← place_below hout (hordinary _ hlanding), hsplit, below_concat,
          ← join_relativePath hdir hn', ← hsplit]
        rfl

/-! The output as the findings tell it. -/

/-- What the findings so far tell of the output: its files are those that they landed on, and all of
it can be reached. -/
structure Mirrors (ext : Text) (output : Path) (found : List Finding) (d : Disk) : Prop where
  listable : Listable output d
  devices : ∀ q, Inside output.place q → d.Takes q
  files : ∀ q, d.root.kindAt (output.place ++ q) = some .file ↔
    ∃ f ∈ found, f.landing? ext = some q
  short : ∀ f ∈ found, ∀ q, f.landing? ext = some q → ¬ IsLong (below output q)

theorem mirrors_nil (hleads : Leads d output) (hd : d.Plain) (ext : Text)
    (hempty : ∀ q, Inside output.place q → d.root.kindAt q = none) : Mirrors ext output [] d where
  listable := by
    refine ⟨hd, hleads, fun names hdir => ?_⟩
    cases names with
    | nil => exact not_isLong_of_check hleads.check
    | cons n names => exact absurd (hdir.symm.trans (hempty _ ⟨n, names, rfl⟩)) (by simp)
  devices q hq := by simp [hempty q hq]
  files q := by
    cases q with
    | nil => simp [hleads.dir]
    | cons n q => simp [hempty _ ⟨n, q, rfl⟩]
  short := by simp

/-- One meeting more, and its finding is told as well. -/
theorem Mirrors.step (h : Mirrors pass.ext.module output found w.disk)
    (hroot : pass.root.isAbsolute) (hout : output.isAbsolute) (hnames : ∀ n ∈ f.names, IsName n)
    (hfile : f.met = .file →
      f.names ≠ [] ∧ ¬ Inside output.place (below pass.root f.names).place)
    (hends : Ends pass output d w.disk f.names f.met f.fate)
    (htake : (pass.take output y f.names f.met).result w = (.ok (y.add pass.root f), after)) :
    Mirrors pass.ext.module output (found ++ [f]) after.disk := by
  have hlistable := (housed_listable hout).take pass hroot y f.met hnames (fun hf => (hfile hf).1)
    w h.listable
  rw [htake] at hlistable
  obtain ⟨made, hmade, hone⟩ := exists_made_take (P := fun _ => True) h.listable.plain trivial hout
    hroot hnames hfile htake
  have hlanding := fun q => hends.landing (q := q) h.listable.plain hout hnames fun hf => (hfile hf).1
  have hwrites := landing_iff_of_made hout hnames (fun hf => (hfile hf).1)
    (fun q hq => (hlanding q hq).1) hmade hone
  refine ⟨hlistable, fun q hq => ?_, fun q => ?_, ?_⟩
  · exact hmade.overlaid.takes (h.devices q hq)
  · have hdevice : w.disk.Takes (output.place ++ q) := by
      cases q with
      | nil => simp [h.listable.leads.dir]
      | cons n q => exact h.devices _ ⟨n, q, rfl⟩
    rw [hmade.overlaid.kindAt_file_iff hdevice, h.files, hwrites]
    simp [or_and_right, exists_or]
  · intro g hg q hq
    rcases List.mem_append.1 hg with hg | hg
    · exact h.short g hg q hq
    · rw [List.mem_singleton.1 hg] at hq
      exact (hlanding q hq).2

/-- The walk through a source tree into an output that holds nothing leaves there what its account
tells, and what each meeting keeps besides. -/
theorem exists_mirrors_takeTree {P : List Finding → Disk → Prop} (hd : w.disk.Plain)
    (hroot : pass.root.isAbsolute) (hdir : w.disk.isDir pass.root) (hext : '/' ∉ pass.ext.module)
    (hleads : Leads w.disk output)
    (hempty : ∀ q, Inside output.place q → w.disk.root.kindAt q = none)
    (hstep : ∀ before f y w' after, Confined (Inside output.place) w.disk w'.disk →
      Mirrors pass.ext.module output before w'.disk → P before w'.disk →
      (∀ n ∈ f.names, IsName n) →
      (f.met = .file → Due (pass.visit output) w.disk f.names) →
      Ends pass output w.disk w'.disk f.names f.met f.fate →
      (pass.take output y f.names f.met).result w' = (.ok (y.add pass.root f), after) →
      P (before ++ [f]) after.disk)
    (hP : P [] w.disk) :
    ∃ found y after, (pass.takeTree output []).result w = (.ok y, after) ∧
      Accounted pass output w.disk found y ∧ Mirrors pass.ext.module output found after.disk ∧
      P found after.disk := by
  have hout := hleads.isAbsolute
  have hunhindered := unhindered_visit hd hroot hout hdir hext
  obtain ⟨met, hmet, htour⟩ := exists_tour_run hunhindered {} rfl
  have hmeetable := meetable_of_tour htour
  obtain ⟨found, y, after, hanswer, htally, hmap, hends, hmirrors, hafter⟩ :=
    exists_found_keeping (P := fun found d => Mirrors pass.ext.module output found d ∧ P found d) hd
      hunhindered.leads hout hext hmeetable (fun before f y w' after hw hbefore hf hends htake => by
        obtain ⟨hnames, hdue⟩ := hmeetable _ hf
        refine ⟨hbefore.1.step hroot hout hnames (fun hfile => ⟨(hdue hfile).ne_nil, ?_⟩) hends
          htake, hstep before f y w' after hw hbefore.1 hbefore.2 hnames hdue hends htake⟩
        exact not_inside_of_not_isWithin hout (isAbsolute_below hroot _) (hdue hfile).skips)
      [] {} (Confined.refl hd) ⟨mirrors_nil hleads hd _ hempty, hP⟩
  refine ⟨found, y, after, ?_, accounted_of_found htour htally hmap hends, hmirrors, hafter⟩
  rw [takeTree_nil]
  exact hmet.trans hanswer

end Build

end Quire
