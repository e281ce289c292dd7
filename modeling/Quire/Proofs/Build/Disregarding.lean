import Quire.Proofs.Build.Coupling
import Quire.Proofs.Build.Rebuilding
import Quire.Proofs.Build.Recording
import Quire.Proofs.Build.Routing

/-!
A walk past what its output holds. What a walk sets out to do is not within the output, and it is
the same on two disks that agree outside of the output, whatever is in there.
-/

namespace Quire

namespace Disk

open Quire.Path (Ordinary)

variable {d : Disk} {p : Path} {n : Text}

namespace Leads

/-- Nothing is made on the way to a directory that is there. -/
theorem makeParents (hd : d.Plain) (h : Leads d p) : Disk.makeParents p d = (.ok (), d) := by
  unfold Disk.makeParents
  cases hparent : p.parent? with
  | none => rfl
  | some above => exact (h.parent? hparent).makeDirs hd

/-- Nothing is written over a directory. -/
theorem write (hd : d.Plain) (h : Leads d p) (bytes : ByteArray) :
    ∃ fault, d.write p bytes = .error fault := by
  cases hwrite : d.write p bytes with
  | error fault => exact ⟨fault, rfl⟩
  | ok d' => exact absurd h.dir (wrote_write hd h.isAbsolute hwrite).free

/-- A text that is no name and has no slash leads from a directory to a directory. -/
theorem child_of_not_ordinary (h : Leads d p) (hn : ¬ Ordinary n) (hslash : '/' ∉ n)
    (hcheck : checkPath (p.child n) = .ok ()) : Leads d (p.child n) := by
  have habs := Path.isAbsolute_child h.isAbsolute n
  have hrelative := Path.not_isAbsolute_of_noSlash hslash
  have hsteps : (p.child n).steps = p.steps ++ (Path.mk n).inner := by
    rw [Path.steps_of_isAbsolute habs, Path.child, Path.inner_join hrelative,
      Path.steps_of_isAbsolute h.isAbsolute, List.cons_append]
  obtain hinner | hinner : (Path.mk n).inner = [] ∨ (Path.mk n).inner = [.up] := by
    by_cases hne : n = []
    · exact Or.inl (by rw [hne]; decide)
    · by_cases hdot : n = ['.']
      · exact Or.inl (by rw [hdot]; decide)
      · by_cases hdots : n = ['.', '.']
        · exact Or.inr (by rw [hdots]; decide)
        · exact absurd ⟨hne, hslash, hdot, hdots⟩ hn
  · rw [hinner, List.append_nil] at hsteps
    have hplace : (p.child n).place = p.place := by rw [Path.place, hsteps, Path.place]
    exact ⟨habs, hcheck, by rw [hsteps, hplace]; exact h.walk, by rw [hplace]; exact h.dir⟩
  · rw [hinner] at hsteps
    have hplace : (p.child n).place = p.place.dropLast := by
      rw [Path.place, hsteps, Path.placeFrom_append, ← Path.place]
      rfl
    obtain ⟨children, hget⟩ := Node.kindAt_dir_iff.1 h.dir
    refine ⟨habs, hcheck, ?_, ?_⟩
    · rw [hsteps, hplace, h.walk_append]
      simp [Disk.walk, childrenAt_ok_iff.2 hget]
    · rw [hplace]
      exact kindAt_of_isPrefix (List.dropLast_prefix _) h.dir

end Leads

end Disk

namespace Build

open Disk (Place Node IsName Leads Alike Wrote)
open Quire.Path (Ordinary Straight)

variable {α β γ δ σ τ : Type} {d e d' e' : Disk} {place q : Place} {source output : Path} {n : Text}
  {names : List Text} {pass : Pass} {c : Config}

/-- Two disks that agree outside of an output directory that is on both. -/
structure AlikeOutside (output : Path) (d e : Disk) : Prop where
  ready : Ready output d
  ready' : Ready output e
  cwd : e.cwd = d.cwd
  seen : ∀ q, ¬ output.place <+: q → e.root.seen q = d.root.seen q

namespace AlikeOutside

theorem refl (h : Ready output d) : AlikeOutside output d d := ⟨h, h, rfl, fun _ _ => rfl⟩

/-- Whatever comes and goes inside of the output, the disks agree outside. -/
theorem step (h : AlikeOutside output d e) (hd : Reworked (Inside output.place) d d')
    (he : Reworked (Inside output.place) e e') : AlikeOutside output d' e' := by
  refine ⟨h.ready.mono hd, h.ready'.mono he, by rw [he.cwd, hd.cwd, h.cwd], fun q hq => ?_⟩
  have hinside : ¬ Inside output.place q := fun ⟨n, rest, hq'⟩ => hq ⟨n :: rest, hq'.symm⟩
  rw [he.frame q hinside, hd.frame q hinside, h.seen q hq]

theorem kindAt (h : AlikeOutside output d e) (hq : ¬ Inside output.place q) :
    e.root.kindAt q = d.root.kindAt q := by
  by_cases hpre : output.place <+: q
  · obtain ⟨rest, rfl⟩ := hpre
    cases rest with
    | nil => rw [List.append_nil, h.ready.leads.dir, h.ready'.leads.dir]
    | cons n rest => exact absurd ⟨n, rest, rfl⟩ hq
  · exact Node.kindAt_congr (h.seen q hpre)

theorem alike (h : AlikeOutside output d e) (hplace : ¬ Inside output.place place) :
    Alike place d e := by
  refine ⟨h.ready.plain, h.ready'.plain, h.cwd, fun q hq => h.kindAt ?_⟩
  rintro ⟨n, rest, rfl⟩
  obtain ⟨more, rfl⟩ := hq
  exact hplace ⟨n, rest ++ more, by simp⟩

theorem outcome (h : AlikeOutside output d e) (pass : Pass) {src : Path} (hsrc : Straight src)
    (hplace : ¬ output.place <+: src.place) : pass.outcome e src = pass.outcome d src := by
  unfold Pass.outcome
  have halike := h.alike (fixed_of_not_isPrefix hplace _ (List.prefix_refl _))
  rw [halike.readText hsrc (Node.bytesAt_congr (h.seen _ hplace))]

theorem listing (h : AlikeOutside output d e) {p : Path} (hp : Straight p)
    (hplace : ¬ output.place <+: p.place) : e.listing p = d.listing p :=
  (h.alike (fixed_of_not_isPrefix hplace _ (List.prefix_refl _))).listing hp fun n =>
    h.kindAt (fixed_child hplace n _ (List.prefix_refl _))

theorem locate (h : AlikeOutside output d e) (hsource : Straight source)
    (hplace : ¬ output.place <+: source.place) (hn : Ordinary n) :
    locate e source n = locate d source n :=
  locate_congr hsource hplace hn fun _ hdir hfixed =>
    (h.alike (hfixed _ (List.prefix_refl _))).isDir hdir

/-- The same bytes written at one place. -/
theorem wrote {bytes : ByteArray} (h : AlikeOutside output d e) (hd : Wrote place bytes d d')
    (he : Wrote place bytes e e') : AlikeOutside output d' e' := by
  refine ⟨⟨hd.plain, h.ready.leads.mono hd.cwd fun _ _ => hd.kindAt h.ready.plain⟩,
    ⟨he.plain, h.ready'.leads.mono he.cwd fun _ _ => he.kindAt h.ready'.plain⟩,
    by rw [he.cwd, hd.cwd, h.cwd], fun q hq => ?_⟩
  rw [hd.seen, he.seen, h.seen q hq, Node.kindAt_congr (h.seen q hq)]

theorem writeText (h : AlikeOutside output d e) {above : Path} (hd : Leads d above)
    (he : Leads e above) (hn : Ordinary n) (hplace : ¬ Inside output.place (above.place ++ [n]))
    (t : Text) :
    AlikeOutside output (Disk.Change.ofWhole (·.writeText (above.child n) t) d).2
      (Disk.Change.ofWhole (·.writeText (above.child n) t) e).2 := by
  have htarget : e.target? (above.child n) = d.target? (above.child n) := by
    rw [Disk.target?_child h.ready.plain hd hn, Disk.target?_child h.ready'.plain he hn,
      h.kindAt hplace]
  have hwrite : ∀ d : Disk, d.writeText (above.child n) t =
      (d.target? (above.child n)).map (d.fill · t.toBytes) := fun d => Disk.write_eq_map d _ _
  have habs := Path.isAbsolute_child hd.isAbsolute n
  cases hgoal : d.target? (above.child n) with
  | error f =>
      have hfail : ∀ a : Disk, a.target? (above.child n) = .error f →
          (Disk.Change.ofWhole (·.writeText (above.child n) t) a).2 = a := fun a ha =>
        congrArg Prod.snd (Disk.ofWhole_error (by rw [hwrite, ha]; rfl))
      rw [hfail d hgoal, hfail e (htarget.trans hgoal)]
      exact h
  | ok goal =>
      have hok : ∀ a : Disk, a.target? (above.child n) = .ok goal →
          a.writeText (above.child n) t = .ok (a.fill goal t.toBytes) := fun a ha => by
        rw [hwrite, ha]
        rfl
      have hdok := hok d hgoal
      have heok := hok e (htarget.trans hgoal)
      rw [Disk.ofWhole_ok hdok, Disk.ofWhole_ok heok]
      exact h.wrote (Disk.wrote_write h.ready.plain habs hdok)
        (Disk.wrote_write h.ready'.plain habs heok)

end AlikeOutside

/-- Where the module of a source that is a single template goes: to a name beside the output, or to
a directory that is there. -/
theorem beside_outputPath (hout : Straight output) (hne : output.place ≠ []) {dst : Path}
    (hdst : pass.outputPath (relativePath []) output = .ok dst) :
    (∃ above n, dst = above.child n ∧ Ordinary n ∧ above.place = output.place.dropLast ∧
        ∀ d, Leads d output → Leads d above) ∨
      ∀ d, Leads d output → Leads d dst := by
  obtain ⟨hslash, rfl⟩ : '/' ∉ pass.ext.module ∧
      dst = (output.join ⟨[]⟩).withExtension pass.ext.module := by
    unfold Pass.outputPath withExtension at hdst
    split at hdst
    · next hok => exact ⟨by simpa [Path.isExtension] using hok, (Except.ok.inj hdst).symm⟩
    · cases hdst
  obtain ⟨above, k, t, htext, hk, habove, hplace, hsteps, hchild, hjoin⟩ :=
    hout.exists_withExtension hne pass.ext.module
  obtain ⟨⟨old, hold⟩, _, hstem⟩ := Path.stem_isPrefix hk
  have hleads : ∀ d, Leads d output → Leads d above := fun d hd =>
    hd.above habove.isAbsolute ⟨k ++ t, by simp [htext]⟩ hsteps
  have hslash' : '/' ∉ (Path.nameParts k).1 ++ Path.dotted pass.ext.module := by
    unfold Path.dotted
    split <;> simp [hstem, hslash]
  have hdst : above.child ((Path.nameParts k).1 ++ Path.dotted pass.ext.module) =
      (output.join ⟨[]⟩).withExtension pass.ext.module := by
    rw [hchild, hjoin, if_neg fun habs => hslash' (List.mem_of_mem_head? (by
      simpa [Path.isAbsolute] using habs))]
  by_cases hn : Ordinary ((Path.nameParts k).1 ++ Path.dotted pass.ext.module)
  · exact Or.inl ⟨above, _, hdst.symm, hn, hplace, hleads⟩
  · refine Or.inr fun d hd => ?_
    -- only without an extension can no name be left
    have hnil : Path.dotted pass.ext.module = [] := by
      by_contra hne'
      have hext : pass.ext.module ≠ [] := fun hext => hne' (by rw [hext]; rfl)
      rw [Path.dotted, if_neg hext] at hn
      exact hn (Path.ordinary_stem hk hslash hext)
    rw [← hdst]
    refine (hleads d hd).child_of_not_ordinary hn hslash' (Disk.checkPath_of_isPrefix ?_ ?_ hd.check)
    · rw [hdst, hjoin, hnil, List.append_nil, htext, List.append_assoc]
      exact (List.prefix_append_right_inj _).2 ⟨old ++ t, by rw [← List.append_assoc, hold]⟩
    · exact Disk.text_ne_nil (Path.isAbsolute_child habove.isAbsolute _)

/-- The module of a source that is a single template is written alike on both disks. -/
theorem AlikeOutside.written (h : AlikeOutside output d e) (hout : Straight output)
    (hne : output.place ≠ []) {src dst : Path} (hsrc : Straight src)
    (hplace : ¬ output.place <+: src.place)
    (hdst : pass.outputPath (relativePath []) output = .ok dst) :
    AlikeOutside output (pass.written src dst d) (pass.written src dst e) := by
  unfold Pass.written
  rw [h.outcome pass hsrc hplace]
  cases pass.outcome d src with
  | error stop => exact h
  | ok outcome =>
      cases outcome with
      | clientOnly => exact h
      | module code references =>
          simp only [Disk.Change.andThen]
          rcases beside_outputPath hout hne hdst with ⟨above, n, rfl, hn, habove, hleads⟩ | hleads
          · have hd := hleads d h.ready.leads
            have he := hleads e h.ready'.leads
            rw [makeParents_child hd.isAbsolute hn.noSlash hn.not_isIdle,
              hd.trimmed.makeDirs h.ready.plain, he.trimmed.makeDirs h.ready'.plain]
            refine h.writeText hd he hn ?_ code
            rintro ⟨m, rest, heq⟩
            have hlength := congrArg List.length heq
            have hpos := List.length_pos_iff.2 hne
            simp only [habove, List.length_append, List.length_dropLast, List.length_cons,
              List.length_nil] at hlength
            omega
          · have hd := hleads d h.ready.leads
            have he := hleads e h.ready'.leads
            have hstays : ∀ a : Disk, a.Plain → Leads a dst →
                (Disk.Change.ofWhole (·.writeText dst code) a).2 = a := by
              intro a ha hleads
              obtain ⟨fault, hfault⟩ := hleads.write ha code.toBytes
              exact congrArg Prod.snd (Disk.ofWhole_error hfault)
            rw [hd.makeParents h.ready.plain, he.makeParents h.ready'.plain]
            simp only
            rw [hstays d h.ready.plain hd, hstays e h.ready'.plain he]
            exact h

/-! How the walk ends does not depend on the disk. -/

/-- Two jobs end well, or end for the same extension. -/
abbrev EndAlike : Except Stop α → Except Stop β → Prop := Matches (fun _ _ => True) fun _ _ => True

theorem answer_takeTemplate_of_slash (hslash : '/' ∈ pass.ext.module) (y : Yield) (w : Work) :
    ((pass.takeTemplate output y names).result w).1 = .error (.badExtension pass.ext.module) := by
  have hdst : pass.outputPath (relativePath names) output =
      .error (.badExtension pass.ext.module) := by
    unfold Pass.outputPath withExtension
    rw [if_neg (by simp [Path.isExtension, hslash])]
  unfold Pass.takeTemplate
  rw [Job.result_bind, Job.result_lift, hdst]

theorem endAlike_take (pass : Pass) (output : Path) (y y' : Yield) (names : List Text) (m : Met)
    (w w' : Work) :
    EndAlike ((pass.take output y names m).result w).1
      ((pass.take output y' names m).result w').1 := by
  by_cases hstop : m = .file ∧ pass.Compiles names ∧ '/' ∈ pass.ext.module
  · obtain ⟨rfl, htemplate, hslash⟩ := hstop
    rw [take_of_compiles htemplate, take_of_compiles htemplate,
      answer_takeTemplate_of_slash hslash, answer_takeTemplate_of_slash hslash]
    exact .badExtension _
  · have hext : m = .file → pass.Compiles names → '/' ∉ pass.ext.module :=
      fun hm htemplate hslash => hstop ⟨hm, htemplate, hslash⟩
    obtain ⟨_, hanswer, _⟩ := ends_take (w := w) (d := w.disk) output m hext (fun _ _ => rfl) y
    obtain ⟨_, hanswer', _⟩ := ends_take (w := w') (d := w'.disk) output m hext (fun _ _ => rfl) y'
    rw [hanswer, hanswer']
    exact .ok trivial

theorem exists_answer_copyFile (dir dst : Path) (count : Nat) (names : List Text) (m : Met)
    (w : Work) : ∃ count', ((copyFile dir dst count names m).result w).1 = .ok count' := by
  cases m with
  | unlisted fault => exact ⟨count, rfl⟩
  | file =>
      simp only [copyFile]
      split
      · exact ⟨count, rfl⟩
      · simp only [Job.result_bind, Job.result_attempt, Job.result_change]
        cases (Disk.copyInto (below dir names) (below dst names) w.disk).1 with
        | error fault => exact ⟨count, rfl⟩
        | ok u => exact ⟨count + 1, rfl⟩

/-! The record of a walk. -/

/-- The same record of two jobs that end alike. No source on it is within the output. -/
structure SameRecord (output : Path) (s : Recorded σ Attempt) (t : Recorded τ Attempt) : Prop where
  ends : EndAlike s.1 t.1
  record : t.2 = s.2
  outside : ∀ a ∈ s.2, ¬ output.place <+: a.source.place

section

variable {F : Failure → Failure → Prop}

theorem SameRecord.next {s : Recorded α Attempt} {t : Recorded β Attempt}
    {f : α → List Attempt → Job (Recorded γ Attempt)}
    {g : β → List Attempt → Job (Recorded δ Attempt)} (h : SameRecord output s t)
    (hf : ∀ a b seen, (∀ x ∈ seen, ¬ output.place <+: x.source.place) →
      Coupled (AlikeOutside output) F (SameRecord output) (f a seen) (g b seen)) :
    Coupled (AlikeOutside output) F (SameRecord output) (s.next f) (t.next g) := by
  obtain ⟨hends, hrecord, houtside⟩ := h
  rcases s with ⟨s, seen⟩
  rcases t with ⟨t, seen'⟩
  obtain rfl : seen' = seen := hrecord
  cases hends with
  | ok _ => exact hf _ _ _ houtside
  | failure _ => exact Coupled.pure ⟨.failure trivial, rfl, houtside⟩
  | badExtension ext => exact Coupled.pure ⟨.badExtension ext, rfl, houtside⟩

/-- What is at a path outside of the output is of the same kind on two disks that agree there. -/
theorem AlikeOutside.nodeItself? {d e : Disk} {p : Path} (hR : AlikeOutside output d e)
    (hp : Straight p) (hplace : ¬ output.place <+: p.place) :
    (∃ f, d.nodeItself? p = .error f ∧ e.nodeItself? p = .error f) ∨
      ∃ m m', d.nodeItself? p = .ok m ∧ e.nodeItself? p = .ok m' ∧ m'.kind = m.kind ∧
        m.kind ≠ .link := by
  have halike := hR.alike (fixed_of_not_isPrefix hplace _ (List.prefix_refl _))
  have hnode := Disk.nodeItself?_eq_node? hR.ready.plain p
  have hnode' := Disk.nodeItself?_eq_node? hR.ready'.plain p
  rcases halike.node? hp with ⟨f, h, h'⟩ | ⟨k, m, h, h', hget, _, hkind⟩
  · exact Or.inl ⟨f, hnode.trans h, hnode'.trans h'⟩
  · refine Or.inr ⟨k, m, hnode.trans h, hnode'.trans h', hkind, fun hlink => ?_⟩
    cases k with
    | link target => exact Node.get?_ne_link hR.ready.plain.tree target hget
    | file _ | dir _ | sink => cases hlink

section

variable {v : Visit σ} {sets : List Text → Met → List Attempt}

/-- What a visit that passes by the output comes to is outside of the output. -/
theorem not_isPrefix_of_not_skips (hout : Straight output) (hroot : Straight v.root)
    (hskips : v.skips = output.isWithin) (hplace : ¬ output.place <+: v.root.place)
    (hnames : ∀ n ∈ names, IsName n) (hskip : names ≠ [] → ¬ v.skips (below v.root names)) :
    ¬ output.place <+: (below v.root names).place := by
  intro hpre
  by_cases hne : names = []
  · subst hne
    exact hplace hpre
  · have hstraight : Straight (below v.root names) :=
      hroot.foldl_child fun n hn => (hnames n hn).toOrdinary
    refine hskip hne ?_
    rw [hskips]
    exact (hstraight.isWithin_iff hout).2 hpre

/-- Two such visits go the same way. -/
theorem parallel_recording (hout : Straight output) (hroot : Straight v.root)
    (hskips : v.skips = output.isWithin) (hplace : ¬ output.place <+: v.root.place) :
    Parallel (AlikeOutside output)
      (fun names => (∀ n ∈ names, IsName n) ∧ ¬ output.place <+: (below v.root names).place)
      (v.recording sets) (v.recording sets) where
  listing d e names hR := fun ⟨hnames, hoff⟩ =>
    hR.listing (hroot.foldl_child fun n hn => (hnames n hn).toOrdinary) hoff
  entry d e names entries hR := by
    rintro ⟨hnames, -⟩ hlisting entry hentry
    have hnext := Disk.isName_concat_of_listing hR.ready.plain hlisting hnames hentry
    by_cases hskip : v.skips (below v.root (names ++ [entry.1]))
    · exact .past hskip hskip
    · exact .onto hskip hskip
        ⟨hnext, not_isPrefix_of_not_skips hout hroot hskips hplace hnext fun _ => hskip⟩

variable
  (hsource : ∀ names m, ∀ a ∈ sets names m, a.source = below v.root names)
  (hends : ∀ a b names m w w', EndAlike ((v.meet a names m).result w).1
    ((v.meet b names m).result w').1)
  (hdisks : ∀ a b names m w w', (∀ n ∈ names, IsName n) →
    ¬ output.place <+: (below v.root names).place → AlikeOutside output w.disk w'.disk →
    AlikeOutside output ((v.meet a names m).result w).2.disk ((v.meet b names m).result w').2.disk)

include hsource hends hdisks

/-- What is met outside of the output is put on record alike. -/
theorem SameRecord.meet {s t : Recorded σ Attempt} (h : SameRecord output s t) (m : Met)
    (hnames : ∀ n ∈ names, IsName n) (hplace : ¬ output.place <+: (below v.root names).place) :
    Coupled (AlikeOutside output) F (SameRecord output) ((v.recording sets).meet s names m)
      ((v.recording sets).meet t names m) := by
  simp only [Visit.recording]
  refine h.next fun a b seen hseen w w' hR => ?_
  constructor
  all_goals rw [Job.result_bind, Job.result_bind, Job.result_ending, Job.result_ending]
  · refine .ok ⟨hends a b names m w w', rfl, fun x hx => ?_⟩
    rcases List.mem_append.1 hx with hx | hx
    · exact hseen x hx
    · rwa [hsource names m x hx]
  · exact hdisks a b names m w w' hnames hplace hR

/-- Two visits that pass by the output, with a record of what they set out to do. -/
theorem SameRecord.run (hout : Straight output) (hroot : Straight v.root)
    (hskips : v.skips = output.isWithin) (hplace : ¬ output.place <+: v.root.place)
    {s t : Recorded σ Attempt} (h : SameRecord output s t) :
    Coupled (AlikeOutside output) F (SameRecord output) ((v.recording sets).run s)
      ((v.recording sets).run t) := by
  have hnil : (∀ n ∈ ([] : List Text), IsName n) ∧ ¬ output.place <+: (below v.root []).place :=
    ⟨by simp, hplace⟩
  exact Coupled.run (parallel_recording hout hroot hskips hplace)
    (fun _ _ _ m hst hat _ => hst.meet hsource hends hdisks m hat.1 hat.2)
    hnil (fun _ _ hR => hR.nodeItself? hroot hplace)
    (fun w w' _ _ hR hst _ => hst.meet hsource hends hdisks .file hnil.1 hnil.2 w w' hR) h

end

theorem source_of_mem_sets (pass : Pass) (output : Path) (names : List Text) (m : Met) :
    ∀ a ∈ pass.sets output names m, a.source = below pass.root names := by
  cases m with
  | unlisted fault => simp [Pass.sets]
  | file =>
      intro a ha
      simp only [Pass.sets] at ha
      split at ha
      · cases ha
      · split at ha
        · split at ha
          · rw [List.mem_singleton.1 ha]
            rfl
          · cases ha
        · split at ha
          · rw [List.mem_singleton.1 ha]
            rfl
          · cases ha

theorem source_of_mem_copySets (dir dst : Path) (names : List Text) (m : Met) :
    ∀ a ∈ copySets dir dst names m, a.source = below dir names := by
  cases m with
  | unlisted fault => simp [copySets]
  | file =>
      intro a ha
      simp only [copySets] at ha
      split at ha
      · cases ha
      · rw [List.mem_singleton.1 ha]
        rfl

/-- What is met is taken alike, or both disks stay alike. -/
theorem AlikeOutside.take (pass : Pass) (hout : Straight output) (hroot : Straight pass.root)
    (hoff : ¬ output.place <+: pass.root.place) (y y' : Yield) (m : Met) {w w' : Work}
    (hnames : ∀ n ∈ names, IsName n) (hplace : ¬ output.place <+: (below pass.root names).place)
    (h : AlikeOutside output w.disk w'.disk) :
    AlikeOutside output ((pass.take output y names m).result w).2.disk
      ((pass.take output y' names m).result w').2.disk := by
  by_cases hm : m = .file ∧ names = []
  · obtain ⟨rfl, rfl⟩ := hm
    have hne : output.place ≠ [] := fun hnil => hoff (hnil ▸ List.nil_prefix)
    simp only [Pass.take]
    split
    · exact h
    · split
      · rw [disk_takeTemplate, disk_takeTemplate]
        cases hdst : pass.outputPath (relativePath []) output with
        | error stop => exact h
        | ok dst => exact h.written hout hne hroot hoff hdst
      · exact h
  · have hm' : m = .file → names ≠ [] := fun hfile hnil => hm ⟨hfile, hnil⟩
    have hsteady : ∀ y, Steady output (Inside output.place) w.disk (fun _ => True)
        (pass.take output y names m) := fun y => steady_take pass hout hroot y m hnames hm' hplace
    exact h.step ((hsteady y).grows w h.ready trivial) ((hsteady y').grows w' h.ready' trivial)

theorem AlikeOutside.copied {dir : Path} (hout : Straight output) (hdir : Straight dir)
    (hn : IsName n) (a b : Nat) (m : Met) {w w' : Work} (hnames : ∀ n ∈ names, IsName n)
    (hplace : ¬ output.place <+: (below dir names).place)
    (h : AlikeOutside output w.disk w'.disk) :
    AlikeOutside output ((copyFile dir (output.child n) a names m).result w).2.disk
      ((copyFile dir (output.child n) b names m).result w').2.disk := by
  have hsteady : ∀ count, Steady output (Inside output.place) w.disk (fun _ => True)
      (copyFile dir (output.child n) count names m) := fun count =>
    steady_copyFile hout hdir hn count m hnames hplace
  exact h.step ((hsteady a).grows w h.ready trivial) ((hsteady b).grows w' h.ready' trivial)

/-- The directories to be copied are found alike, and copied past the output. -/
theorem coupled_recordVerbatim (hout : Straight output) (hsource : Straight source)
    (hoff : ¬ output.place <+: source.place) {copyDirs : List Text}
    (hcopy : ∀ n ∈ copyDirs, Ordinary n) {seen : List Attempt}
    (hseen : ∀ a ∈ seen, ¬ output.place <+: a.source.place) :
    Coupled (AlikeOutside output) F (SameRecord output)
      (recordVerbatim source output copyDirs seen) (recordVerbatim source output copyDirs seen) := by
  refine Coupled.foldlM copyDirs (fun s t hst n hn => ?_) ⟨.ok trivial, rfl, hseen⟩
  refine hst.next fun a b seen hseen => Coupled.look fun w w' hR => ?_
  rw [hR.locate hsource hoff (hcopy n hn)]
  cases hlocate : locate w.disk source n with
  | none => exact Coupled.pure ⟨.ok trivial, rfl, hseen⟩ w w' hR
  | some dir =>
      obtain ⟨hdir, hname, _⟩ := straight_of_locate hR.ready.plain hsource (hcopy n hn) hlocate
      simp only
      by_cases hwithin : output.isWithin dir
      · simp only [hwithin, if_true]
        exact Coupled.pure ⟨.ok trivial, rfl, hseen⟩ w w' hR
      · simp only [hwithin, Bool.false_eq_true, if_false]
        have hplace : ¬ output.place <+: dir.place := fun hpre =>
          hwithin ((hdir.isWithin_iff hout).2 hpre)
        refine SameRecord.run (v := copyVisit output dir (output.child n))
          (source_of_mem_copySets dir _) (fun a b names m w w' => ?_)
          (fun a b names m w w' hnames hplace hR =>
            hR.copied hout hdir hname a b m hnames hplace)
          hout hdir rfl hplace
          (⟨.ok trivial, rfl, hseen⟩ : SameRecord output (.ok a, seen) (.ok b, seen)) w w' hR
        obtain ⟨_, hanswer⟩ := exists_answer_copyFile dir (output.child n) a names m w
        obtain ⟨_, hanswer'⟩ := exists_answer_copyFile dir (output.child n) b names m w'
        simp only [copyVisit, hanswer, hanswer']
        exact .ok trivial

/-- The walk through the sources sets out to do the same. -/
theorem coupled_recordTree (pass : Pass) (hout : Straight output) (hroot : Straight pass.root)
    (hoff : ¬ output.place <+: pass.root.place) {copyDirs : List Text}
    (hcopy : ∀ n ∈ copyDirs, Ordinary n) :
    Coupled (AlikeOutside output) F (SameRecord output) (pass.recordTree output copyDirs [])
      (pass.recordTree output copyDirs []) := by
  refine Coupled.bind (SameRecord.run (v := pass.visit output)
    (source_of_mem_sets pass output)
    (fun y y' names m w w' => endAlike_take pass output y y' names m w w')
    (fun y y' names m w w' hnames hplace hR => hR.take pass hout hroot hoff y y' m hnames hplace)
    hout hroot rfl hoff ⟨.ok trivial, rfl, by simp⟩) fun s t hst =>
      hst.next fun y y' seen hseen => ?_
  refine (coupled_recordVerbatim hout hroot hoff hcopy hseen).bind fun s t hst => ?_
  exact hst.next fun _ _ seen hseen => Coupled.pure ⟨.ok trivial, rfl, hseen⟩

end

/-- The walk of a build, with a record of what it sets out to do. -/
def recordWalk (c : Config) (source output : Path) : Job (Recorded Yield Attempt) := do
  change (Disk.makeDirs output) (.disk output)
  say .build (source.text ++ " -> ".toList ++ output.text)
  (passOf c source).recordTree output c.build.copyDirs []

/-- What the walk of a build sets out to do, in this order: nothing, if the output directory cannot
be made. -/
def attempts (c : Config) (source output : Path) (w : Work) : List Attempt :=
  match ((recordWalk c source output).result w).1 with
  | .ok (_, seen) => seen
  | .error _ => []

/-- The disk after a walk is what comes of its attempts, once the output directory was made. -/
theorem disk_walk (c : Config) (source output : Path) (w : Work) :
    ((walk c source output).result w).2.disk =
      (attempts c source output w).foldl (Attempt.carry (passOf c source))
        (Disk.makeDirs output w.disk).2 := by
  unfold attempts walk recordWalk
  simp only [Job.result_bind, Job.result_change, Job.result_say]
  rcases Disk.makeDirs output w.disk with ⟨made, after⟩
  cases made with
  | error fault => rfl
  | ok u =>
      simp only
      obtain ⟨more, hresult, hdisk⟩ := records_takeTree (passOf c source) output c.build.copyDirs []
        { w with
          disk := after
          log := w.log ++ [⟨.build, source.text ++ " -> ".toList ++ output.text, false⟩] }
      rw [hresult]
      exact hdisk.symm

section

variable (hsource : Straight source) (hout : Straight output) (hwithin : ¬ output.isWithin source)
  (hcopy : ∀ n ∈ c.build.copyDirs, Ordinary n)

include hsource hout hwithin hcopy

/-- From disks that agree outside of the output, the same is set out to be done, and nothing with a
source within the output. -/
theorem attempts_of_alikeOutside {w w' : Work}
    (hmade : Disk.makeDirs output w.disk = (.ok (), d))
    (hmade' : Disk.makeDirs output w'.disk = (.ok (), e)) (h : AlikeOutside output d e) :
    attempts c source output w' = attempts c source output w ∧
      ∀ a ∈ attempts c source output w, ¬ output.place <+: a.source.place := by
  have hoff : ¬ output.place <+: source.place := fun hpre =>
    hwithin ((hsource.isWithin_iff hout).2 hpre)
  unfold attempts recordWalk
  simp only [Job.result_bind, Job.result_change, Job.result_say, hmade, hmade']
  generalize hw : ({ w with
    disk := d
    log := w.log ++ [⟨.build, source.text ++ " -> ".toList ++ output.text, false⟩] } : Work) = v
  generalize hw' : ({ w' with
    disk := e
    log := w'.log ++ [⟨.build, source.text ++ " -> ".toList ++ output.text, false⟩] } : Work) = v'
  have hcoupled := (coupled_recordTree (F := fun _ _ => True) (passOf c source) hout hsource hoff
    hcopy v v' (by rw [← hw, ← hw']; exact h)).answers
  obtain ⟨more, hresult, _⟩ := records_takeTree (passOf c source) output c.build.copyDirs [] v
  obtain ⟨more', hresult', _⟩ := records_takeTree (passOf c source) output c.build.copyDirs [] v'
  rw [hresult, hresult'] at hcoupled ⊢
  cases hcoupled with
  | ok hsame => exact ⟨hsame.record, hsame.outside⟩

theorem outside_of_attempts {w : Work} (hd : w.disk.Plain) :
    ∀ a ∈ attempts c source output w, ¬ output.place <+: a.source.place := by
  rcases hmade : Disk.makeDirs output w.disk with ⟨made, after⟩
  cases made with
  | error fault =>
      unfold attempts recordWalk
      simp [Job.result_bind, Job.result_change, hmade]
  | ok u =>
      have hstands := stands_of_makeDirs hd hout.isAbsolute (by rw [hmade])
      have hplain := (Disk.furnished_makeDirs hd hout.isAbsolute).plain
      rw [hmade] at hstands hplain
      have hready : Ready output after := by
        refine ⟨hplain, hstands.leads.resolve_right fun hnil => hwithin ?_⟩
        rw [hsource.isWithin_iff hout, hnil]
        exact List.nil_prefix
      exact (attempts_of_alikeOutside hsource hout hwithin hcopy hmade hmade (.refl hready)).2

end

/-- What the walk of a build sets out to do never has its source within the output; and it is the
same, in the same order, on disks that agree outside of an output that is there. The record it is
read from tells all that the walk does to the disk. -/
theorem attempts_past_output (hsource : source.isAbsolute)
    (hsource' : source.sameSteps source.normalize) (hout : output.isAbsolute)
    (hout' : output.sameSteps output.normalize) (hwithin : ¬ output.isWithin source)
    (hcopy : ∀ n ∈ c.build.copyDirs, Ordinary n) :
    (∀ w : Work, w.disk.Plain →
      (∀ a ∈ attempts c source output w, ¬ output.place <+: a.source.place) ∧
      ((walk c source output).result w).2.disk =
        (attempts c source output w).foldl (Attempt.carry (passOf c source))
          (Disk.makeDirs output w.disk).2) ∧
    ∀ w w' : Work, w.disk.Plain → w'.disk.Plain → w'.disk.cwd = w.disk.cwd →
      w.disk.isDir output → w'.disk.isDir output →
      (∀ q, ¬ output.place <+: q → w'.disk.root.seen q = w.disk.root.seen q) →
      attempts c source output w' = attempts c source output w := by
  have hsource := Path.straight_of_normalize hsource hsource'
  have hout := Path.straight_of_normalize hout hout'
  refine ⟨fun w hd => ⟨outside_of_attempts hsource hout hwithin hcopy hd, disk_walk c source output w⟩,
    fun w w' hd hd' hcwd hdir hdir' hseen => ?_⟩
  have hready : Ready output w.disk := ⟨hd, Disk.leads_of_isDir hd hout.isAbsolute hdir⟩
  have hready' : Ready output w'.disk := ⟨hd', Disk.leads_of_isDir hd' hout.isAbsolute hdir'⟩
  exact (attempts_of_alikeOutside hsource hout hwithin hcopy (hready.leads.makeDirs hd)
    (hready'.leads.makeDirs hd') ⟨hready, hready', hcwd, hseen⟩).1

/-- A project whose output directory, with what it holds, is inside of a directory to be copied. -/
def nestedProject (held : List (Text × Node)) : Work where
  disk := Disk.put
    { root := .dir [("p".toList, .dir [("site".toList, .dir [
        ("assets".toList, .dir [("a.css".toList, .file "a".toUTF8)]),
        ("pages".toList, .dir [
          ("logo.svg".toList, .file "<svg/>".toUTF8),
          ("page.pw".toList, .file "<p>home</p>".toUTF8)])])])]
      cwd := [] }
    ["p".toList, "site".toList, "assets".toList, "out".toList] (some (.dir held))

theorem attempts_past_output_nested :
    (attempts (copying "assets".toList) ⟨"/p/site".toList⟩ ⟨"/p/site/assets/out".toList⟩
        (nestedProject [])).map (fun a => (String.ofList a.source.text, String.ofList a.dest.text)) =
      [("/p/site/pages/logo.svg", "/p/site/assets/out/pages/logo.svg"),
        ("/p/site/pages/page.pw", "/p/site/assets/out/pages/page.js"),
        ("/p/site/assets/a.css", "/p/site/assets/out/assets/a.css")] ∧
      attempts (copying "assets".toList) ⟨"/p/site".toList⟩ ⟨"/p/site/assets/out".toList⟩
          (nestedProject [("old.pw".toList, .file "<p>old</p>".toUTF8)]) =
        attempts (copying "assets".toList) ⟨"/p/site".toList⟩ ⟨"/p/site/assets/out".toList⟩
          (nestedProject []) ∧
      ∀ a ∈ attempts (copying "assets".toList) ⟨"/p/site".toList⟩ ⟨"/p/site/assets/out".toList⟩
          (nestedProject [("old.pw".toList, .file "<p>old</p>".toUTF8)]),
        ¬ Path.place ⟨"/p/site/assets/out".toList⟩ <+: a.source.place := by
  have hpast := @attempts_past_output ⟨"/p/site".toList⟩ ⟨"/p/site/assets/out".toList⟩
    (copying "assets".toList) (by decide) (by decide) (by decide) (by decide) (by decide)
    (by decide)
  have hseen : ∀ held q, ¬ Path.place ⟨"/p/site/assets/out".toList⟩ <+: q →
      (nestedProject held).disk.root.seen q = (nestedProject []).disk.root.seen q := by
    intro held q hq
    have hset := fun new => @Node.seen_set _ "out".toList new
      (.dir [("p".toList, .dir [("site".toList, .dir [
        ("assets".toList, .dir [("a.css".toList, .file "a".toUTF8)]),
        ("pages".toList, .dir [
          ("logo.svg".toList, .file "<svg/>".toUTF8),
          ("page.pw".toList, .file "<p>home</p>".toUTF8)])])])])
      ["p".toList, "site".toList, "assets".toList] rfl q
    exact (hset (.dir held)).trans (((if_neg hq).trans (if_neg hq).symm).trans (hset (.dir [])).symm)
  refine ⟨by decide +kernel, ?_, ?_⟩
  · exact hpast.2 _ _ ⟨by decide, by decide⟩ ⟨by decide, by decide⟩ rfl (by decide) (by decide)
      (hseen _)
  · exact (hpast.1 _ ⟨by decide, by decide⟩).1

end Build

end Quire
