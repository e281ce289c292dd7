import Quire.Proofs.Build.Recording
import Quire.Proofs.Disk.Twins

/-!
What is done with a file on twin disks, which differ by one template and what came of it. The
template itself may be taken on one of them alone, and any other file is taken alike on both if its
output stands apart: then they are twins still.
-/

namespace Quire.Build

open Disk (Place Leads Node IsName IsLong Twinned Agree Direct stations)
open Quire.Path (Ordinary)

variable {d d' e e' : Disk} {pass : Pass} {output : Path} {dir names t x : List Text}
  {n m : Text} {f : Finding} {strict : Prop} {a b : Fate}

/-! How a file ends, told from what it is taken for. -/

namespace Ends

theorem of_compiles (h : Ends pass output d e names .file a) (htemplate : pass.Compiles names) :
    (∃ cause, pass.outcome d (below pass.root names) = .error (.failure cause) ∧ a = .failed cause) ∨
      (pass.outcome d (below pass.root names) = .ok .clientOnly ∧ a = .clientOnly) ∨
      ∃ dst code references,
        pass.outcome d (below pass.root names) = .ok (.module code references) ∧
        pass.outputPath (relativePath names) output = .ok dst ∧
        (writable dst code e = .ok () ∧ a = .transpiled references ∨
          ∃ at' fault, writable dst code e = .error (at', fault) ∧
            a = .failed (.source (.disk at' fault))) := by
  cases h with
  | passed hno _ => exact absurd htemplate hno
  | refused _ houtcome => exact Or.inl ⟨_, houtcome, rfl⟩
  | clientOnly _ houtcome => exact Or.inr (Or.inl ⟨houtcome, rfl⟩)
  | transpiled _ houtcome hdst hwritten =>
      exact Or.inr (Or.inr ⟨_, _, _, houtcome, hdst, Or.inl ⟨hwritten, rfl⟩⟩)
  | unwritten _ houtcome hdst hwritten =>
      exact Or.inr (Or.inr ⟨_, _, _, houtcome, hdst, Or.inr ⟨_, _, hwritten, rfl⟩⟩)
  | copied hasset _ => exact absurd htemplate.2 hasset.2.1
  | uncopied hasset _ => exact absurd htemplate.2 hasset.2.1

theorem of_carries (h : Ends pass output d e names .file a) (hasset : pass.Carries names) :
    ((Disk.copyInto (below pass.root names) (output.join (relativePath names)) e).1 = .ok () ∧
        a = .copied) ∨
      ∃ fault, (Disk.copyInto (below pass.root names) (output.join (relativePath names)) e).1 =
          .error fault ∧ a = .failed (.notCopied (below pass.root names) fault) := by
  cases h with
  | passed _ hno => exact absurd hasset hno
  | refused htemplate _ => exact absurd htemplate.2 hasset.2.1
  | clientOnly htemplate _ => exact absurd htemplate.2 hasset.2.1
  | transpiled htemplate _ _ _ => exact absurd htemplate.2 hasset.2.1
  | unwritten htemplate _ _ _ => exact absurd htemplate.2 hasset.2.1
  | copied _ hcopied => exact Or.inl ⟨hcopied, rfl⟩
  | uncopied _ hcopied => exact Or.inr ⟨_, hcopied, rfl⟩

end Ends

/-- Two ends that are the same, or, if that is not asked for, two failures. -/
def Fate.Like (strict : Prop) (a b : Fate) : Prop :=
  b = a ∨ ¬ strict ∧ a.failure?.isSome ∧ b.failure?.isSome

theorem Fate.Like.references (h : Fate.Like strict a b) : b.references = a.references := by
  rcases h with rfl | ⟨-, ha, hb⟩
  · rfl
  · cases a <;> cases b <;> simp_all [Fate.failure?, Fate.references]

theorem like_of_compiles (h : Ends pass output d e names .file a)
    (h' : Ends pass output d' e' names .file b) (htemplate : pass.Compiles names)
    (houtcome : pass.outcome d' (below pass.root names) = pass.outcome d (below pass.root names))
    (hwrite : ∀ dst code, pass.outputPath (relativePath names) output = .ok dst →
      Agree strict (writable dst code e) (writable dst code e')) : Fate.Like strict a b := by
  have hb := h'.of_compiles htemplate
  rw [houtcome] at hb
  rcases h.of_compiles htemplate with ⟨cause, ho, rfl⟩ | ⟨ho, rfl⟩ | ⟨dst, code, refs, ho, hdst, ha⟩
  · rw [ho] at hb
    rcases hb with ⟨cause', hcause, rfl⟩ | ⟨hclient, -⟩ | ⟨_, _, _, hmodule, -⟩
    · obtain rfl := Stop.failure.inj (Except.error.inj hcause)
      exact Or.inl rfl
    · cases hclient
    · cases hmodule
  · rw [ho] at hb
    rcases hb with ⟨cause', hcause, -⟩ | ⟨-, rfl⟩ | ⟨_, _, _, hmodule, -⟩
    · cases hcause
    · exact Or.inl rfl
    · cases hmodule
  · rw [ho] at hb
    rcases hb with ⟨cause', hcause, -⟩ | ⟨hclient, -⟩ | ⟨dst', code', refs', hmodule, hdst', hb⟩
    · cases hcause
    · cases hclient
    · obtain ⟨rfl, rfl⟩ := Outcome.module.inj (Except.ok.inj hmodule)
      obtain rfl := Except.ok.inj (hdst.symm.trans hdst')
      have hagree := hwrite dst code hdst
      rcases ha with ⟨hok, rfl⟩ | ⟨at', fault, herror, rfl⟩ <;>
        rcases hb with ⟨hok', rfl⟩ | ⟨at'', fault', herror', rfl⟩ <;>
        simp_all [Agree, Fate.Like, Fate.failure?]

theorem like_of_carries (h : Ends pass output d e names .file a)
    (h' : Ends pass output d' e' names .file b) (hasset : pass.Carries names)
    (hcopy : Agree strict
      (Disk.copyInto (below pass.root names) (output.join (relativePath names)) e).1
      (Disk.copyInto (below pass.root names) (output.join (relativePath names)) e').1) :
    Fate.Like strict a b := by
  rcases h.of_carries hasset with ⟨hok, rfl⟩ | ⟨fault, herror, rfl⟩ <;>
    rcases h'.of_carries hasset with ⟨hok', rfl⟩ | ⟨fault', herror', rfl⟩ <;>
    simp_all [Agree, Fate.Like, Fate.failure?]

/-! Where the output of a source stands. -/

/-- Where the output of a source stands, by names below the output directory: in the directory of
the source, under the name of the module if it is a template. -/
def Pass.mirror (pass : Pass) (names : List Text) : List Text :=
  if (below pass.root names).extension? = some pass.ext.template then
    names.dropLast ++ names.getLast?.toList.map (Path.renamed · pass.ext.module)
  else names

theorem mirror_of_compiles (htemplate : pass.Compiles (dir ++ [n])) :
    pass.mirror (dir ++ [n]) = dir ++ [Path.renamed n pass.ext.module] := by
  rw [Pass.mirror, if_pos htemplate.2]
  simp

theorem mirror_of_carries (hasset : pass.Carries names) : pass.mirror names = names := by
  rw [Pass.mirror, if_neg hasset.2.1]

/-- Neither of two lists of names begins with the other. -/
def Apart (a b : List Text) : Prop := ¬ a <+: b ∧ ¬ b <+: a

instance (a b : List Text) : Decidable (Apart a b) := inferInstanceAs (Decidable (_ ∧ _))

/-- The directories on the way to the output of a source. -/
def outputWays (output : Path) (names : List Text) : List Place :=
  stations [] (below output names.dropLast).trimmed.inner

/-- Two disks on which all is the same but for one template and what came of it. -/
abbrev Pass.Twins (pass : Pass) (output : Path) (t : List Text) (d e : Disk) : Prop :=
  Disk.Twins (outputWays output t) (pass.root.place ++ t) (output.place ++ pass.mirror t) d e

/-- A template that is not within the output. -/
structure Lone (pass : Pass) (output : Path) (t : List Text) : Prop where
  root : pass.root.isAbsolute
  out : output.isAbsolute
  ext : '/' ∉ pass.ext.module
  ne_nil : t ≠ []
  isName : ∀ n ∈ t, IsName n
  compiles : pass.Compiles t
  outside : ¬ Inside output.place (pass.root.place ++ t)

/-- The disk after what a pass does with a file. -/
def Pass.after (pass : Pass) (output : Path) (d : Disk) (names : List Text) : Disk :=
  (pass.sets output names .file).foldl (Attempt.carry pass) d

theorem after_of_compiles {dst : Path} (htemplate : pass.Compiles names)
    (hdst : pass.outputPath (relativePath names) output = .ok dst) :
    pass.after output d names = pass.written (below pass.root names) dst d := by
  simp only [Pass.after, Pass.sets, htemplate.1, htemplate.2, hdst]
  rfl

theorem after_of_carries (hasset : pass.Carries names) :
    pass.after output d names =
      (Disk.copyInto (below pass.root names) (output.join (relativePath names)) d).2 := by
  simp only [Pass.after, Pass.sets, hasset.1, hasset.2.1, hasset.2.2]
  rfl

theorem after_of_other (htemplate : ¬ pass.Compiles names) (hasset : ¬ pass.Carries names) :
    pass.after output d names = d := by
  unfold Pass.Compiles at htemplate
  unfold Pass.Carries at hasset
  unfold Pass.after Pass.sets
  dsimp only
  split
  · rfl
  · split
    · simp_all
    · split
      · simp_all
      · rfl

namespace Lone

variable (hl : Lone pass output t)

include hl

theorem mirror_eq : ∃ m, pass.mirror t = t.dropLast ++ [m] ∧ (Ordinary m ∨ m = ['.', '.']) ∧
    pass.outputPath (relativePath t) output = .ok ((below output t.dropLast).child m) := by
  have hcompiles := hl.compiles
  have hisName := hl.isName
  obtain ⟨dir, n, rfl⟩ := (List.eq_nil_or_concat' t).resolve_left hl.ne_nil
  have hn : Ordinary n := (hisName n (by simp)).toOrdinary
  have hdir : ∀ m ∈ dir, Ordinary m := fun m hm =>
    (hisName m (List.mem_append_left [n] hm)).toOrdinary
  refine ⟨_, by rw [mirror_of_compiles hcompiles, List.dropLast_concat],
    Path.renamed_cases hn hl.ext, ?_⟩
  rw [List.dropLast_concat]
  exact outputPath_of_noSlash pass output hdir hn hl.ext

theorem dropLast_isPrefix : t.dropLast <+: pass.mirror t := by
  obtain ⟨m, hmirror, -⟩ := hl.mirror_eq
  rw [hmirror]
  exact List.prefix_append _ _

theorem isName_dropLast : ∀ n ∈ t.dropLast, IsName n := fun n hn =>
  hl.isName n (List.dropLast_subset t hn)

theorem mem_outputWays {q : Place} : q ∈ outputWays output t ↔
    q ∈ stations [] output.inner ∨ ∃ pre, pre ≠ [] ∧ pre <+: t.dropLast ∧ q = output.place ++ pre :=
  Disk.mem_stations_below hl.out (ordinary_of_isName hl.isName_dropLast)

/-- The template itself may be taken on one of the disks alone. -/
theorem take_alone (h : pass.Twins output t d e) :
    pass.Twins output t (pass.after output d t) e := by
  obtain ⟨m, hmirror, hm, hdst⟩ := hl.mirror_eq
  have habove := isAbsolute_below hl.out t.dropLast
  have hbelow : (below output t.dropLast).place = output.place ++ t.dropLast :=
    place_below hl.out (ordinary_of_isName hl.isName_dropLast)
  rw [after_of_compiles hl.compiles hdst, Pass.written]
  split
  · next code _ _ =>
      have hidle := Path.noSlash_and_not_isIdle hm
      rw [Disk.Change.andThen, makeParents_child habove hidle.1 hidle.2]
      have hmade := h.makeDirs_alone (Path.isAbsolute_trimmed habove) (Path.trimmed_trimmed _)
        (List.Subset.refl _)
      have hdirs := (Disk.laid_makeDirs h.plain (Path.isAbsolute_trimmed habove)
        (Path.trimmed_trimmed _)).2
      rcases hmake : Disk.makeDirs (below output t.dropLast).trimmed d with ⟨answer, mid⟩
      rw [hmake] at hmade hdirs
      cases answer with
      | error f => exact hmade
      | ok u =>
          simp only
          cases hwrite : mid.writeText ((below output t.dropLast).child m) code with
          | error f =>
              rw [Disk.ofWhole_error hwrite]
              exact hmade
          | ok d' =>
              rw [Disk.ofWhole_ok hwrite]
              rcases hm with hm | rfl
              · have hwrote := Disk.wrote_write hmade.plain (Path.isAbsolute_child habove m) hwrite
                rw [Path.place_child habove hm, hbelow, List.append_assoc, ← hmirror] at hwrote
                exact hmade.wrote_goal (fun hways => hwrote.free (hdirs rfl _ hways)) hwrote
              · exact absurd hwrite (Disk.write_up_ne_ok hmade.plain habove)
  · exact h

section

variable (hdir : ∀ n ∈ dir, IsName n) (hm : Ordinary m ∨ m = ['.', '.'])
  (hapart : Apart (pass.mirror t) (dir ++ [m]))

include hdir hapart

/-- The directories above the output of another source are made alike. -/
theorem parents (h : pass.Twins output t d e)
    (hstrict : strict → Direct d.root output ∧ Direct e.root output) :
    Twinned strict (outputWays output t) (pass.root.place ++ t) (output.place ++ pass.mirror t)
      (Disk.makeDirs (below output dir).trimmed d) (Disk.makeDirs (below output dir).trimmed e) := by
  refine h.makeDirs hl.out hdir (fun q hq => hl.mem_outputWays.2 (Or.inl hq)) (fun hgoal => ?_)
    hstrict
  rcases (Disk.mem_stations_below hl.out (ordinary_of_isName hdir)).1 hgoal with
    hmem | ⟨pre, -, hpre, heq⟩
  · exact hl.mem_outputWays.2 (Or.inl hmem)
  · rw [List.append_cancel_left heq] at hapart
    exact absurd (hpre.trans (List.prefix_append dir [m])) hapart.1

/-- Where they were made, they are there. -/
theorem parents_there (hd : d.Plain)
    (h : (Disk.makeDirs (below output dir).trimmed d).1 = .ok ()) :
    (Disk.checkPath (below output dir) = .ok () →
      Leads (Disk.makeDirs (below output dir).trimmed d).2 (below output dir)) ∧
    ((below output dir).place ++ [m] ∈ outputWays output t →
      (Disk.makeDirs (below output dir).trimmed d).2.root.kindAt ((below output dir).place ++ [m]) =
        some .dir) := by
  have habove := isAbsolute_below hl.out dir
  refine ⟨fun hcheck => Disk.leads_of_makeDirs hd habove hcheck h, fun hways => ?_⟩
  refine (Disk.laid_makeDirs hd (Path.isAbsolute_trimmed habove) (Path.trimmed_trimmed _)).2 h _ ?_
  refine (Disk.mem_stations_below hl.out (ordinary_of_isName hdir)).2 (Or.inl ?_)
  refine (hl.mem_outputWays.1 hways).resolve_right ?_
  rintro ⟨pre, -, hpre, heq⟩
  rw [place_below hl.out (ordinary_of_isName hdir), List.append_assoc] at heq
  rw [List.append_cancel_left heq] at hapart
  exact hapart.2 (hpre.trans hl.dropLast_isPrefix)

omit hdir in
theorem ne_goal (hdir : ∀ n ∈ dir, IsName n) :
    (below output dir).place ++ [m] ≠ output.place ++ pass.mirror t := by
  intro heq
  rw [place_below hl.out (ordinary_of_isName hdir), List.append_assoc] at heq
  rw [List.append_cancel_left heq] at hapart
  exact hapart.1 List.prefix_rfl

omit hapart in
theorem ne_src : (below output dir).place ++ [m] ≠ pass.root.place ++ t := by
  intro heq
  rw [place_below hl.out (ordinary_of_isName hdir)] at heq
  exact hl.outside (heq ▸ inside_append_concat)


include hm

/-- What stands in the output for another source is written alike. -/
theorem writes (h : pass.Twins output t d e)
    (hstrict : strict → Direct d.root output ∧ Direct e.root output) (code : Text) :
    Agree strict (writable ((below output dir).child m) code d)
        (writable ((below output dir).child m) code e) ∧
      pass.Twins output t
        ((Disk.makeParents ((below output dir).child m)).andThen
          (.ofWhole (·.writeText ((below output dir).child m) code)) d).2
        ((Disk.makeParents ((below output dir).child m)).andThen
          (.ofWhole (·.writeText ((below output dir).child m) code)) e).2 := by
  have habove := isAbsolute_below hl.out dir
  have hidle := Path.noSlash_and_not_isIdle hm
  have hparents := hl.parents hdir hapart h hstrict
  have hthere := hl.parents_there hdir hapart h.plain
  have hthere' := hl.parents_there hdir hapart h.plain'
  rw [makeParents_child habove hidle.1 hidle.2]
  have hwritten : (Disk.makeDirs (below output dir).trimmed d).1 = .ok () →
      (Disk.makeDirs (below output dir).trimmed e).1 = .ok () →
      Twinned strict (outputWays output t) (pass.root.place ++ t) (output.place ++ pass.mirror t)
        (Disk.Change.ofWhole (·.writeText ((below output dir).child m) code)
          (Disk.makeDirs (below output dir).trimmed d).2)
        (Disk.Change.ofWhole (·.writeText ((below output dir).child m) code)
          (Disk.makeDirs (below output dir).trimmed e).2) := fun hok hok' =>
    hparents.disks.writeText habove
      (fun hcheck => ⟨(hthere hok).1 hcheck, (hthere' hok').1 hcheck⟩) hm (hl.ne_src hdir)
      (hl.ne_goal hapart hdir) (fun hways => ⟨(hthere hok).2 hways, (hthere' hok').2 hways⟩) code
  refine ⟨?_, (hparents.andThen hwritten).disks⟩
  unfold writable
  rw [makeParents_child habove hidle.1 hidle.2]
  have hanswers := hparents.answers
  rcases hmake : Disk.makeDirs (below output dir).trimmed d with ⟨answer, mid⟩
  rcases hmake' : Disk.makeDirs (below output dir).trimmed e with ⟨answer', mid'⟩
  rw [hmake, hmake'] at hanswers hwritten
  cases answer with
  | error f => cases answer' <;> simp_all [Agree]
  | ok u =>
      cases answer' with
      | error f => simp_all [Agree]
      | ok u' =>
          have hanswers := (hwritten rfl rfl).answers
          simp only at hanswers ⊢
          cases hwrite : mid.writeText ((below output dir).child m) code <;>
            cases hwrite' : mid'.writeText ((below output dir).child m) code <;>
            simp_all [Agree, Disk.Change.ofWhole]

/-- Another file is copied into the output alike. -/
theorem copies (h : pass.Twins output t d e)
    (hstrict : strict → Direct d.root output ∧ Direct e.root output) {source : Path}
    (hsource : source.isAbsolute)
    (hfile : ∀ mid mid' : Disk, pass.Twins output t mid mid' → Disk.Furnished d mid →
      Disk.Furnished e mid' →
      (∃ f, mid.place? source = .error f ∧ mid'.place? source = .error f) ∨
        ∃ bytes, mid.place? source = .ok source.place ∧ mid'.place? source = .ok source.place ∧
          mid.root.bytesAt source.place = some bytes ∧
          mid'.root.bytesAt source.place = some bytes) :
    Twinned strict (outputWays output t) (pass.root.place ++ t) (output.place ++ pass.mirror t)
      (Disk.copyInto source ((below output dir).child m) d)
      (Disk.copyInto source ((below output dir).child m) e) := by
  have habove := isAbsolute_below hl.out dir
  have hidle := Path.noSlash_and_not_isIdle hm
  have hparents := hl.parents hdir hapart h hstrict
  have hthere := hl.parents_there hdir hapart h.plain
  have hthere' := hl.parents_there hdir hapart h.plain'
  unfold Disk.copyInto
  rw [makeParents_child habove hidle.1 hidle.2]
  refine hparents.andThen fun hok hok' => hparents.disks.copy habove
    (fun hcheck => ⟨(hthere hok).1 hcheck, (hthere' hok').1 hcheck⟩) hm (hl.ne_src hdir)
    (hl.ne_goal hapart hdir) (fun hways => ⟨(hthere hok).2 hways, (hthere' hok').2 hways⟩)
    hsource ?_
  exact hfile _ _ hparents.disks
    (Disk.furnished_makeDirs h.plain (Path.isAbsolute_trimmed habove))
    (Disk.furnished_makeDirs h.plain' (Path.isAbsolute_trimmed habove))

end

/-- A place that is not within the output is not the goal of the template. -/
theorem ne_goal_of_outside {q : Place} (hq : ¬ Inside output.place q) :
    q ≠ output.place ++ pass.mirror t := by
  rintro rfl
  obtain ⟨m, hmirror, -⟩ := hl.mirror_eq
  refine hq (inside_append ?_)
  rw [hmirror]
  simp

section

variable (h : pass.Twins output t e e') (hleads : Leads e pass.root) (hleads' : Leads e' pass.root)
  (hnames : ∀ n ∈ x, IsName n) (hne : x ≠ []) (hother : x ≠ t)
  (hstrict : strict → Direct e.root output ∧ Direct e'.root output)

include h hnames hne hstrict

/-- Another template is taken alike. -/
theorem take_template (htemplate : pass.Compiles x)
    (hapart : Apart (pass.mirror t) (pass.mirror x))
    (hsame : pass.outcome e' (below pass.root x) = pass.outcome e (below pass.root x)) :
    (∀ dst code, pass.outputPath (relativePath x) output = .ok dst →
      Agree strict (writable dst code e) (writable dst code e')) ∧
    pass.Twins output t (pass.after output e x) (pass.after output e' x) := by
  obtain ⟨dir, n, rfl⟩ := (List.eq_nil_or_concat' x).resolve_left hne
  have hdir : ∀ m ∈ dir, IsName m := fun m hm => hnames m (List.mem_append_left [n] hm)
  have hn : Ordinary n := (hnames n (by simp)).toOrdinary
  have hdst := outputPath_of_noSlash pass output (ordinary_of_isName hdir) hn hl.ext
  rw [mirror_of_compiles htemplate] at hapart
  have hwrites := hl.writes hdir (Path.renamed_cases hn hl.ext) hapart h hstrict
  constructor
  · intro dst code hdst'
    obtain rfl := Except.ok.inj (hdst.symm.trans hdst')
    exact (hwrites code).1
  · rw [after_of_compiles htemplate hdst, after_of_compiles htemplate hdst, Pass.written,
      Pass.written, hsame]
    cases pass.outcome e (below pass.root (dir ++ [n])) with
    | error stop => exact h
    | ok outcome =>
        cases outcome with
        | clientOnly => exact h
        | module code references => exact (hwrites code).2

include hleads hleads' hother

/-- Another file is taken alike. -/
theorem take_asset (hfile : e.root.kindAt (pass.root.place ++ x) = some .file)
    (houtside : ¬ Inside output.place (pass.root.place ++ x)) (hasset : pass.Carries x)
    (hapart : Apart (pass.mirror t) (pass.mirror x)) :
    Agree strict
      (Disk.copyInto (below pass.root x) (output.join (relativePath x)) e).1
      (Disk.copyInto (below pass.root x) (output.join (relativePath x)) e').1 ∧
    pass.Twins output t (pass.after output e x) (pass.after output e' x) := by
  obtain ⟨dir, n, rfl⟩ := (List.eq_nil_or_concat' x).resolve_left hne
  have hdir : ∀ m ∈ dir, IsName m := fun m hm => hnames m (List.mem_append_left [n] hm)
  have hn : IsName n := hnames n (by simp)
  have hplace : (below pass.root (dir ++ [n])).place = pass.root.place ++ (dir ++ [n]) :=
    place_below hl.root (ordinary_of_isName hnames)
  rw [mirror_of_carries hasset] at hapart
  rw [after_of_carries hasset, after_of_carries hasset, join_relativePath hdir hn]
  have hcopied := hl.copies hdir (Or.inl hn.toOrdinary) hapart h hstrict
    (isAbsolute_below hl.root (dir ++ [n])) fun mid mid' htwins hmid hmid' => ?_
  · exact ⟨hcopied.answers, hcopied.disks⟩
  · have hkind := hmid.kindAt hfile
    obtain ⟨bytes, hbytes⟩ := Node.kindAt_file_iff.1 hkind
    have hbytes' := (htwins.bytesAt (fun heq => hother (List.append_cancel_left heq))
      (hl.ne_goal_of_outside houtside)).trans hbytes
    rw [hplace, place?_below hmid.plain (hleads.of_kinds fun _ _ => hmid.kindAt) hnames hne
        (by rw [hkind]; rfl),
      place?_below hmid'.plain (hleads'.of_kinds fun _ _ => hmid'.kindAt) hnames hne
        (by rw [Node.kindAt_file_iff.2 ⟨bytes, hbytes'⟩]; rfl)]
    by_cases hlong : IsLong (below pass.root (dir ++ [n]))
    · rw [if_pos hlong]
      exact Or.inl ⟨_, rfl, rfl⟩
    · rw [if_neg hlong]
      exact Or.inr ⟨bytes, rfl, rfl, hbytes, hbytes'⟩

/-- Whatever is done with another file, it ends alike. -/
theorem take_other (hfile : e.root.kindAt (pass.root.place ++ x) = some .file)
    (houtside : ¬ Inside output.place (pass.root.place ++ x))
    (hapart : pass.Compiles x ∨ pass.Carries x → Apart (pass.mirror t) (pass.mirror x))
    (houtcome : pass.outcome e (below pass.root x) = pass.outcome d (below pass.root x))
    (houtcome' : pass.outcome e' (below pass.root x) = pass.outcome d' (below pass.root x))
    (hsame : pass.outcome d' (below pass.root x) = pass.outcome d (below pass.root x))
    (hends : Ends pass output d e x .file a) (hends' : Ends pass output d' e' x .file b) :
    Fate.Like strict a b ∧ pass.Twins output t (pass.after output e x) (pass.after output e' x) := by
  by_cases htemplate : pass.Compiles x
  · obtain ⟨hwrite, htwins⟩ := hl.take_template h hnames hne hstrict htemplate
      (hapart (Or.inl htemplate)) (houtcome'.trans (hsame.trans houtcome.symm))
    exact ⟨like_of_compiles hends hends' htemplate hsame hwrite, htwins⟩
  · by_cases hasset : pass.Carries x
    · obtain ⟨hcopy, htwins⟩ := hl.take_asset h hleads hleads' hnames hne hother hstrict hfile
        houtside hasset (hapart (Or.inr hasset))
      exact ⟨like_of_carries hends hends' hasset hcopy, htwins⟩
    · rw [after_of_other htemplate hasset, after_of_other htemplate hasset]
      rw [hends.other htemplate hasset, hends'.other htemplate hasset]
      exact ⟨Or.inl rfl, h⟩

end

end Lone

end Quire.Build
