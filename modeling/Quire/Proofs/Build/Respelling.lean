import Quire.Proofs.Build.Disregarding
import Quire.Proofs.Build.Synonyms

/-!
One build under two spellings of its paths. What a template gives, where it goes and what is copied
depend on the places that the paths lead to; so the walks of two such builds keep to one disk, step
by step, and report the same, up to how they spell the paths of what failed.
-/

namespace Quire

/-! What is told, up to how paths are spelled. -/

/-- The fault with its paths in normal form. -/
def TableFault.settled : TableFault → TableFault
  | .missing route file => .missing route file.normalize
  | .noScript => .noScript

/-- The failure with its paths in normal form. -/
def SourceFailure.settled : SourceFailure → SourceFailure
  | .disk path cause => .disk path.normalize cause
  | .template path fault => .template path.normalize fault

/-- The failure with its paths in normal form. -/
def ConfigFailure.settled : ConfigFailure → ConfigFailure
  | .disk path cause => .disk path.normalize cause
  | f => f

/-- The failure with its paths in normal form. -/
def Failure.settled : Failure → Failure
  | .source f => .source f.settled
  | .config f => .config f.settled
  | .wrongExtension path expected => .wrongExtension path.normalize expected
  | .nothingAt path => .nothingAt path.normalize
  | .table path fault => .table path.normalize fault.settled
  | .disk path cause => .disk path.normalize cause
  | .unlisted path cause => .unlisted path.normalize cause
  | .unscanned path cause => .unscanned path.normalize cause
  | .notCopied path cause => .notCopied path.normalize cause
  | .notMade path cause => .notMade path.normalize cause
  | .notWritten path cause => .notWritten path.normalize cause
  | .outputHoldsSource output held => .outputHoldsSource output.normalize held.normalize
  | .holdsWorkingDir path => .holdsWorkingDir path.normalize
  | f => f

/-- Two failures are told alike that differ at most in the spelling of their paths. -/
def ToldAlike (f g : Failure) : Prop := g.settled = f.settled

theorem ToldAlike.refl (f : Failure) : ToldAlike f f := rfl

namespace Path

variable {p q : Path} {n : Text}

theorem place_child_congr (hp : p.isAbsolute) (hq : q.isAbsolute) (hn : '/' ∉ n)
    (hplace : q.place = p.place) : (q.child n).place = (p.child n).place := by
  have hrelative := not_isAbsolute_of_noSlash hn
  rw [child, child, place_join hp hrelative, place_join hq hrelative, hplace]

/-- How much longer a name gets by another extension. -/
theorem byteSize_renamed (hn : Ordinary n) (ext : Text) :
    (renamed n ext).byteSize ≤ n.byteSize + (ext.byteSize + 1) := by
  have hdotted : (dotted ext).byteSize ≤ ext.byteSize + 1 := by
    unfold dotted
    split
    · exact Nat.zero_le _
    · have hdot : Text.byteSize ('.' :: ext) = 1 + ext.byteSize := rfl
      omega
  obtain ⟨hstem, -, -⟩ := stem_isPrefix hn
  have hle := Disk.byteSize_le_of_isPrefix hstem
  unfold renamed
  rcases hparts : nameParts n with ⟨stem, old⟩
  replace hle : stem.byteSize ≤ n.byteSize := by rwa [hparts] at hle
  cases old with
  | none =>
      simp only [Text.byteSize_append]
      omega
  | some old =>
      simp only
      split
      · next hdot =>
          obtain ⟨rfl, -, -⟩ := nameParts_eq_some hparts
          subst hdot
          have hdots : Text.byteSize ['.', '.'] ≤ Text.byteSize (['.'] ++ '.' :: old) :=
            Disk.byteSize_le_of_isPrefix ⟨old, rfl⟩
          omega
      · rw [Text.byteSize_append]
        omega

end Path

namespace Build

open Disk (Place IsName Leads extent)
open Quire.Path (Ordinary)

variable {d e start : Disk} {out q : Place} {limit room : Nat} {output : Path}
  {names front : List Text} {n : Text} {y y' : Yield}

/-- Below two spellings of one directory, paths have one normal form. -/
theorem Synonyms.normalize_below {p q : Path} (h : Synonyms d room p q)
    (hnames : ∀ m ∈ names, Ordinary m) :
    (Build.below q names).normalize = (Build.below p names).normalize := by
  rw [Path.normalize_eq_iff (isAbsolute_below h.leads.isAbsolute names)
    (isAbsolute_below h.leads'.isAbsolute names), place_below h.leads'.isAbsolute hnames,
    place_below h.leads.isAbsolute hnames, h.place]

/-- What came of a source tree, with the paths of what failed in normal form. -/
def Yield.settled (y : Yield) : Yield :=
  { y with failed := y.failed.map fun (p, f) => (p.normalize, f.settled) }

/-- Two yields that differ at most in the spelling of paths. -/
structure Yield.Alike (y y' : Yield) : Prop where
  transpiled : y'.transpiled = y.transpiled
  clientOnly : y'.clientOnly = y.clientOnly
  copied : y'.copied = y.copied
  failed : y'.settled.failed = y.settled.failed
  references : y'.references = y.references

theorem Yield.Alike.refl (y : Yield) : y.Alike y := ⟨rfl, rfl, rfl, rfl, rfl⟩

/-! What changes below an output that is spelled in two ways. -/

/-- In an output, under names that take no more than so many bytes. -/
def Grown (out : Place) (limit : Nat) (q : Place) : Prop :=
  ∃ names, names ≠ [] ∧ q = out ++ names ∧ extent names ≤ limit

theorem Grown.inside (h : Grown out limit q) : Inside out q := by
  obtain ⟨names, hne, rfl, -⟩ := h
  exact inside_append hne

section

variable (hd : d.Plain) (hout : Leads d output) (hfront : ∀ m ∈ front, IsName m)

include hd hout hfront

theorem reworked_makeDirs (hlimit : extent front ≤ limit) :
    Reworked (Grown output.place limit) d (Disk.makeDirs (below output front).trimmed d).2 :=
  reworked_makeDirs_below hd hout hfront fun pre hne hpre =>
    ⟨pre, hne, rfl, Nat.le_trans (Disk.extent_le_of_isPrefix hpre) hlimit⟩

omit hd in
theorem grown_place_child (hn : Ordinary n) (hlimit : extent front + (n.byteSize + 1) ≤ limit) :
    Grown output.place limit ((below output front).child n).place := by
  refine ⟨front ++ [n], by simp, ?_, by simpa using hlimit⟩
  rw [Path.place_child (isAbsolute_below hout.isAbsolute front) hn,
    place_below hout.isAbsolute (ordinary_of_isName hfront), List.append_assoc]

theorem reworked_writeText (hn : Ordinary n ∨ n = ['.', '.'])
    (hlimit : extent front + (n.byteSize + 1) ≤ limit) (t : Text) :
    Reworked (Grown output.place limit) d
      (Disk.Change.ofWhole (·.writeText ((below output front).child n) t) d).2 := by
  have habs := isAbsolute_below hout.isAbsolute front
  cases hwrite : d.writeText ((below output front).child n) t with
  | error f =>
      rw [Disk.ofWhole_error hwrite]
      exact Reworked.refl hd
  | ok d' =>
      rw [Disk.ofWhole_ok hwrite]
      rcases hn with hn | rfl
      · have hwrote := Disk.wrote_write hd (Path.isAbsolute_child habs n) hwrite
        exact Reworked.of_wrote hd hwrote (grown_place_child hout hfront hn hlimit)
      · exact absurd hwrite (Disk.write_up_ne_ok hd habs)

theorem reworked_copyInto {src : Path} (hsrc : src.isAbsolute) (hn : IsName n)
    (hlimit : extent front + (n.byteSize + 1) ≤ limit) :
    Reworked (Grown output.place limit) d
      (Disk.copyInto src ((below output front).child n) d).2 := by
  have habs := isAbsolute_below hout.isAbsolute front
  have hfits : extent front ≤ limit := by omega
  have hmade := reworked_makeDirs hd hout hfront hfits
  unfold Disk.copyInto Disk.Change.andThen
  rw [makeParents_child habs hn.noSlash hn.not_isIdle]
  rcases hresult : Disk.makeDirs (below output front).trimmed d with ⟨answer, after⟩
  rw [hresult] at hmade
  cases answer with
  | error f => exact hmade
  | ok u =>
      cases hcopy : after.copy src ((below output front).child n) with
      | error f =>
          have hfailed : Disk.Change.ofWhole (·.copy src ((below output front).child n)) after =
              (.error f, after) := Disk.ofWhole_error hcopy
          simp only [hfailed]
          exact hmade
      | ok d' =>
          obtain ⟨_, _, hwrote⟩ :=
            Disk.wrote_copy hmade.plain hsrc (Path.isAbsolute_child habs n) hcopy
          have hcopied : Disk.Change.ofWhole (·.copy src ((below output front).child n)) after =
              (.ok (), d') := Disk.ofWhole_ok hcopy
          simp only [hcopied]
          exact hmade.trans (Reworked.of_wrote hmade.plain hwrote
            (grown_place_child hout hfront hn.toOrdinary hlimit))

end

/-- One disk for two builds, which has changed in their output only, within a limit. -/
structure OneDisk (start : Disk) (out : Place) (limit : Nat) (d e : Disk) : Prop where
  same : e = d
  grown : Reworked (Grown out limit) start d

theorem OneDisk.synonyms (h : OneDisk start out limit d e) {p q : Path}
    (hs : Synonyms start room p q) : Synonyms d room p q := hs.mono h.grown.kinds

/-- A change that comes to the same under both spellings. -/
theorem Coupled.change_same {c c' : Disk.Change} {wording wording' : Disk.Fault → Failure}
    (hsame : ∀ d, OneDisk start out limit d d → c' d = c d)
    (hgrown : ∀ d, OneDisk start out limit d d → Reworked (Grown out limit) d (c d).2)
    (hwording : ∀ f, ToldAlike (wording f) (wording' f)) :
    Coupled (OneDisk start out limit) ToldAlike (fun _ _ => True) (Build.change c wording)
      (Build.change c' wording') := by
  refine Coupled.change (fun d e hR => ?_) fun d e hR => ?_
  all_goals
    obtain ⟨rfl, hR⟩ := hR
    rw [hsame _ ⟨rfl, hR⟩]
  · exact ⟨rfl, hR.trans (hgrown _ ⟨rfl, hR⟩)⟩
  · cases hanswer : (c _).1 with
    | error f => exact Or.inr ⟨f, f, rfl, rfl, hwording f⟩
    | ok u => exact Or.inl ⟨rfl, rfl⟩

/-! What a template gives. -/

/-- Two passes over one directory. -/
structure SamePass (pass pass' : Pass) : Prop where
  isAbsolute : pass.root.isAbsolute
  isAbsolute' : pass'.root.isAbsolute
  place : pass'.root.place = pass.root.place
  ext : pass'.ext = pass.ext

namespace SamePass

variable {pass pass' : Pass} (h : SamePass pass pass')

include h

theorem place_below_eq (hnames : ∀ m ∈ names, Ordinary m) :
    (below pass'.root names).place = (below pass.root names).place := by
  rw [place_below h.isAbsolute' hnames, place_below h.isAbsolute hnames, h.place]

theorem normalize_below (hnames : ∀ m ∈ names, Ordinary m) :
    (below pass'.root names).normalize = (below pass.root names).normalize :=
  (Path.normalize_eq_iff (isAbsolute_below h.isAbsolute _) (isAbsolute_below h.isAbsolute' _)).2
    (h.place_below_eq hnames)

theorem moduleId (hnames : ∀ m ∈ names, Ordinary m) (hne : names ≠ []) :
    pass'.moduleId (below pass'.root names) = pass.moduleId (below pass.root names) := by
  obtain ⟨front, n, rfl⟩ := (List.eq_nil_or_concat' names).resolve_left hne
  have hn : Ordinary n := hnames n (by simp)
  have hfront : ∀ m ∈ front, Ordinary m := fun m hm => hnames m (List.mem_append_left _ hm)
  have habs := isAbsolute_below h.isAbsolute front
  have habs' := isAbsolute_below h.isAbsolute' front
  unfold Pass.moduleId
  rw [below_concat, below_concat, (Path.withExtension_child _ hn (by simp)).1,
    (Path.withExtension_child _ hn (by simp)).1,
    Path.relativize_congr h.isAbsolute h.isAbsolute' (Path.isAbsolute_child habs _)
      (Path.isAbsolute_child habs' _) h.place]
  exact Path.place_child_congr habs habs' (Path.noSlash_renamed hn (by simp))
    (h.place_below_eq hfront)

theorem reference {dir dir' : Path} (hdir : dir.isAbsolute) (hdir' : dir'.isAbsolute)
    (hplace : dir'.place = dir.place) (i : Template.Island) :
    pass'.reference dir' i = pass.reference dir i := by
  have hseen : pass'.root.relativize (dir'.resolve ⟨i.path⟩) =
      pass.root.relativize (dir.resolve ⟨i.path⟩) := by
    refine Path.relativize_congr h.isAbsolute h.isAbsolute' (Path.isAbsolute_resolve hdir _)
      (Path.isAbsolute_resolve hdir' _) h.place ?_
    by_cases habs : (Path.mk i.path).isAbsolute
    · unfold Path.resolve
      rw [if_pos habs, if_pos habs]
    · rw [Path.place_resolve hdir habs, Path.place_resolve hdir' habs, hplace]
  have hmodule : ∀ p, pass'.importPath p = pass.importPath p := fun p => by
    unfold Pass.importPath
    rw [h.ext]
  unfold Pass.reference
  simp only [hseen, hmodule]

/-- The directory of a template is the same place under both spellings. -/
theorem place_dirOf (hnames : ∀ m ∈ names, Ordinary m) (hne : names ≠ []) :
    (pass.dirOf (below pass.root names)).isAbsolute ∧
      (pass'.dirOf (below pass'.root names)).isAbsolute ∧
      (pass'.dirOf (below pass'.root names)).place =
        (pass.dirOf (below pass.root names)).place := by
  obtain ⟨front, n, rfl⟩ := (List.eq_nil_or_concat' names).resolve_left hne
  have hn : Ordinary n := hnames n (by simp)
  have hfront : ∀ m ∈ front, Ordinary m := fun m hm => hnames m (List.mem_append_left _ hm)
  have habs := isAbsolute_below h.isAbsolute front
  have habs' := isAbsolute_below h.isAbsolute' front
  unfold Pass.dirOf
  rw [below_concat, below_concat, Path.parent?_child habs hn.noSlash hn.not_isIdle,
    Path.parent?_child habs' hn.noSlash hn.not_isIdle]
  refine ⟨Path.isAbsolute_trimmed habs, Path.isAbsolute_trimmed habs', ?_⟩
  simp only [Option.getD_some]
  rw [Path.place_trimmed habs, Path.place_trimmed habs', h.place_below_eq hfront]

theorem outcomeOf (hnames : ∀ m ∈ names, Ordinary m) (hne : names ≠ []) (text : Text) :
    Matches ToldAlike Eq (pass.outcomeOf (below pass.root names) text)
      (pass'.outcomeOf (below pass'.root names) text) := by
  obtain ⟨hdir, hdir', hplace⟩ := h.place_dirOf hnames hne
  have hreference : pass'.reference (pass'.dirOf (below pass'.root names)) =
      pass.reference (pass.dirOf (below pass.root names)) :=
    funext fun i => h.reference hdir hdir' hplace i
  unfold Pass.outcomeOf
  rw [h.moduleId hnames hne, h.ext, hreference]
  split
  · exact .ok rfl
  · cases Template.compile pass.ext (pass.moduleId (below pass.root names)) text with
    | error f =>
        refine .failure ?_
        simp only [ToldAlike, Failure.settled, SourceFailure.settled, h.normalize_below hnames]
    | ok m => exact Matches.refl ToldAlike.refl _

theorem outcome {room : Nat} (hd : d.Plain) (hs : Synonyms d room pass.root pass'.root)
    (hnames : ∀ m ∈ names, Ordinary m) (hne : names ≠ []) (hroom : extent names ≤ room) :
    Matches ToldAlike Eq (pass.outcome d (below pass.root names))
      (pass'.outcome d (below pass'.root names)) := by
  unfold Pass.outcome
  rw [hs.readText_below hd hnames hroom]
  cases d.readText (below pass.root names) with
  | error f =>
      refine .failure ?_
      simp only [ToldAlike, Failure.settled, SourceFailure.settled, h.normalize_below hnames]
  | ok text => exact h.outcomeOf hnames hne text

end SamePass

end Build

end Quire
