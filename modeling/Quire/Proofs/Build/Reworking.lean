import Quire.Proofs.Build.Housing
import Quire.Proofs.Disk.Chain

/-!
What happens below an output directory that is there. Modules and copies are written inside of it
and directories are made inside of it; nothing else on the disk is seen to change.
-/

namespace Quire.Build

open Disk (Place Plain Node IsName Leads Furnished Wrote)
open Quire.Path (Ordinary)

variable {d d' d'' : Disk} {free : Place → Prop} {out place q : Place} {p output : Path} {n : Text}
  {names : List Text}

theorem isWithin_of_inside (hout : output.isAbsolute) (hp : p.isAbsolute)
    (h : Inside output.place p.place) : output.isWithin p :=
  Bool.or_eq_true_iff.2 (Or.inr ((Path.isSome_containment_iff hout hp).2 h))

theorem not_inside_of_not_isWithin (hout : output.isAbsolute) (hp : p.isAbsolute)
    (h : ¬ output.isWithin p) : ¬ Inside output.place p.place :=
  mt (isWithin_of_inside hout hp) h

/-- Only at some places something changed, and what was there is still of its kind. -/
structure Reworked (free : Place → Prop) (d d' : Disk) : Prop where
  plain : d'.Plain
  cwd : d'.cwd = d.cwd
  kinds : ∀ q k, d.root.kindAt q = some k → d'.root.kindAt q = some k
  frame : ∀ q, ¬ free q → d'.root.seen q = d.root.seen q

namespace Reworked

theorem refl (hd : d.Plain) : Reworked free d d := ⟨hd, rfl, fun _ _ h => h, fun _ _ => rfl⟩

theorem trans (h : Reworked free d d') (h' : Reworked free d' d'') : Reworked free d d'' := by
  refine ⟨h'.plain, h'.cwd.trans h.cwd, fun q k hq => h'.kinds q k (h.kinds q k hq), fun q hq => ?_⟩
  rw [h'.frame q hq, h.frame q hq]

theorem mono {free' : Place → Prop} (h : Reworked free d d') (hfree : ∀ q, free q → free' q) :
    Reworked free' d d' :=
  ⟨h.plain, h.cwd, h.kinds, fun q hq => h.frame q fun hq' => hq (hfree q hq')⟩

theorem of_wrote {bytes : ByteArray} (hd : d.Plain) (h : Wrote place bytes d d')
    (hplace : free place) : Reworked free d d' := by
  refine ⟨h.plain, h.cwd, fun _ _ => h.kindAt hd, fun q hq => h.seen_of_ne ?_⟩
  rintro rfl
  exact hq hplace

/-- Below the root everything is inside. -/
theorem of_furnished (h : Furnished d d') (hd : d.Plain) : Reworked (Inside []) d d' := by
  refine ⟨h.plain, h.cwd, fun _ _ => h.kindAt, fun q hq => ?_⟩
  cases q with
  | nil =>
      rw [Node.seen_dir_iff.2 hd.rooted, Node.seen_dir_iff.2 h.plain.rooted]
  | cons n rest => exact absurd ⟨n, rest, rfl⟩ hq

end Reworked

/-- An output directory that is there; at the root it need not be written as a good path. -/
structure Stands (d : Disk) (output : Path) : Prop where
  isAbsolute : output.isAbsolute
  dir : d.root.kindAt output.place = some .dir
  leads : Leads d output ∨ output.place = []

theorem stands_of_makeDirs (hd : d.Plain) (hout : output.isAbsolute)
    (h : (Disk.makeDirs output d).1 = .ok ()) : Stands (Disk.makeDirs output d).2 output := by
  have hplain := (Disk.furnished_makeDirs hd hout).plain
  refine ⟨hout, Disk.kindAt_of_makeDirs hd hout h, ?_⟩
  rcases Disk.isDir_of_makeDirs hd hout h with hdir | hnil
  · exact Or.inl (Disk.leads_of_isDir hplain hout hdir)
  · apply Or.inr
    rw [Path.place_of_isAbsolute hout, hnil]
    rfl

/-- Making directories below the output changes nothing but what is on their way. -/
theorem reworked_makeDirs_below (hd : d.Plain) (h : Leads d output)
    (hnames : ∀ n ∈ names, IsName n)
    (hfree : ∀ pre, pre ≠ [] → pre <+: names → free (output.place ++ pre)) :
    Reworked free d (Disk.makeDirs (below output names).trimmed d).2 := by
  cases hcheck : Disk.checkPath (below output names) with
  | error e =>
      have hafter : (Disk.makeDirs (below output names).trimmed d).2 = d :=
        congrArg Prod.snd (Disk.makeDirs_below_of_check h hnames hcheck d)
      rw [hafter]
      exact Reworked.refl hd
  | ok u =>
      by_cases hclear : Disk.Clear d.root (output.place ++ names)
      · have hfurnished := Disk.furnished_makeDirs hd
          (Path.isAbsolute_trimmed (isAbsolute_below h.isAbsolute names))
        obtain ⟨after, hmade, hcleared⟩ := Disk.makeDirs_of_clear hd h hnames hcheck hclear
        have hmade' : Disk.makeDirs (below output names).trimmed d = (.ok (), after) := hmade
        rw [hmade'] at hfurnished ⊢
        refine ⟨hfurnished.plain, hfurnished.cwd, fun _ _ => hfurnished.kindAt, fun q hq => ?_⟩
        rw [hcleared.seen]
        split
        · next hpre =>
            have hin : q <+: output.place := by
              rcases List.prefix_or_prefix_of_prefix hpre (List.prefix_append output.place names)
                with hin | ⟨rest, rfl⟩
              · exact hin
              · by_cases hrest : rest = []
                · rw [hrest, List.append_nil]
                · exact absurd (hfree rest hrest ((List.prefix_append_right_inj _).1 hpre)) hq
            exact (Node.seen_dir_iff.2 (Disk.kindAt_of_isPrefix hin h.dir)).symm
        · rfl
      · have hmade := Disk.makeDirs_of_blocked hd h hnames hcheck hclear
        have hafter : (Disk.makeDirs (below output names).trimmed d).2 = d := congrArg Prod.snd hmade
        rw [hafter]
        exact Reworked.refl hd

theorem housed_reworked (h : Stands d output) :
    Housed output (Reworked (Inside output.place) d) where
  isAbsolute := h.isAbsolute
  plain _ h' := h'.plain
  home after h' := by
    rcases h.leads with hleads | hroot
    · rw [(hleads.mono h'.cwd h'.kinds).makeDirs h'.plain]
      exact h'
    · rw [hroot] at h' ⊢
      exact h'.trans (Reworked.of_furnished (Disk.furnished_makeDirs h'.plain h.isAbsolute) h'.plain)
  dirs after names hnames h' := by
    rcases h.leads with hleads | hroot
    · exact h'.trans (reworked_makeDirs_below h'.plain (hleads.mono h'.cwd h'.kinds) hnames
        fun _ hne _ => inside_append hne)
    · rw [hroot] at h' ⊢
      have habs := Path.isAbsolute_trimmed (isAbsolute_below h.isAbsolute names)
      exact h'.trans (Reworked.of_furnished (Disk.furnished_makeDirs h'.plain habs) h'.plain)
  file _ _ _ _ hplace hwrote h' := h'.trans (Reworked.of_wrote h'.plain hwrote hplace)

end Quire.Build
