import Quire.Proofs.Path.Onward

/-!
There and back. The way from one absolute path to another is written without detours, and taken from
the first it leads to the normal form of the second. Main statement: `resolve_relativize`.
-/

namespace Quire.Path

variable {base target : Path} {a b : List Text}

/-- A relative path without detours: a single dot, or steps to the parent and then names, with
single slashes between them. -/
def IsRelativeNormal (p : Path) : Prop :=
  p.text = ['.'] ∨ ∃ ups names, (0 < ups ∨ names ≠ []) ∧ (∀ n ∈ names, Ordinary n) ∧
    p.text = ['/'].intercalate (List.replicate ups ['.', '.'] ++ names)

/-- A way leads to where it was made for. -/
theorem placeFrom_way (a b : List Text) : placeFrom a (way a b) = b := by
  have hshared : a.length - (a.length - commonLength a b) = commonLength a b := by
    have := commonLength_le_left a b
    omega
  calc placeFrom a (way a b)
      = a.take (commonLength a b) ++ b.drop (commonLength a b) := by
        rw [way, placeFrom_append, placeFrom_replicate_up, placeFrom_names, hshared]
    _ = b := by rw [take_commonLength, List.take_append_drop]

theorem way_eq_nil_iff : way a b = [] ↔ a = b := by
  constructor
  · intro h
    have hplace := placeFrom_way a b
    rwa [h] at hplace
  · rintro rfl
    simpa using way_append a []

/-- The way to a path, taken from where it begins, leads to the place of the path. -/
theorem placeFrom_relativize_of_isAbsolute (hbase : base.isAbsolute) (htarget : target.isAbsolute) :
    placeFrom base.place (base.relativize target).inner = target.place := by
  have hway := isWay_of_mem_way (a := base.place) (ordinary_of_mem_place htarget)
  rw [relativize_of_isAbsolute hbase htarget]
  split
  · next hnil => exact way_eq_nil_iff.1 hnil
  · have hplace := (placeFrom_ofSteps fun s hs => Or.inr (hway s hs)).2 base.place
    exact hplace.trans (placeFrom_way _ _)

theorem isRelativeNormal_relativize (hbase : base.isAbsolute) (htarget : target.isAbsolute) :
    (base.relativize target).IsRelativeNormal := by
  have hnames := ordinary_of_mem_place htarget
  have hway := isWay_of_mem_way (a := base.place) hnames
  rw [relativize_of_isAbsolute hbase htarget]
  split
  · exact Or.inl rfl
  · next hne =>
      refine Or.inr ⟨base.place.length - commonLength base.place target.place,
        target.place.drop (commonLength base.place target.place), ?_,
        fun n hn => hnames n (List.mem_of_mem_drop hn), ?_⟩
      · by_contra hnone
        simp only [not_or, Nat.not_lt, Nat.le_zero, not_ne_iff] at hnone
        exact hne (by simp [way, hnone])
      · rw [text_ofSteps hway, way, List.map_append, List.map_replicate, List.map_map]
        have htexts : ∀ names : List Text, names.map (Step.text ∘ Step.name) = names := fun names =>
          List.map_id names
        rw [htexts]
        rfl

/-- The way to a path leads to nowhere else exactly if the two have one normal form. -/
theorem relativize_eq_dot_iff (hbase : base.isAbsolute) (htarget : target.isAbsolute) :
    base.relativize target = ⟨['.']⟩ ↔ base.normalize = target.normalize := by
  rw [normalize_eq_iff htarget hbase, ← way_eq_nil_iff, relativize_of_isAbsolute hbase htarget]
  split
  · next hnil => simp [hnil]
  · next hne =>
      have hway := isWay_of_mem_way (a := base.place) (ordinary_of_mem_place htarget)
      refine iff_of_false (fun hdot => ?_) hne
      have hsteps := steps_ofSteps hway
      rw [hdot] at hsteps
      -- a way never takes the step that a single dot takes
      have hhere := hway .here (hsteps ▸ by decide)
      rcases hhere with hup | ⟨n, -, hname⟩
      · cases hup
      · cases hname

/-- Seeing one absolute path from another and resolving it again are inverse: the way is a relative
path in normal form that leads to the normal form of where it was made for, it is a single dot only
where there is nowhere to go, and to where it leads it is the way again. -/
theorem resolve_relativize (hbase : base.isAbsolute) (htarget : target.isAbsolute) :
    base.resolve (base.relativize target) = target.normalize ∧
      ¬ (base.relativize target).isAbsolute ∧ (base.relativize target).IsRelativeNormal ∧
      (base.relativize target = ⟨['.']⟩ ↔ base.normalize = target.normalize) ∧
      base.relativize (base.resolve (base.relativize target)) = base.relativize target := by
  have hrel := not_isAbsolute_relativize hbase htarget
  have hback : base.resolve (base.relativize target) = target.normalize := by
    rw [resolve_eq_ofNames hbase hrel, placeFrom_relativize_of_isAbsolute hbase htarget,
      normalize_of_isAbsolute htarget]
  refine ⟨hback, hrel, isRelativeNormal_relativize hbase htarget,
    relativize_eq_dot_iff hbase htarget, ?_⟩
  rw [hback]
  exact relativize_congr hbase hbase htarget (isAbsolute_normalize htarget) rfl
    (place_normalize htarget)

/-- Two paths with detours that go apart below one directory. -/
theorem resolve_relativize_apart :
    (Path.mk "/a//b/./x/..".toList).isAbsolute ∧ (Path.mk "/../a/c/./d/".toList).isAbsolute ∧
      resolve ⟨"/a//b/./x/..".toList⟩ (relativize ⟨"/a//b/./x/..".toList⟩ ⟨"/../a/c/./d/".toList⟩) =
        ⟨"/a/c/d".toList⟩ ∧
      relativize ⟨"/a//b/./x/..".toList⟩ ⟨"/../a/c/./d/".toList⟩ = ⟨"../c/d".toList⟩ := by
  have hbase : (Path.mk "/a//b/./x/..".toList).isAbsolute := by decide
  have htarget : (Path.mk "/../a/c/./d/".toList).isAbsolute := by decide
  refine ⟨hbase, htarget, ?_, by decide⟩
  rw [(resolve_relativize hbase htarget).1]
  decide

end Quire.Path
