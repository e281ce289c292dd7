import Quire.Proofs.Path.Naming

/-!
Absolute paths without detours. Their steps are the names of their place, so a path lies within
another exactly where its place begins with the place of the other.
-/

namespace Quire.Path

variable {p q : Path} {n : Text} {names : List Text}

/-- An absolute path that goes down only. -/
structure Straight (p : Path) : Prop where
  isAbsolute : p.isAbsolute
  steps : p.steps = .root :: p.place.map .name

/-- Paths in normal form are straight. -/
theorem straight_of_normalize (hp : p.isAbsolute) (h : p.sameSteps p.normalize) : Straight p := by
  have hsteps : p.steps = p.normalize.steps := by simpa [sameSteps] using h
  exact ⟨hp, by rw [hsteps, steps_normalize hp]⟩

theorem filterMap_idle {fs : List Text} (h : ∀ f ∈ fs, isIdle f) :
    fs.filterMap Step.ofField? = [] := by
  rw [List.filterMap_eq_nil_iff]
  intro f hf
  simp [Step.ofField?, isIdle_iff.1 (h f hf)]

/-- The last step of a path stands in the last stretch that leads anywhere. -/
theorem exists_fields {last : Text} {front : List Text}
    (hdrop : p.fields.reverse.dropWhile isIdle = last :: front) :
    ∃ idles s, p.fields = front.reverse ++ last :: idles ∧ (∀ f ∈ idles, isIdle f) ∧
      Step.ofField? last = some s ∧ p.inner = front.reverse.filterMap Step.ofField? ++ [s] := by
  have hsplit := List.takeWhile_append_dropWhile (p := isIdle) (l := p.fields.reverse)
  rw [hdrop] at hsplit
  have hfields : p.fields =
      front.reverse ++ last :: (p.fields.reverse.takeWhile isIdle).reverse := by
    simpa using congrArg List.reverse hsplit.symm
  have hidles : ∀ f ∈ (p.fields.reverse.takeWhile isIdle).reverse, isIdle f :=
    fun f hf => List.mem_takeWhile_imp (List.mem_reverse.1 hf)
  have hlast : ¬ isIdle last := by
    have hhead := List.head_dropWhile_not isIdle (l := p.fields.reverse) (by simp [hdrop])
    simpa [hdrop] using hhead
  obtain ⟨s, hs⟩ : ∃ s, Step.ofField? last = some s := by
    rw [isIdle_iff, not_or] at hlast
    unfold Step.ofField?
    rw [if_neg (by simp [hlast])]
    split <;> exact ⟨_, rfl⟩
  refine ⟨_, s, hfields, hidles, hs, ?_⟩
  rw [inner, hfields, List.filterMap_append, List.filterMap_cons, hs, filterMap_idle hidles]

/-- An absolute path takes one step more than the path above it. -/
theorem exists_step_of_parent? (hp : p.isAbsolute) (h : p.parent? = some q) :
    ∃ s, (s = .up ∨ ∃ n, Ordinary n ∧ s = .name n) ∧ p.steps = q.steps ++ [s] := by
  have habs := (isAbsolute_of_parent? hp h).1
  rw [parent?_of_isAbsolute hp] at h
  split at h
  · cases h
  · next last front hdrop =>
      obtain ⟨idles, s, hfields, _, _, hinner⟩ := exists_fields hdrop
      have hs : s ∈ p.inner := by simp [hinner]
      rw [← inner_cleared fun f hf => noSlash_of_mem_fields (p := p)
        (hfields ▸ List.mem_append_left _ hf), Option.some.inj h] at hinner
      refine ⟨s, eq_up_or_ordinary_of_mem_inner hs, ?_⟩
      rw [steps_of_isAbsolute hp, steps_of_isAbsolute habs, hinner, List.cons_append]

namespace Straight

theorem inner (h : Straight p) : p.inner = p.place.map .name := by
  have hsteps := h.steps
  rw [steps_of_isAbsolute h.isAbsolute] at hsteps
  exact (List.cons.inj hsteps).2

/-- A path with all but the last step of a straight one is straight. -/
theorem of_inner {s : Step} (h : Straight p) (hq : q.isAbsolute) (hinner : p.inner = q.inner ++ [s]) :
    Straight q ∧ q.place = p.place.dropLast := by
  rw [h.inner] at hinner
  obtain ⟨names, tail, hplace, hnames, htail⟩ := List.map_eq_append_iff.1 hinner
  obtain ⟨m, rfl, _⟩ := List.map_eq_singleton_iff.1 htail
  have hq' : q.place = names := by
    rw [place_of_isAbsolute hq, ← hnames, placeFrom_names, List.nil_append]
  refine ⟨⟨hq, ?_⟩, ?_⟩
  · rw [steps_of_isAbsolute hq, ← hnames, hq']
  · rw [hq', hplace, List.dropLast_concat]

theorem foldl_child (h : Straight p) (hnames : ∀ m ∈ names, Ordinary m) :
    Straight (names.foldl child p) := by
  refine ⟨isAbsolute_foldl_child h.isAbsolute names, ?_⟩
  rw [steps_foldl_child h.isAbsolute hnames, place_foldl_child h.isAbsolute hnames, h.steps,
    List.map_append, List.cons_append]

theorem child (h : Straight p) (hn : Ordinary n) : Straight (p.child n) := by
  have hall : ∀ m ∈ [n], Ordinary m := by simp [hn]
  exact foldl_child h hall

/-- The path above a straight one is straight. -/
theorem parent? (h : Straight p) (hq : p.parent? = some q) :
    Straight q ∧ q.place = p.place.dropLast := by
  have habs := (isAbsolute_of_parent? h.isAbsolute hq).1
  rw [parent?_of_isAbsolute h.isAbsolute] at hq
  split at hq
  · cases hq
  · next last front hdrop =>
      obtain ⟨idles, s, hfields, _, _, hinner⟩ := exists_fields hdrop
      rw [← inner_cleared fun f hf => noSlash_of_mem_fields (p := p)
        (hfields ▸ List.mem_append_left _ hf), Option.some.inj hq] at hinner
      exact h.of_inner habs hinner

theorem isWithin_iff (hp : Straight p) (hq : Straight q) :
    q.isWithin p ↔ q.place <+: p.place := by
  refine ⟨place_isPrefix_of_isWithin hq.isAbsolute hp.isAbsolute, fun hpre => ?_⟩
  by_cases hplace : q.place = p.place
  · refine Bool.or_eq_true_iff.2 (Or.inl ?_)
    simp [sameSteps, hp.steps, hq.steps, hplace]
  · exact isWithin_of_place_isPrefix hq.isAbsolute hp.isAbsolute hpre hplace

end Straight

end Quire.Path
