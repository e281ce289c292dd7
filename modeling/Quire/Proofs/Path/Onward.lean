import Quire.Proofs.Path.Relative
import Quire.Proofs.Path.Trailing

/-!
Relative paths put behind another path. Taking the detours out of one, seeing it from a directory
beside which it starts, and spelling it as scripts import it do not change where it leads. Main
statement: `resolve_specifier`, since what scripts in a directory import leads to what was meant.
-/

namespace Quire.Path

variable {base p : Path} {n : Text} {start names : List Text} {s : Step} {steps taken : List Step}

/-- The steps that a relative path can take. -/
def Step.IsOnward (s : Step) : Prop := s = .here ∨ s.IsWay

namespace Step.IsOnward

theorem noSlash (h : s.IsOnward) : '/' ∉ s.text := by
  rcases h with rfl | h
  · decide
  · exact h.noSlash

theorem text_ne_nil (h : s.IsOnward) : s.text ≠ [] := by
  rcases h with rfl | h
  · decide
  · exact h.text_ne_nil

theorem not_isAbsolute (h : s.IsOnward) : ¬ (Path.mk s.text).isAbsolute := fun habs =>
  h.noSlash (List.mem_of_mem_head? (by simpa [isAbsolute] using habs))

/-- A step read again between slashes leads where it did. -/
theorem placeFrom_inner (h : s.IsOnward) (start : List Text) :
    placeFrom start (Path.mk s.text).inner = descend start s := by
  rcases h with rfl | rfl | ⟨n, hn, rfl⟩
  · rfl
  · rfl
  · rw [Step.text, hn.inner]
    rfl

end Step.IsOnward

theorem isWay_of_mem_inner (hs : s ∈ p.inner) : s.IsWay := eq_up_or_ordinary_of_mem_inner hs

/-- A relative path takes its inner steps, perhaps behind a step that leads nowhere. -/
theorem steps_of_not_isAbsolute (hp : ¬ p.isAbsolute) :
    p.steps = p.inner ∨ p.steps = .here :: p.inner := by
  unfold steps
  rw [if_neg hp]
  split
  · exact Or.inr rfl
  · exact Or.inl rfl

theorem isOnward_of_mem_steps (hp : ¬ p.isAbsolute) (hs : s ∈ p.steps) : s.IsOnward := by
  rcases steps_of_not_isAbsolute hp with h | h
  · exact Or.inr (isWay_of_mem_inner (h ▸ hs))
  · rw [h] at hs
    rcases List.mem_cons.1 hs with rfl | hs
    · exact Or.inl rfl
    · exact Or.inr (isWay_of_mem_inner hs)

theorem placeFrom_steps_of_not_isAbsolute (hp : ¬ p.isAbsolute) (start : List Text) :
    placeFrom start p.steps = placeFrom start p.inner := by
  rcases steps_of_not_isAbsolute hp with h | h
  · rw [h]
  · rw [h]
    rfl

/-- A path that is put together from onward steps is relative and leads where they do. -/
theorem placeFrom_ofSteps (h : ∀ s ∈ steps, s.IsOnward) :
    ¬ (ofSteps steps).isAbsolute ∧
      ∀ start, placeFrom start (ofSteps steps).inner = placeFrom start steps := by
  induction steps using List.reverseRecOn with
  | nil => exact ⟨by decide, fun _ => rfl⟩
  | append_singleton steps s ih =>
      obtain ⟨hrel, hplace⟩ := ih fun t ht => h t (List.mem_append_left [s] ht)
      have hs : s.IsOnward := h s (by simp)
      have hstep : ofSteps (steps ++ [s]) = (ofSteps steps).join ⟨s.text⟩ := by
        simp [ofSteps, child]
      rw [hstep]
      refine ⟨?_, fun start => ?_⟩
      · by_cases hnil : (ofSteps steps).text = []
        · have hjoin : (ofSteps steps).join ⟨s.text⟩ = ⟨s.text⟩ := by
            rw [join, if_neg hs.not_isAbsolute, if_pos (Or.inl hnil), hnil, List.nil_append]
          rw [hjoin]
          exact hs.not_isAbsolute
        · exact not_isAbsolute_join hnil hrel hs.not_isAbsolute
      · rw [inner_join hs.not_isAbsolute, placeFrom_append, hplace, hs.placeFrom_inner,
          placeFrom_append]
        rfl

theorem not_isAbsolute_child (hp : ¬ p.isAbsolute) (hn : '/' ∉ n) : ¬ (p.child n).isAbsolute := by
  have hrel := not_isAbsolute_of_noSlash hn
  by_cases hnil : p.text = []
  · rw [child, join, if_neg hrel, if_pos (Or.inl hnil), hnil, List.nil_append]
    exact hrel
  · exact not_isAbsolute_join hnil hp hrel

/-- Going down a name adds the name to where a path leads, whatever the path is. -/
theorem placeFrom_steps_child (hn : Ordinary n) (start : List Text) (p : Path) :
    placeFrom start (p.child n).steps = placeFrom start p.steps ++ [n] := by
  by_cases hp : p.isAbsolute
  · rw [steps_of_isAbsolute (isAbsolute_child hp n), steps_of_isAbsolute hp, inner_child hn,
      ← List.cons_append, placeFrom_append]
    rfl
  · rw [placeFrom_steps_of_not_isAbsolute (not_isAbsolute_child hp hn.noSlash),
      placeFrom_steps_of_not_isAbsolute hp, inner_child hn, placeFrom_append]
    rfl

/-! Detours. -/

/-- One step after others leads on from where they lead, whatever detour it undoes. -/
theorem placeFrom_takeStep (htaken : ∀ t ∈ taken, t.IsWay) (hs : s.IsOnward) (start : List Text) :
    (∀ t ∈ takeStep taken s, t.IsWay) ∧
      placeFrom start (takeStep taken s).reverse = descend (placeFrom start taken.reverse) s := by
  rcases hs with rfl | rfl | ⟨n, hn, rfl⟩
  · exact ⟨htaken, rfl⟩
  · cases taken with
    | nil => exact ⟨by simp [takeStep, Step.IsWay], rfl⟩
    | cons t taken =>
        rcases htaken t List.mem_cons_self with rfl | ⟨n, hn, rfl⟩
        · refine ⟨List.forall_mem_cons.2 ⟨Or.inl rfl, htaken⟩, ?_⟩
          simp [takeStep, placeFrom, descend]
        · refine ⟨fun t ht => htaken t (List.mem_cons_of_mem _ ht), ?_⟩
          simp [takeStep, placeFrom, descend]
  · refine ⟨List.forall_mem_cons.2 ⟨Or.inr ⟨n, hn, rfl⟩, htaken⟩, ?_⟩
    simp [takeStep, placeFrom]

/-- Onward steps without their detours lead where they did. -/
theorem placeFrom_reduce (h : ∀ s ∈ steps, s.IsOnward) (start : List Text) :
    (∀ s ∈ reduce steps, s.IsWay) ∧ placeFrom start (reduce steps) = placeFrom start steps := by
  suffices hfold : ∀ taken : List Step, (∀ t ∈ taken, t.IsWay) →
      (∀ t ∈ steps.foldl takeStep taken, t.IsWay) ∧
        placeFrom start (steps.foldl takeStep taken).reverse =
          placeFrom (placeFrom start taken.reverse) steps by
    obtain ⟨hway, hplace⟩ := hfold [] (by simp)
    exact ⟨fun s hs => hway s (List.mem_reverse.1 hs), hplace⟩
  induction steps with
  | nil => exact fun taken htaken => ⟨htaken, rfl⟩
  | cons s steps ih =>
      intro taken htaken
      obtain ⟨hway, hplace⟩ := placeFrom_takeStep htaken (h s List.mem_cons_self) start
      obtain ⟨hways, hplaces⟩ := ih (fun t ht => h t (List.mem_cons_of_mem s ht)) _ hway
      refine ⟨hways, ?_⟩
      rw [List.foldl_cons, hplaces, hplace]
      rfl

/-- The normal form of a relative path takes onward steps that lead where the path does. -/
theorem placeFrom_normalize (hp : ¬ p.isAbsolute) :
    (∀ s ∈ p.normalize.steps, s.IsOnward) ∧
      ∀ start, placeFrom start p.normalize.steps = placeFrom start p.inner := by
  have honward : ∀ s ∈ p.steps, s.IsOnward := fun _ => isOnward_of_mem_steps hp
  have hway := (placeFrom_reduce honward []).1
  have hplace : ∀ start, placeFrom start (reduce p.steps) = placeFrom start p.inner := fun start =>
    (placeFrom_reduce honward start).2.trans (placeFrom_steps_of_not_isAbsolute hp start)
  unfold normalize
  split
  · next hnil =>
      rw [hnil] at hplace
      exact ⟨fun s hs => Or.inl (List.mem_singleton.1 hs), hplace⟩
  · rw [steps_ofSteps hway]
    exact ⟨fun s hs => Or.inr (hway s hs), hplace⟩

/-! Seen from a directory. -/

theorem placeFrom_replicate_up (k : Nat) (start : List Text) :
    placeFrom start (List.replicate k .up) = start.take (start.length - k) := by
  induction k generalizing start with
  | zero => simp [placeFrom]
  | succ k ih =>
      have hstep : placeFrom start (List.replicate (k + 1) .up) =
          placeFrom start.dropLast (List.replicate k .up) := rfl
      rw [hstep, ih, List.dropLast_eq_take, List.take_take, List.length_take]
      congr 1
      omega

/-- The way to a relative path from a directory that goes down from where the path starts leads
where the path does. -/
theorem placeFrom_relativize (hbase : base.normalize.steps = names.map .name)
    (hp : ¬ p.isAbsolute) :
    ¬ (base.relativize p).isAbsolute ∧
      ∀ start, placeFrom (start ++ names) (base.relativize p).inner = placeFrom start p.inner := by
  obtain ⟨honward, hplace⟩ := placeFrom_normalize hp
  generalize hgoal : p.normalize.steps = goal at honward hplace
  obtain ⟨shared, hshared⟩ : ∃ shared, shared = commonLength (names.map .name) goal := ⟨_, rfl⟩
  have hle : shared ≤ names.length := by
    simpa [hshared] using commonLength_le_left (names.map Step.name) goal
  have htake : goal.take shared = (names.take shared).map .name := by
    rw [hshared, ← take_commonLength, ← List.map_take]
  have hways : ∀ s ∈ List.replicate (names.length - shared) Step.up ++ goal.drop shared,
      s.IsOnward := by
    intro s hs
    rcases List.mem_append.1 hs with hs | hs
    · exact Or.inr (Or.inl (List.eq_of_mem_replicate hs))
    · exact honward s (List.mem_of_mem_drop hs)
  have hlead : ∀ start, placeFrom (start ++ names)
      (List.replicate (names.length - shared) Step.up ++ goal.drop shared) =
        placeFrom start p.inner := by
    intro start
    have hup : (start ++ names).length - (names.length - shared) = start.length + shared := by
      rw [List.length_append]
      omega
    calc placeFrom (start ++ names)
          (List.replicate (names.length - shared) Step.up ++ goal.drop shared)
        = placeFrom (start ++ names.take shared) (goal.drop shared) := by
          rw [placeFrom_append, placeFrom_replicate_up, hup, List.take_length_add_append]
      _ = placeFrom start (goal.take shared ++ goal.drop shared) := by
          rw [placeFrom_append, htake, placeFrom_names]
      _ = placeFrom start p.inner := by rw [List.take_append_drop, hplace]
  obtain ⟨hrel, hinner⟩ := placeFrom_ofSteps hways
  unfold relativize
  rw [hbase, hgoal]
  dsimp only
  rw [List.length_map, ← hshared]
  split
  · next hnil =>
      refine ⟨by decide, fun start => ?_⟩
      have hmk : ofSteps (List.replicate (names.length - shared) Step.up ++ goal.drop shared) =
          ⟨[]⟩ := congrArg Path.mk hnil
      rw [← hlead, ← hinner, hmk]
      rfl
  · exact ⟨hrel, fun start => (hinner _).trans (hlead start)⟩

/-- The way to an absolute path is relative. -/
theorem not_isAbsolute_relativize (hbase : base.isAbsolute) (hp : p.isAbsolute) :
    ¬ (base.relativize p).isAbsolute := by
  have hway := isWay_of_mem_way (a := base.place) (ordinary_of_mem_place hp)
  rw [relativize_of_isAbsolute hbase hp]
  split
  · decide
  · exact (placeFrom_ofSteps fun s hs => Or.inr (hway s hs)).1

/-- A relative path spelled with single slashes is relative and takes the same steps between
them. -/
theorem inner_slashed (hp : ¬ p.isAbsolute) :
    ¬ (Path.mk p.slashed).isAbsolute ∧ (Path.mk p.slashed).inner = p.inner := by
  by_cases hnil : p.steps = []
  · have hslashed : p.slashed = [] := by rw [slashed_eq, hnil]; rfl
    rw [hslashed]
    refine ⟨by decide, ?_⟩
    rcases steps_of_not_isAbsolute hp with h | h
    · rw [← h, hnil]
      rfl
    · simp [h] at hnil
  · have honward : ∀ s ∈ p.steps, s.IsOnward := fun _ => isOnward_of_mem_steps hp
    have hfields : (Path.mk p.slashed).fields = p.steps.map Step.text :=
      fields_slashed hnil fun s hs => (honward s hs).noSlash
    refine ⟨fun habs => ?_, ?_⟩
    · -- an absolute path begins with an empty stretch
      obtain ⟨fs, hfs⟩ := exists_fields_of_isAbsolute habs
      obtain ⟨s, hs, hempty⟩ := List.mem_map.1 (hfields ▸ hfs ▸ List.mem_cons_self)
      exact (honward s hs).text_ne_nil hempty
    · have hways := filterMap_ofField? fun s hs => isWay_of_mem_inner (p := p) hs
      rw [inner, hfields]
      rcases steps_of_not_isAbsolute hp with h | h
      · rw [h, hways]
      · rw [h]
        exact hways

/-- A relative path as scripts import it is relative and takes the same steps. -/
theorem inner_specifier (hp : ¬ p.isAbsolute) :
    ¬ (Path.mk p.specifier).isAbsolute ∧ (Path.mk p.specifier).inner = p.inner := by
  unfold specifier
  dsimp only
  split
  · next hup =>
      refine ⟨?_, (inner_slashed hp).2⟩
      rcases hup with hup | hup
      · obtain ⟨rest, hrest⟩ := List.isPrefixOf_iff_prefix.1 hup
        rw [← hrest]
        exact Bool.false_ne_true
      · rw [hup]
        decide
  · refine ⟨Bool.false_ne_true, ?_⟩
    rw [← (inner_slashed hp).2]
    exact inner_append_slash ['.'] p.slashed

theorem steps_normalize_name (hn : Ordinary n) : (Path.mk n).normalize.steps = [.name n] := by
  have hsteps : (Path.mk n).steps = [.name n] := by
    have hhead : (Path.mk n).fields = [n] := Text.fields_of_not_mem hn.noSlash
    rw [steps, if_neg hn.not_isAbsolute, hhead, if_neg (by simpa using hn.ne_dot)]
    exact (by simp [hn.ofField?])
  have hway : ∀ s ∈ [Step.name n], s.IsWay :=
    List.forall_mem_singleton.2 (Or.inr ⟨n, hn, rfl⟩)
  rw [normalize, hsteps]
  exact steps_ofSteps hway

/-- What scripts in a directory import leads to what was meant: a path below the parent of the
directory. -/
theorem resolve_specifier {output : Path} (hout : output.isAbsolute) (hn : Ordinary n)
    (hp : ¬ p.isAbsolute) :
    (output.child n).resolve ⟨((Path.mk n).relativize p).specifier⟩ =
      (output.join ⟨p.slashed⟩).normalize := by
  have hbase : (Path.mk n).normalize.steps = [n].map .name := steps_normalize_name hn
  obtain ⟨hway, hplace⟩ := placeFrom_relativize hbase hp
  obtain ⟨hrel, hinner⟩ := inner_specifier hway
  obtain ⟨hrel', hinner'⟩ := inner_slashed hp
  rw [resolve_eq_ofNames (isAbsolute_child hout n) hrel,
    normalize_of_isAbsolute (isAbsolute_join hout _), place_join hout hrel', hinner,
    place_child hout hn, hplace, hinner']

end Quire.Path
