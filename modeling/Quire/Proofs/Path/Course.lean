import Quire.Proofs.Path.Onward

/-!
What a relative path comes to: so many steps to the parent, and names behind them. Both are read
off its normal form, and they alone tell where the path leads from anywhere.
-/

namespace Quire.Path

variable {p q : Path} {ups : Nat} {names start : List Text} {s : Step} {steps : List Step}

/-- The name that a step goes down, if it does. -/
def Step.name? : Step → Option Text
  | .name n => some n
  | _ => none

/-- How many steps to the parent the normal form of a path begins with. -/
def climbs (p : Path) : Nat := (p.normalize.steps.takeWhile (· = .up)).length

/-- The names that the normal form of a path goes down. -/
def falls (p : Path) : List Text := p.normalize.steps.filterMap Step.name?

/-- Steps to the parent, and then names. -/
def course (ups : Nat) (names : List Text) : List Step :=
  List.replicate ups .up ++ names.map .name

theorem course_eq_nil_iff : course ups names = [] ↔ ups = 0 ∧ names = [] := by
  simp [course]

theorem way_eq_course (a b : List Text) :
    way a b = course (a.length - commonLength a b) (b.drop (commonLength a b)) := rfl

theorem isWay_of_mem_course (ups : Nat) (hnames : ∀ n ∈ names, Ordinary n) :
    ∀ s ∈ course ups names, s.IsWay := by
  intro s hs
  rcases List.mem_append.1 hs with hs | hs
  · exact Or.inl (List.eq_of_mem_replicate hs)
  · obtain ⟨n, hn, rfl⟩ := List.mem_map.1 hs
    exact Or.inr ⟨n, hnames n hn, rfl⟩

/-- A course never takes the step that a single dot takes. -/
theorem here_not_mem_course (ups : Nat) (hnames : ∀ n ∈ names, Ordinary n) :
    Step.here ∉ course ups names := by
  intro hmem
  rcases isWay_of_mem_course ups hnames _ hmem with hup | ⟨n, -, hname⟩
  · cases hup
  · cases hname

theorem takeWhile_course (ups : Nat) (names : List Text) :
    (course ups names).takeWhile (· = .up) = List.replicate ups .up := by
  have hnames : (names.map Step.name).takeWhile (· = .up) = [] := by
    cases names <;> rfl
  rw [course, List.takeWhile_append_of_pos (by simp), hnames, List.append_nil]

theorem filterMap_name?_course (ups : Nat) (names : List Text) :
    (course ups names).filterMap Step.name? = names := by
  have hups : (List.replicate ups Step.up).filterMap Step.name? = [] := by
    rw [List.filterMap_eq_nil_iff]
    intro s hs
    rw [List.eq_of_mem_replicate hs]
    rfl
  have hnames : (names.map Step.name).filterMap Step.name? = names := by
    rw [List.filterMap_map]
    exact List.filterMap_some
  rw [course, List.filterMap_append, hups, hnames, List.nil_append]

/-- A course takes so many names off the place where it begins and puts its own there. -/
theorem placeFrom_course (ups : Nat) (names start : List Text) :
    placeFrom start (course ups names) = start.take (start.length - ups) ++ names := by
  rw [course, placeFrom_append, placeFrom_replicate_up, placeFrom_names]

/-! Detours taken out of a relative path leave a course. -/

/-- One step more, and what is taken then is a course again. -/
theorem exists_course_takeStep (ups : Nat) (hnames : ∀ n ∈ names, Ordinary n) (hs : s.IsOnward) :
    ∃ ups' names', (∀ n ∈ names', Ordinary n) ∧
      takeStep (course ups names).reverse s = (course ups' names').reverse := by
  rcases hs with rfl | rfl | ⟨n, hn, rfl⟩
  · exact ⟨ups, names, hnames, rfl⟩
  · rcases List.eq_nil_or_concat' names with rfl | ⟨front, n, rfl⟩
    · -- there is no name to undo
      refine ⟨ups + 1, [], by simp, ?_⟩
      simp only [course, List.map_nil, List.append_nil, List.reverse_replicate]
      cases ups <;> rfl
    · refine ⟨ups, front, fun m hm => hnames m (List.mem_append_left [n] hm), ?_⟩
      simp [course, takeStep]
  · refine ⟨ups, names ++ [n], ?_, by simp [course, takeStep]⟩
    exact List.forall_mem_append.2 ⟨hnames, List.forall_mem_singleton.2 hn⟩

theorem exists_course_reduce (h : ∀ s ∈ steps, s.IsOnward) :
    ∃ ups names, (∀ n ∈ names, Ordinary n) ∧ reduce steps = course ups names := by
  induction steps using List.reverseRecOn with
  | nil => exact ⟨0, [], by simp, rfl⟩
  | append_singleton steps s ih =>
      obtain ⟨ups, names, hnames, hreduce⟩ := ih fun t ht => h t (List.mem_append_left [s] ht)
      obtain ⟨ups', names', hnames', hstep⟩ :=
        exists_course_takeStep ups hnames (h s (by simp))
      refine ⟨ups', names', hnames', ?_⟩
      have hfold : reduce (steps ++ [s]) = (takeStep (reduce steps).reverse s).reverse := by
        simp [reduce]
      rw [hfold, hreduce, hstep, List.reverse_reverse]

/-- The normal form of a path that comes to a course is the course written out. -/
theorem steps_normalize_of_reduce (hnames : ∀ n ∈ names, Ordinary n)
    (h : reduce p.steps = course ups names) :
    p.normalize.steps = if course ups names = [] then [.here] else course ups names := by
  unfold normalize
  rw [h]
  split
  · next hnil =>
      rw [if_pos hnil]
      rfl
  · next hne =>
      rw [if_neg hne]
      exact steps_ofSteps (isWay_of_mem_course ups hnames)

theorem climbs_and_falls_of_reduce (hnames : ∀ n ∈ names, Ordinary n)
    (h : reduce p.steps = course ups names) : p.climbs = ups ∧ p.falls = names := by
  unfold climbs falls
  rw [steps_normalize_of_reduce hnames h]
  split
  · next hnil =>
      obtain ⟨rfl, rfl⟩ := course_eq_nil_iff.1 hnil
      exact ⟨rfl, rfl⟩
  · rw [takeWhile_course, List.length_replicate, filterMap_name?_course]
    exact ⟨rfl, rfl⟩

theorem reduce_of_not_isAbsolute (hp : ¬ p.isAbsolute) :
    (∀ n ∈ p.falls, Ordinary n) ∧ reduce p.steps = course p.climbs p.falls := by
  have honward : ∀ s ∈ p.steps, s.IsOnward := fun _ => isOnward_of_mem_steps hp
  obtain ⟨ups, names, hnames, hreduce⟩ := exists_course_reduce honward
  obtain ⟨hclimbs, hfalls⟩ := climbs_and_falls_of_reduce hnames hreduce
  rw [hclimbs, hfalls]
  exact ⟨hnames, hreduce⟩

theorem ordinary_of_mem_falls (hp : ¬ p.isAbsolute) : ∀ n ∈ p.falls, Ordinary n :=
  (reduce_of_not_isAbsolute hp).1

/-- The steps of the normal form of a relative path. -/
theorem steps_normalize_of_not_isAbsolute (hp : ¬ p.isAbsolute) :
    p.normalize.steps =
      if course p.climbs p.falls = [] then [.here] else course p.climbs p.falls :=
  steps_normalize_of_reduce (ordinary_of_mem_falls hp) (reduce_of_not_isAbsolute hp).2

/-- A relative path leads where its course does. -/
theorem placeFrom_of_not_isAbsolute (hp : ¬ p.isAbsolute) (start : List Text) :
    placeFrom start p.inner = start.take (start.length - p.climbs) ++ p.falls := by
  have honward : ∀ s ∈ p.steps, s.IsOnward := fun _ => isOnward_of_mem_steps hp
  rw [← placeFrom_steps_of_not_isAbsolute hp, ← (placeFrom_reduce honward start).2,
    (reduce_of_not_isAbsolute hp).2, placeFrom_course]

/-- The normal form of a relative path spells its course out, or is a single dot. -/
theorem normalize_of_not_isAbsolute (hp : ¬ p.isAbsolute) :
    p.normalize = if course p.climbs p.falls = [] then ⟨['.']⟩
      else ofSteps (course p.climbs p.falls) := by
  unfold normalize
  rw [(reduce_of_not_isAbsolute hp).2]
  split
  · next hnil => rw [if_pos hnil]
  · next hne => rw [if_neg hne]

theorem normalize_eq_dot_iff (hp : ¬ p.isAbsolute) :
    p.normalize = ⟨['.']⟩ ↔ p.climbs = 0 ∧ p.falls = [] := by
  rw [← course_eq_nil_iff]
  constructor
  · intro hdot
    by_contra hne
    have hsteps := steps_normalize_of_not_isAbsolute hp
    rw [hdot, if_neg hne] at hsteps
    refine here_not_mem_course p.climbs (ordinary_of_mem_falls hp) ?_
    rw [← hsteps]
    decide
  · intro hnil
    rw [normalize_of_not_isAbsolute hp, if_pos hnil]

end Quire.Path
