import Quire.Proofs.Path.Steps

/-!
The place that an absolute path names when no link is in the way: its names with every detour
undone. The normal form of a path is its place written out, and one path lies within another
exactly when the places do.
-/

namespace Quire.Path

/-- Where a step leads from a place. The root is its own parent. -/
def descend (place : List Text) : Step → List Text
  | .root => []
  | .here => place
  | .up => place.dropLast
  | .name n => place ++ [n]

/-- Where steps lead from a place. -/
def placeFrom (start : List Text) (steps : List Step) : List Text := steps.foldl descend start

/-- The place that an absolute path names. -/
def place (p : Path) : List Text := placeFrom [] p.steps

theorem placeFrom_append (start : List Text) (a b : List Step) :
    placeFrom start (a ++ b) = placeFrom (placeFrom start a) b := by
  simp [placeFrom, List.foldl_append]

theorem placeFrom_names (start names : List Text) :
    placeFrom start (names.map .name) = start ++ names := by
  induction names generalizing start with
  | nil => simp [placeFrom]
  | cons n names ih =>
      have hstep := ih (start ++ [n])
      simpa [placeFrom, descend] using hstep

variable {p dir : Path} {n : Text} {names : List Text}

theorem place_of_isAbsolute (hp : p.isAbsolute) : p.place = placeFrom [] p.inner := by
  rw [place, steps_of_isAbsolute hp]
  rfl

theorem place_join (hp : p.isAbsolute) {q : Path} (hq : ¬ q.isAbsolute) :
    (p.join q).place = placeFrom p.place q.inner := by
  rw [place_of_isAbsolute (isAbsolute_join hp q), inner_join hq, placeFrom_append,
    place_of_isAbsolute hp]

theorem place_child (hp : p.isAbsolute) (hn : Ordinary n) : (p.child n).place = p.place ++ [n] := by
  rw [child, place_join hp hn.not_isAbsolute, hn.inner]
  rfl

theorem place_foldl_child (hp : p.isAbsolute) (hnames : ∀ n ∈ names, Ordinary n) :
    (names.foldl child p).place = p.place ++ names := by
  rw [place_of_isAbsolute (isAbsolute_foldl_child hp names), inner_foldl_child hnames,
    placeFrom_append, placeFrom_names, place_of_isAbsolute hp]

/-- The place is made of ordinary names, whatever detours the path takes. -/
theorem ordinary_of_mem_place (hp : p.isAbsolute) : ∀ n ∈ p.place, Ordinary n := by
  rw [place_of_isAbsolute hp]
  suffices h : ∀ (steps : List Step) (start : List Text),
      (∀ s ∈ steps, s = .up ∨ ∃ n, Ordinary n ∧ s = .name n) → (∀ n ∈ start, Ordinary n) →
      ∀ n ∈ placeFrom start steps, Ordinary n from
    h p.inner [] (fun _ hs => eq_up_or_ordinary_of_mem_inner hs) (by simp)
  intro steps
  induction steps with
  | nil => exact fun _ _ hstart => hstart
  | cons s steps ih =>
      intro start hsteps hstart
      refine ih (descend start s) (fun t ht => hsteps t (List.mem_cons_of_mem s ht)) ?_
      rcases hsteps s List.mem_cons_self with rfl | ⟨m, hm, rfl⟩
      · exact fun n hn => hstart n (List.mem_of_mem_dropLast hn)
      · intro n hn
        rcases List.mem_append.1 hn with hn | hn
        · exact hstart n hn
        · exact List.mem_singleton.1 hn ▸ hm

/-- The steps taken so far are the names of the place, with the root below them. -/
theorem foldl_takeStep {steps : List Step} (hsteps : ∀ s ∈ steps, s = .up ∨ ∃ n, s = .name n)
    (start : List Text) :
    steps.foldl takeStep ((start.map Step.name).reverse ++ [.root]) =
      ((placeFrom start steps).map Step.name).reverse ++ [.root] := by
  induction steps generalizing start with
  | nil => rfl
  | cons s steps ih =>
      have htail := ih fun t ht => hsteps t (List.mem_cons_of_mem s ht)
      rw [List.foldl_cons]
      rcases hsteps s List.mem_cons_self with rfl | ⟨n, rfl⟩
      · rcases List.eq_nil_or_concat start with rfl | ⟨above, last, rfl⟩
        · exact htail []
        · simpa [takeStep, placeFrom, descend] using htail above
      · simpa [takeStep, placeFrom, descend] using htail (start ++ [n])

theorem reduce_steps (hp : p.isAbsolute) : reduce p.steps = .root :: p.place.map .name := by
  have hinner : ∀ s ∈ p.inner, s = .up ∨ ∃ n, s = .name n := by
    intro s hs
    rcases eq_up_or_ordinary_of_mem_inner hs with h | ⟨n, _, h⟩
    · exact Or.inl h
    · exact Or.inr ⟨n, h⟩
  have hfold := foldl_takeStep hinner []
  rw [← place_of_isAbsolute hp] at hfold
  rw [reduce, steps_of_isAbsolute hp, List.foldl_cons]
  simpa [takeStep] using congrArg List.reverse hfold

/-- The normal form of an absolute path spells out its place. -/
theorem normalize_of_isAbsolute (hp : p.isAbsolute) : p.normalize = ofNames p.place := by
  simp [normalize, reduce_steps hp, ofNames]

theorem isAbsolute_normalize (hp : p.isAbsolute) : p.normalize.isAbsolute := by
  rw [normalize_of_isAbsolute hp]
  exact isAbsolute_ofNames _

theorem steps_normalize (hp : p.isAbsolute) : p.normalize.steps = .root :: p.place.map .name := by
  rw [normalize_of_isAbsolute hp, steps_ofNames (ordinary_of_mem_place hp)]

theorem map_name_inj {a b : List Text} (h : a.map Step.name = b.map Step.name) : a = b :=
  List.map_injective_iff.2 (fun _ _ => Step.name.inj) h

theorem place_normalize (hp : p.isAbsolute) : p.normalize.place = p.place := by
  rw [place, steps_normalize hp]
  exact placeFrom_names [] p.place

/-- Absolute paths to one place have one normal form. -/
theorem normalize_eq_iff (hp : p.isAbsolute) {q : Path} (hq : q.isAbsolute) :
    q.normalize = p.normalize ↔ q.place = p.place := by
  constructor
  · intro h
    rw [← place_normalize hp, ← place_normalize hq, h]
  · intro h
    rw [normalize_of_isAbsolute hp, normalize_of_isAbsolute hq, h]

/-- A relative path leads from where one starts along its steps. -/
theorem resolve_eq_ofNames (hdir : dir.isAbsolute) (hp : ¬ p.isAbsolute) :
    dir.resolve p = ofNames (placeFrom dir.place p.inner) := by
  rw [resolve, if_neg hp, normalize_of_isAbsolute (isAbsolute_join hdir p), place_join hdir hp]

theorem place_resolve (hdir : dir.isAbsolute) (hp : ¬ p.isAbsolute) :
    (dir.resolve p).place = placeFrom dir.place p.inner := by
  rw [resolve, if_neg hp, place_normalize (isAbsolute_join hdir p), place_join hdir hp]

theorem isAbsolute_resolve (hdir : dir.isAbsolute) (p : Path) : (dir.resolve p).isAbsolute := by
  by_cases hp : p.isAbsolute
  · rw [resolve, if_pos hp]
    exact hp
  · rw [resolve_eq_ofNames hdir hp]
    exact isAbsolute_ofNames _

/-- Strictly below means that the place goes on. -/
theorem containment_eq_some_iff (hd : dir.isAbsolute) (hp : p.isAbsolute) {rest : Path} :
    containment dir p = some rest ↔
      ∃ names, names ≠ [] ∧ p.place = dir.place ++ names ∧ rest = ofSteps (names.map .name) := by
  have hpre : ∀ tail : List Step,
      dir.normalize.steps.isPrefixOf? p.normalize.steps = some tail ↔
        p.place.map Step.name = dir.place.map Step.name ++ tail := by
    intro tail
    rw [List.isPrefixOf?_eq_some_iff_append_eq, steps_normalize hd, steps_normalize hp,
      List.cons_append, List.cons.injEq]
    exact ⟨fun h => h.2.symm, fun h => ⟨rfl, h.symm⟩⟩
  unfold containment
  constructor
  · intro h
    split at h
    · next s tail htail =>
        obtain ⟨a, names, hplace, ha, hnames⟩ := List.map_eq_append_iff.1 ((hpre _).1 htail)
        refine ⟨names, ?_, by rw [hplace, map_name_inj ha], ?_⟩
        · rintro rfl
          cases hnames
        · rw [hnames]
          exact (Option.some.inj h).symm
    · cases h
  · rintro ⟨names, hne, hplace, rfl⟩
    obtain ⟨n, names, rfl⟩ := List.exists_cons_of_ne_nil hne
    have htail := (hpre (.name n :: names.map .name)).2 (by simp [hplace])
    simp [htail]

theorem isSome_containment_iff (hd : dir.isAbsolute) (hp : p.isAbsolute) :
    (containment dir p).isSome ↔ ∃ n rest, p.place = dir.place ++ n :: rest := by
  rw [Option.isSome_iff_exists]
  constructor
  · rintro ⟨rest, h⟩
    obtain ⟨names, hne, hplace, -⟩ := (containment_eq_some_iff hd hp).1 h
    obtain ⟨n, names, rfl⟩ := List.exists_cons_of_ne_nil hne
    exact ⟨n, names, hplace⟩
  · rintro ⟨n, names, hplace⟩
    exact ⟨_, (containment_eq_some_iff hd hp).2 ⟨n :: names, by simp, hplace, rfl⟩⟩

theorem place_eq_of_sameSteps {q : Path} (h : p.sameSteps q) : p.place = q.place := by
  have hsteps : p.steps = q.steps := by simpa [sameSteps] using h
  rw [place, place, hsteps]

theorem place_isPrefix_of_isWithin (hd : dir.isAbsolute) (hp : p.isAbsolute)
    (h : dir.isWithin p) : dir.place <+: p.place := by
  rcases Bool.or_eq_true_iff.1 h with h | h
  · rw [place_eq_of_sameSteps h]
  · obtain ⟨n, rest, hplace⟩ := (isSome_containment_iff hd hp).1 h
    exact ⟨n :: rest, hplace.symm⟩

theorem isWithin_of_place_isPrefix (hd : dir.isAbsolute) (hp : p.isAbsolute)
    (h : dir.place <+: p.place) (hne : dir.place ≠ p.place) : dir.isWithin p := by
  obtain ⟨tail, htail⟩ := h
  cases tail with
  | nil => exact absurd (by simpa using htail) hne
  | cons n rest =>
      refine Bool.or_eq_true_iff.2 (Or.inr ?_)
      exact (isSome_containment_iff hd hp).2 ⟨n, rest, htail.symm⟩

end Quire.Path
