import Quire.Proofs.Path.Onward

/-!
Below a directory. One path is contained in another exactly where its normal form is that of the
other with names put behind it, so containment is a strict order, and what is left of a path below
one directory is put together from what is left below those in between. Main statement:
`containment_strict_order`.
-/

namespace Quire.Path

variable {dir p q r rest : Path} {above names : List Text}

/-- A path that goes down ordinary names, at least one, and takes no other step. -/
def Descends (p : Path) : Prop :=
  ∃ names : List Text, names ≠ [] ∧ (∀ n ∈ names, Ordinary n) ∧ p.steps = names.map .name

theorem Descends.not_isAbsolute (h : Descends p) : ¬ p.isAbsolute := by
  obtain ⟨names, -, -, hsteps⟩ := h
  intro habs
  cases names <;> simp [steps_of_isAbsolute habs] at hsteps

/-- A descent takes no step but those between its slashes. -/
theorem Descends.inner_eq (h : Descends p) : p.inner = p.steps := by
  rcases steps_of_not_isAbsolute h.not_isAbsolute with hinner | hhere
  · exact hinner.symm
  · obtain ⟨names, -, -, hsteps⟩ := h
    cases names <;> simp [hhere] at hsteps

theorem steps_ofSteps_map_name (hnames : ∀ n ∈ names, Ordinary n) :
    (ofSteps (names.map .name)).steps = names.map .name := by
  refine steps_ofSteps fun s hs => ?_
  obtain ⟨n, hn, rfl⟩ := List.mem_map.1 hs
  exact Or.inr ⟨n, hnames n hn, rfl⟩

theorem descends_ofSteps (hnames : ∀ n ∈ names, Ordinary n) (hne : names ≠ []) :
    Descends (ofSteps (names.map .name)) :=
  ⟨names, hne, hnames, steps_ofSteps_map_name hnames⟩

/-- What is joined behind a path can be told from the whole. -/
theorem join_inj (hq : ¬ q.isAbsolute) (hr : ¬ r.isAbsolute) (h : p.join q = p.join r) : q = r := by
  have htext := congrArg Path.text h
  rw [text_join hq, text_join hr, List.append_cancel_left_eq] at htext
  split at htext
  · exact congrArg Path.mk htext
  · exact congrArg Path.mk (List.cons.inj htext).2

/-- Names put behind a place that is written out. -/
theorem join_ofNames (hnames : ∀ n ∈ names, Ordinary n) (hne : names ≠ []) :
    (ofNames above).join (ofSteps (names.map .name)) = ofNames (above ++ names) := by
  rw [join_ofSteps hnames hne, ofNames_eq, ofNames_eq, List.foldl_append]

/-- A path below a directory has the names of a descent behind those of the directory. -/
theorem place_of_sameSteps_join (hd : dir.isAbsolute) (hp : p.isAbsolute) (hrest : Descends rest)
    (hsteps : rest.steps = names.map .name)
    (h : p.normalize.steps = (dir.normalize.join rest).steps) : p.place = dir.place ++ names := by
  have hnormal := isAbsolute_normalize hd
  calc p.place = (dir.normalize.join rest).place := by rw [← place_normalize hp, place, h, place]
    _ = placeFrom dir.place (names.map .name) := by
      rw [place_join hnormal hrest.not_isAbsolute, place_normalize hd, hrest.inner_eq, hsteps]
    _ = dir.place ++ names := placeFrom_names _ _

/-- The rest below a directory goes down only, and stands behind the directory in the normal form
of the path. -/
theorem containment_eq_some_iff_join (hd : dir.isAbsolute) (hp : p.isAbsolute) :
    containment dir p = some rest ↔ Descends rest ∧ p.normalize = dir.normalize.join rest := by
  have hnames := ordinary_of_mem_place hp
  rw [containment_eq_some_iff hd hp, normalize_of_isAbsolute hp, normalize_of_isAbsolute hd]
  constructor
  · rintro ⟨names, hne, hplace, rfl⟩
    have hall : ∀ n ∈ names, Ordinary n := fun n hn =>
      hnames n (hplace ▸ List.mem_append_right _ hn)
    exact ⟨descends_ofSteps hall hne, by rw [join_ofNames hall hne, hplace]⟩
  · rintro ⟨hrest, hjoin⟩
    obtain ⟨names, hne, hall, hsteps⟩ := id hrest
    have hplace := place_of_sameSteps_join hd hp hrest hsteps <| by
      rw [normalize_of_isAbsolute hp, normalize_of_isAbsolute hd, hjoin]
    refine ⟨names, hne, hplace, ?_⟩
    -- the place tells the names only, so the spelling is read off the normal form
    rw [hplace, ← join_ofNames hall hne] at hjoin
    exact (join_inj (not_isAbsolute_ofSteps hall) hrest.not_isAbsolute hjoin).symm

/-- The same up to the spelling of the rest: paths are told apart by their steps. -/
theorem containment_sameSteps_iff (hd : dir.isAbsolute) (hp : p.isAbsolute) :
    (∃ r, containment dir p = some r ∧ r.sameSteps rest) ↔
      Descends rest ∧ p.normalize.sameSteps (dir.normalize.join rest) := by
  simp only [sameSteps, decide_eq_true_eq]
  constructor
  · rintro ⟨r, hr, hsame⟩
    obtain ⟨hdown, hjoin⟩ := (containment_eq_some_iff_join hd hp).1 hr
    have hnormal := isAbsolute_normalize hd
    have hdown' : Descends rest := by
      rw [Descends, ← hsame]
      exact hdown
    refine ⟨hdown', ?_⟩
    rw [hjoin, steps_of_isAbsolute (isAbsolute_join hnormal _),
      steps_of_isAbsolute (isAbsolute_join hnormal _), inner_join hdown.not_isAbsolute,
      inner_join hdown'.not_isAbsolute, hdown.inner_eq, hdown'.inner_eq, hsame]
  · rintro ⟨hdown, hsame⟩
    obtain ⟨names, hne, hall, hsteps⟩ := id hdown
    refine ⟨ofSteps (names.map .name), (containment_eq_some_iff hd hp).2 ⟨names, hne, ?_, rfl⟩, ?_⟩
    · exact place_of_sameSteps_join hd hp hdown hsteps hsame
    · rw [steps_ofSteps_map_name hall, hsteps]

theorem containment_self (hd : dir.isAbsolute) : containment dir dir = none := by
  rw [Option.eq_none_iff_forall_ne_some]
  intro rest h
  obtain ⟨names, hne, hplace, -⟩ := (containment_eq_some_iff hd hd).1 h
  exact hne (List.self_eq_append_right.1 hplace)

/-- What lies below a path that lies below another lies below that one, by both ways joined. -/
theorem containment_trans (hd : dir.isAbsolute) (hp : p.isAbsolute) (hq : q.isAbsolute)
    {rest' : Path} (h : containment dir p = some rest) (h' : containment p q = some rest') :
    containment dir q = some (rest.join rest') := by
  obtain ⟨names, hne, hplace, rfl⟩ := (containment_eq_some_iff hd hp).1 h
  obtain ⟨names', hne', hplace', rfl⟩ := (containment_eq_some_iff hp hq).1 h'
  have hall' : ∀ n ∈ names', Ordinary n := fun n hn =>
    ordinary_of_mem_place hq n (hplace' ▸ List.mem_append_right _ hn)
  refine (containment_eq_some_iff hd hq).2 ⟨names ++ names', by simp [hne], ?_, ?_⟩
  · rw [hplace', hplace, List.append_assoc]
  · rw [join_ofSteps hall' hne', ofSteps_map_name, ofSteps_map_name, List.foldl_append]

theorem containment_asymm (hd : dir.isAbsolute) (hp : p.isAbsolute)
    (h : (containment dir p).isSome) : containment p dir = none := by
  obtain ⟨rest, hrest⟩ := Option.isSome_iff_exists.1 h
  rw [Option.eq_none_iff_forall_ne_some]
  intro rest' hrest'
  have hself := containment_trans hd hp hd hrest hrest'
  rw [containment_self hd] at hself
  cases hself

/-- Containment is the relation of strict descendants: the rest is a descent that stands behind the
directory in the normal form of the path, whether rests are compared letter by letter or by their
steps; nothing lies below itself or below what lies below it, and rests join along a chain. -/
theorem containment_strict_order (hd : dir.isAbsolute) (hp : p.isAbsolute) :
    (∀ rest, containment dir p = some rest ↔
      Descends rest ∧ p.normalize = dir.normalize.join rest) ∧
    (∀ rest, (∃ r, containment dir p = some r ∧ r.sameSteps rest) ↔
      Descends rest ∧ p.normalize.sameSteps (dir.normalize.join rest)) ∧
    containment dir dir = none ∧
    ((containment dir p).isSome → containment p dir = none) ∧
    ∀ q rest rest', q.isAbsolute → containment dir p = some rest → containment p q = some rest' →
      containment dir q = some (rest.join rest') :=
  ⟨fun _ => containment_eq_some_iff_join hd hp, fun _ => containment_sameSteps_iff hd hp,
    containment_self hd, containment_asymm hd hp,
    fun _ _ _ hq h h' => containment_trans hd hp hq h h'⟩

/-- A path with detours two names below a directory with a detour. -/
theorem containment_strict_order_below :
    (Path.mk "/a/../b/".toList).isAbsolute ∧ (Path.mk "/b//c/./d".toList).isAbsolute ∧
      containment ⟨"/a/../b/".toList⟩ ⟨"/b//c/./d".toList⟩ = some ⟨"c/d".toList⟩ ∧
      containment ⟨"/b//c/./d".toList⟩ ⟨"/a/../b/".toList⟩ = none := by
  have hd : (Path.mk "/a/../b/".toList).isAbsolute := by decide
  have hp : (Path.mk "/b//c/./d".toList).isAbsolute := by decide
  obtain ⟨hjoin, -, -, hasymm, -⟩ := containment_strict_order hd hp
  have hrest : Descends ⟨"c/d".toList⟩ :=
    ⟨["c".toList, "d".toList], by decide, by decide, by decide⟩
  have hbelow : containment ⟨"/a/../b/".toList⟩ ⟨"/b//c/./d".toList⟩ = some ⟨"c/d".toList⟩ :=
    (hjoin _).2 ⟨hrest, by decide⟩
  exact ⟨hd, hp, hbelow, hasymm (by rw [hbelow]; rfl)⟩

end Quire.Path
