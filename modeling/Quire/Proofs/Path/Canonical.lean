import Quire.Proofs.Path.Course
import Quire.Proofs.Path.Returning

/-!
Normal forms are canonical. A path is followed stretch by stretch from a directory; its normal form
has no detours and leads where the path does from everywhere, and paths that lead alike from
everywhere have one normal form. Main statement: `normalize_canonical`.
-/

namespace Quire.Path

variable {p q : Path} {names start : List Text} {k k' : Nat}

/-- Where a stretch between slashes leads from a directory. The root is its own parent. -/
def followField (dir : List Text) (field : Text) : List Text :=
  if field = [] ∨ field = ['.'] then dir
  else if field = ['.', '.'] then dir.dropLast
  else dir ++ [field]

/-- Where a path leads from a directory. One that begins with a slash starts over at the root. -/
def follow (start : List Text) (p : Path) : List Text :=
  p.fields.foldl followField (if p.isAbsolute then [] else start)

/-- A path without detours: a single dot, or steps to the parent and then ordinary names, or the
root and ordinary names, with single slashes between them. -/
def IsNormal (p : Path) : Prop :=
  p.IsRelativeNormal ∨
    ∃ names, (∀ n ∈ names, Ordinary n) ∧ p.text = '/' :: ['/'].intercalate names

theorem foldl_followField (fields : List Text) (dir : List Text) :
    fields.foldl followField dir = placeFrom dir (fields.filterMap Step.ofField?) := by
  induction fields generalizing dir with
  | nil => rfl
  | cons field fields ih =>
      rw [List.foldl_cons, ih, List.filterMap_cons, followField, Step.ofField?]
      by_cases hidle : field = [] ∨ field = ['.']
      · rw [if_pos hidle, if_pos hidle]
      · rw [if_neg hidle, if_neg hidle]
        by_cases hup : field = ['.', '.']
        · rw [if_pos hup, if_pos hup]
          rfl
        · rw [if_neg hup, if_neg hup]
          rfl

theorem follow_eq_placeFrom (start : List Text) (p : Path) :
    follow start p = placeFrom (if p.isAbsolute then [] else start) p.inner :=
  foldl_followField _ _

/-- From wherever one starts, an absolute path leads to its place. -/
theorem follow_of_isAbsolute (hp : p.isAbsolute) (start : List Text) :
    follow start p = p.place := by
  rw [follow_eq_placeFrom, if_pos hp, place_of_isAbsolute hp]

/-- A relative path leads so many names up and its own names down. -/
theorem follow_of_not_isAbsolute (hp : ¬ p.isAbsolute) (start : List Text) :
    follow start p = start.take (start.length - p.climbs) ++ p.falls := by
  rw [follow_eq_placeFrom, if_neg hp, placeFrom_of_not_isAbsolute hp]

theorem not_isAbsolute_normalize (hp : ¬ p.isAbsolute) : ¬ p.normalize.isAbsolute := by
  have hway := isWay_of_mem_course p.climbs (ordinary_of_mem_falls hp)
  rw [normalize_of_not_isAbsolute hp]
  split
  · decide
  · exact (placeFrom_ofSteps fun s hs => Or.inr (hway s hs)).1

/-- A normal form is a path of the same kind. -/
theorem isAbsolute_normalize_eq (p : Path) : p.normalize.isAbsolute = p.isAbsolute := by
  rw [Bool.eq_iff_iff]
  refine ⟨fun h => ?_, isAbsolute_normalize⟩
  by_contra hp
  exact not_isAbsolute_normalize hp h

/-- The normal form leads where the path does. -/
theorem follow_normalize (start : List Text) (p : Path) :
    follow start p.normalize = follow start p := by
  by_cases hp : p.isAbsolute
  · rw [follow_of_isAbsolute hp, follow_of_isAbsolute (isAbsolute_normalize hp), place_normalize hp]
  · have hnormal := not_isAbsolute_normalize hp
    rw [follow_eq_placeFrom, follow_eq_placeFrom, if_neg hp, if_neg hnormal,
      ← placeFrom_steps_of_not_isAbsolute hnormal, (placeFrom_normalize hp).2]

/-- The names of a descent are spelled as they are. -/
theorem map_text_map_name (names : List Text) : (names.map Step.name).map Step.text = names := by
  rw [List.map_map]
  exact List.map_id names

/-- An absolute path that only goes down has a slash before each name. -/
theorem text_ofNames (hnames : ∀ n ∈ names, Ordinary n) :
    (ofNames names).text = '/' :: ['/'].intercalate names := by
  by_cases hne : names = []
  · rw [hne]
    rfl
  · have hway : ∀ s ∈ names.map Step.name, s.IsWay := isWay_of_mem_course 0 hnames
    rw [ofNames_eq, ← join_ofSteps hnames hne, text_join (not_isAbsolute_ofSteps hnames),
      text_ofSteps hway, map_text_map_name]
    rfl

theorem isRelativeNormal_course {ups : Nat} (hnames : ∀ n ∈ names, Ordinary n)
    (hne : course ups names ≠ []) : (ofSteps (course ups names)).IsRelativeNormal := by
  refine Or.inr ⟨ups, names, ?_, hnames, ?_⟩
  · by_contra hnone
    simp only [not_or, Nat.not_lt, Nat.le_zero, not_ne_iff] at hnone
    exact hne (course_eq_nil_iff.2 hnone)
  · rw [text_ofSteps (isWay_of_mem_course ups hnames), course, List.map_append, List.map_replicate,
      map_text_map_name]
    rfl

theorem isNormal_normalize (p : Path) : p.normalize.IsNormal := by
  by_cases hp : p.isAbsolute
  · have hnames := ordinary_of_mem_place hp
    exact Or.inr ⟨p.place, hnames, by rw [normalize_of_isAbsolute hp, text_ofNames hnames]⟩
  · rw [normalize_of_not_isAbsolute hp]
    split
    · exact Or.inl (Or.inl rfl)
    · next hne => exact Or.inl (isRelativeNormal_course (ordinary_of_mem_falls hp) hne)

/-! Leading alike. -/

/-- Some ordinary name is not the given one. -/
theorem exists_ordinary_ne (m : Text) : ∃ n, Ordinary n ∧ n ≠ m := by
  by_cases hm : m = ['a']
  · exact ⟨['b'], by decide, by rw [hm]; decide⟩
  · exact ⟨['a'], by decide, Ne.symm hm⟩

/-- What climbs less does not lead to where what climbs more leads from a directory whose names the
latter does not go down. -/
theorem not_lt_of_forall_take_append {ns ns' : List Text}
    (h : ∀ start : List Text, (∀ n ∈ start, Ordinary n) →
      start.take (start.length - k) ++ ns = start.take (start.length - k') ++ ns') : ¬ k < k' := by
  intro hlt
  obtain ⟨n, hn, hne⟩ := exists_ordinary_ne (ns'.headD [])
  have hsame := h (List.replicate k' n) fun m hm => List.eq_of_mem_replicate hm ▸ hn
  rw [List.length_replicate, Nat.sub_self, List.take_zero, List.nil_append, List.take_replicate,
    Nat.min_eq_left (Nat.sub_le k' k)] at hsame
  obtain ⟨j, hj⟩ : ∃ j, k' - k = j + 1 := Nat.exists_eq_add_one.2 (by omega)
  rw [hj, List.replicate_succ, List.cons_append] at hsame
  exact hne (by rw [← hsame]; rfl)

theorem eq_of_forall_take_append {ns ns' : List Text}
    (h : ∀ start : List Text, (∀ n ∈ start, Ordinary n) →
      start.take (start.length - k) ++ ns = start.take (start.length - k') ++ ns') :
    k = k' ∧ ns = ns' := by
  have hle := not_lt_of_forall_take_append h
  have hge := not_lt_of_forall_take_append fun start hstart => (h start hstart).symm
  exact ⟨by omega, by simpa using h [] (by simp)⟩

/-- Where an absolute path leads, no relative path leads from everywhere. -/
theorem not_forall_take_append {ns place : List Text} :
    ¬ ∀ start : List Text, (∀ n ∈ start, Ordinary n) →
      start.take (start.length - k) ++ ns = place := by
  intro h
  have hroot := h [] (by simp)
  have hdeep := h (List.replicate (k + 1) ['a']) fun m hm => by
    rw [List.eq_of_mem_replicate hm]
    decide
  have hlength := congrArg List.length (hdeep.trans hroot.symm)
  simp at hlength

/-- Paths have one normal form exactly if they lead to one place from every directory. -/
theorem normalize_eq_normalize_iff : q.normalize = p.normalize ↔
    ∀ start, (∀ n ∈ start, Ordinary n) → follow start q = follow start p := by
  constructor
  · intro h start _
    rw [← follow_normalize, h, follow_normalize]
  · intro h
    by_cases hp : p.isAbsolute
    · by_cases hq : q.isAbsolute
      · have hplace := h [] (by simp)
        rw [follow_of_isAbsolute hp, follow_of_isAbsolute hq] at hplace
        exact (normalize_eq_iff hp hq).2 hplace
      · simp only [follow_of_isAbsolute hp, follow_of_not_isAbsolute hq] at h
        exact absurd h not_forall_take_append
    · by_cases hq : q.isAbsolute
      · simp only [follow_of_not_isAbsolute hp, follow_of_isAbsolute hq] at h
        exact absurd (fun start hstart => (h start hstart).symm) not_forall_take_append
      · simp only [follow_of_not_isAbsolute hp, follow_of_not_isAbsolute hq] at h
        obtain ⟨hclimbs, hfalls⟩ := eq_of_forall_take_append h
        rw [normalize_of_not_isAbsolute hp, normalize_of_not_isAbsolute hq, hclimbs, hfalls]

/-- Taking the detours out of a path is sound and canonical: the normal form is its own normal form,
has no detours, is of the same kind as the path, and leads where the path does from everywhere; and
two paths have one normal form exactly if they lead to one place from every directory. -/
theorem normalize_canonical (p : Path) :
    p.normalize.normalize = p.normalize ∧ p.normalize.IsNormal ∧
      p.normalize.isAbsolute = p.isAbsolute ∧
      (∀ start, follow start p.normalize = follow start p) ∧
      ∀ q : Path, q.normalize = p.normalize ↔
        ∀ start, (∀ n ∈ start, Ordinary n) → follow start q = follow start p :=
  ⟨normalize_eq_normalize_iff.2 fun start _ => follow_normalize start p, isNormal_normalize p,
    isAbsolute_normalize_eq p, fun start => follow_normalize start p,
    fun _ => normalize_eq_normalize_iff⟩

/-- A path that climbs out of where it starts and spells its way with detours. -/
theorem normalize_canonical_climbing :
    (Path.mk "./a/../../b//c/.".toList).normalize = ⟨"../b/c".toList⟩ ∧
      follow ["x".toList, "y".toList] ⟨"./a/../../b//c/.".toList⟩ =
        ["x".toList, "b".toList, "c".toList] := by
  have hnormal : (Path.mk "./a/../../b//c/.".toList).normalize = ⟨"../b/c".toList⟩ := by decide
  refine ⟨hnormal, ?_⟩
  rw [← (normalize_canonical ⟨"./a/../../b//c/.".toList⟩).2.2.2.1, hnormal]
  decide

end Quire.Path
