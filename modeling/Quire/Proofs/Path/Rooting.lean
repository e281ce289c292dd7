import Quire.Proofs.Path.Canonical

/-!
Relative paths and the same paths below a root. What one relative path is seen from another, and
what lies below what, is told by the names they go down and by how far they climb; below a root the
names that are climbed out of are known too. Main statement: `agree_join_iff`.
-/

namespace Quire.Path

variable {a b r dir p rest : Path} {ups k : Nat} {as bs names : List Text} {steps tail : List Step}

/-! Ways that begin alike. -/

theorem commonLength_append_left {α : Type} [DecidableEq α] (l as bs : List α) :
    commonLength (l ++ as) (l ++ bs) = l.length + commonLength as bs := by
  induction l with
  | nil => simp
  | cons x l ih =>
      simp only [List.cons_append, commonLength, if_true, ih, List.length_cons]
      omega

/-- What two places have in common is no matter for the way from one to the other. -/
theorem way_append_left (l as bs : List Text) : way (l ++ as) (l ++ bs) = way as bs := by
  have hups : (l ++ as).length - (l.length + commonLength as bs) =
      as.length - commonLength as bs := by
    rw [List.length_append]
    omega
  rw [way, way, commonLength_append_left, hups, List.drop_append]
  simp

/-- Names do not begin as steps to the parent do. -/
theorem commonLength_names_course (as bs : List Text) (k : Nat) :
    commonLength (as.map Step.name) (course (k + 1) bs) = 0 := by
  cases as with
  | nil => rfl
  | cons n as => simp [course, List.replicate_succ, commonLength]

theorem commonLength_course (k : Nat) (as bs : List Text) :
    commonLength (course k as) (course k bs) = k + commonLength as bs := by
  rw [course, course, commonLength_append_left, commonLength_map_name, List.length_replicate]

theorem commonLength_course_of_lt {k' : Nat} (h : k < k') (as bs : List Text) :
    commonLength (course k as) (course k' bs) = k := by
  obtain ⟨j, rfl⟩ : ∃ j, k' = k + (j + 1) := ⟨k' - k - 1, by omega⟩
  have hsplit : course (k + (j + 1)) bs = List.replicate k .up ++ course (j + 1) bs := by
    simp [course, ← List.replicate_append_replicate]
  rw [hsplit, course, commonLength_append_left, commonLength_names_course, List.length_replicate,
    Nat.add_zero]

/-! What is seen from a relative path. -/

/-- A single dot behind a way takes no step. -/
theorem steps_child_dot (hne : steps ≠ []) (h : ∀ s ∈ steps, s.IsWay) :
    ((ofSteps steps).child ['.']).steps = steps := by
  have hfields := fields_ofSteps hne h
  have htext := text_ofSteps_ne_nil hne h
  have hend : (ofSteps steps).text.getLast? ≠ some '/' := by
    intro hslash
    obtain ⟨front, hfront⟩ := List.getLast?_eq_some_iff.1 hslash
    have hempty : [] ∈ steps.map Step.text := by
      rw [← hfields, fields, hfront, Text.fields_append_sep]
      simp [Text.fields]
    obtain ⟨s, hs, hnil⟩ := List.mem_map.1 hempty
    exact (h s hs).text_ne_nil hnil
  have hdot : ¬ (Path.mk ['.']).isAbsolute := by decide
  have hchild : ((ofSteps steps).child ['.']).fields = steps.map Step.text ++ [['.']] := by
    rw [child, fields, text_join hdot, if_neg (by simp [htext, hend]), Text.fields_append_sep,
      ← hfields]
    rfl
  have hrel : ¬ ((ofSteps steps).child ['.']).isAbsolute :=
    not_isAbsolute_child (placeFrom_ofSteps fun s hs => Or.inr (h s hs)).1 (by decide)
  obtain ⟨s, rest, rfl⟩ := List.exists_cons_of_ne_nil hne
  have hhead : s.text ≠ ['.'] := (h s List.mem_cons_self).text_ne_dot
  rw [Path.steps, if_neg hrel, hchild, List.map_cons, List.cons_append, List.head?_cons,
    if_neg (by simpa using hhead), ← List.cons_append, ← List.map_cons, List.filterMap_append,
    filterMap_ofField? h]
  simp [Step.ofField?]

/-- The steps from one list of steps to another: up out of what they do not share, then on. -/
def stepsTo (from' goal : List Step) : List Step :=
  List.replicate (from'.length - commonLength from' goal) .up ++ goal.drop (commonLength from' goal)

theorem steps_relativize_of_isWay (hsteps : stepsTo a.normalize.steps b.normalize.steps = steps)
    (h : ∀ s ∈ steps, s.IsWay) :
    (a.relativize b).steps = if steps = [] then [.here] else steps := by
  have hrelativize : a.relativize b =
      if (ofSteps steps).text = [] then ⟨['.']⟩ else ofSteps steps := by
    rw [← hsteps]
    rfl
  rw [hrelativize]
  by_cases hnil : steps = []
  · rw [hnil]
    rfl
  · rw [if_neg (text_ofSteps_ne_nil hnil h), if_neg hnil, steps_ofSteps h]

theorem stepsTo_course (k : Nat) (as bs : List Text) :
    stepsTo (course k as) (course k bs) = way as bs := by
  have hups : (course k as).length - (k + commonLength as bs) =
      as.length - commonLength as bs := by
    simp only [course, List.length_append, List.length_replicate, List.length_map]
    omega
  have hdown : (course k bs).drop (k + commonLength as bs) =
      (bs.drop (commonLength as bs)).map .name := by
    simp [course, List.drop_append, List.map_drop]
  rw [stepsTo, commonLength_course, hups, hdown, way]

theorem stepsTo_course_of_lt {k' : Nat} (h : k < k') (as bs : List Text) :
    stepsTo (course k as) (course k' bs) = course (as.length + (k' - k)) bs := by
  have hups : (course k as).length - k = as.length := by
    simp only [course, List.length_append, List.length_replicate, List.length_map]
    omega
  have hdown : (course k' bs).drop k = course (k' - k) bs := by
    simp [course, List.drop_append, Nat.sub_eq_zero_of_le (Nat.le_of_lt h)]
  rw [stepsTo, commonLength_course_of_lt h, hups, hdown, course, course, ← List.append_assoc,
    List.replicate_append_replicate]

/-- Seen from a path that goes down names, where it starts is so many steps up. -/
theorem steps_relativize_dot (has : as ≠ []) (ha : a.normalize.steps = as.map .name)
    (hb : b.normalize.steps = [.here]) :
    (a.relativize b).steps = List.replicate as.length .up := by
  have hne : List.replicate as.length Step.up ≠ [] := by simpa using has
  have hway : ∀ s ∈ List.replicate as.length Step.up, s.IsWay := fun s hs =>
    Or.inl (List.eq_of_mem_replicate hs)
  have hshared : commonLength (as.map Step.name) [.here] = 0 := by
    cases as <;> simp [commonLength]
  have hofSteps : ofSteps (stepsTo (as.map .name) [.here]) =
      (ofSteps (List.replicate as.length .up)).child ['.'] := by
    simp [stepsTo, hshared, ofSteps, Step.text]
  have htext : ((ofSteps (List.replicate as.length .up)).child ['.']).text ≠ [] := by
    rw [child, text_join (by decide)]
    simp [text_ofSteps_ne_nil hne hway]
  have hrelativize : a.relativize b = (ofSteps (List.replicate as.length .up)).child ['.'] := by
    rw [relativize, ha, hb]
    exact (if_neg (hofSteps ▸ htext)).trans hofSteps
  rw [hrelativize, steps_child_dot hne hway]

/-- Seen from one relative path, another that climbs as far is seen as its names are seen from the
names of the first. A single dot, though, sees nothing but itself so. -/
theorem steps_relativize_of_climbs_eq (ha : ¬ a.isAbsolute) (hb : ¬ b.isAbsolute)
    (hdot : a.normalize = ⟨['.']⟩ → b.normalize = ⟨['.']⟩) (h : a.climbs = b.climbs) :
    (a.relativize b).steps = if way a.falls b.falls = [] then [.here] else way a.falls b.falls := by
  have hsa := steps_normalize_of_not_isAbsolute ha
  have hsb := steps_normalize_of_not_isAbsolute hb
  rw [normalize_eq_dot_iff ha, normalize_eq_dot_iff hb] at hdot
  by_cases hnilb : course b.climbs b.falls = []
  · obtain ⟨hclimbs, hfallsb⟩ := course_eq_nil_iff.1 hnilb
    rw [if_pos hnilb] at hsb
    by_cases hfalls : a.falls = []
    · rw [if_pos (course_eq_nil_iff.2 ⟨h.trans hclimbs, hfalls⟩)] at hsa
      rw [hfalls, hfallsb, relativize, hsa, hsb]
      rfl
    · have hway : way a.falls [] = List.replicate a.falls.length .up := by
        simp [way, commonLength]
      rw [if_neg fun hnil => hfalls (course_eq_nil_iff.1 hnil).2, h, hclimbs] at hsa
      rw [steps_relativize_dot hfalls hsa hsb, hfallsb, hway, if_neg (by simpa using hfalls)]
  · have hnila : course a.climbs a.falls ≠ [] := fun hnil =>
      hnilb (course_eq_nil_iff.2 (hdot (course_eq_nil_iff.1 hnil)))
    rw [if_neg hnilb] at hsb
    rw [if_neg hnila, h] at hsa
    exact steps_relativize_of_isWay (by rw [hsa, hsb, stepsTo_course])
      (isWay_of_mem_way (ordinary_of_mem_falls hb))

/-- Another that climbs farther is seen by going up out of all names of the first. -/
theorem steps_relativize_of_climbs_lt (ha : ¬ a.isAbsolute) (hb : ¬ b.isAbsolute)
    (hdot : a.normalize ≠ ⟨['.']⟩) (h : a.climbs < b.climbs) :
    (a.relativize b).steps = course (a.falls.length + (b.climbs - a.climbs)) b.falls := by
  have hsa := steps_normalize_of_not_isAbsolute ha
  have hsb := steps_normalize_of_not_isAbsolute hb
  have hnila : course a.climbs a.falls ≠ [] := fun hnil =>
    hdot ((normalize_eq_dot_iff ha).2 (course_eq_nil_iff.1 hnil))
  have hnilb : course b.climbs b.falls ≠ [] := fun hnil => by
    have hzero := (course_eq_nil_iff.1 hnil).1
    omega
  have hnil : course (a.falls.length + (b.climbs - a.climbs)) b.falls ≠ [] := fun hnil => by
    have hzero := (course_eq_nil_iff.1 hnil).1
    omega
  rw [if_neg hnilb] at hsb
  rw [if_neg hnila] at hsa
  rw [steps_relativize_of_isWay (by rw [hsa, hsb, stepsTo_course_of_lt h])
    (isWay_of_mem_course _ (ordinary_of_mem_falls hb)), if_neg hnil]

/-! Below a root. -/

/-- The names of a directory that a path climbs out of and another path, which climbs less, does
not. -/
def between (r a b : Path) : List Text :=
  (r.place.drop (r.place.length - b.climbs)).take (b.climbs - a.climbs)

theorem between_eq_nil (h : a.climbs = b.climbs) : between r a b = [] := by
  rw [between, h, Nat.sub_self, List.take_zero]

theorem length_between (hroom : b.climbs ≤ r.place.length) :
    (between r a b).length = b.climbs - a.climbs := by
  rw [between, List.length_take, List.length_drop]
  omega

theorem place_join_of_not_isAbsolute (hr : r.isAbsolute) (ha : ¬ a.isAbsolute) :
    (r.join a).place = r.place.take (r.place.length - a.climbs) ++ a.falls := by
  rw [place_join hr ha, placeFrom_of_not_isAbsolute ha]

/-- What climbs less is below where the other climbs to, down the names in between. -/
theorem place_join_of_le (hr : r.isAbsolute) (ha : ¬ a.isAbsolute) (hle : a.climbs ≤ b.climbs)
    (hroom : b.climbs ≤ r.place.length) :
    (r.join a).place =
      r.place.take (r.place.length - b.climbs) ++ (between r a b ++ a.falls) := by
  have hlength : r.place.length - a.climbs =
      r.place.length - b.climbs + (b.climbs - a.climbs) := by omega
  rw [place_join_of_not_isAbsolute hr ha, hlength, List.take_add, between, List.append_assoc]

theorem steps_relativize_join (hr : r.isAbsolute) (ha : ¬ a.isAbsolute) (hb : ¬ b.isAbsolute)
    (hle : a.climbs ≤ b.climbs) (hroom : b.climbs ≤ r.place.length) :
    ((r.join a).relativize (r.join b)).steps =
      if way (between r a b ++ a.falls) b.falls = [] then [.here]
      else way (between r a b ++ a.falls) b.falls := by
  rw [steps_relativize (isAbsolute_join hr a) (isAbsolute_join hr b),
    place_join_of_le hr ha hle hroom, place_join_of_not_isAbsolute hr hb, way_append_left]

/-- A way goes up out of all names exactly if the first names differ. -/
theorem way_eq_course_iff (hne : as ≠ []) :
    way as bs = course as.length bs ↔ ¬ ∃ n, as.head? = some n ∧ bs.head? = some n := by
  obtain ⟨m, as, rfl⟩ := List.exists_cons_of_ne_nil hne
  cases bs with
  | nil => simp [way, course, commonLength]
  | cons n bs =>
      by_cases hmn : m = n
      · refine iff_of_false (fun hway => ?_) (by simp [hmn])
        have hups := congrArg (fun steps => (steps.takeWhile (· = Step.up)).length) hway
        simp only [way_eq_course, takeWhile_course, List.length_replicate, commonLength, if_pos hmn,
          List.length_cons] at hups
        omega
      · refine iff_of_true ?_ (by simp [Ne.symm hmn])
        simp [way, course, commonLength, hmn]

/-- Seen below a root, one path is seen from the other as without the root exactly if it does not
come down again by the first name that it has climbed out of in between. -/
theorem relativize_join_sameSteps_iff (hr : r.isAbsolute) (ha : ¬ a.isAbsolute)
    (hb : ¬ b.isAbsolute) (hdot : a.normalize = ⟨['.']⟩ → b.normalize = ⟨['.']⟩)
    (hle : a.climbs ≤ b.climbs) (hroom : b.climbs ≤ r.place.length) :
    ((r.join a).relativize (r.join b)).sameSteps (a.relativize b) ↔
      ¬ ∃ n, (between r a b).head? = some n ∧ b.falls.head? = some n := by
  rw [sameSteps, decide_eq_true_eq, steps_relativize_join hr ha hb hle hroom]
  rcases Nat.eq_or_lt_of_le hle with heq | hlt
  · rw [steps_relativize_of_climbs_eq ha hb hdot heq, between_eq_nil heq]
    simp
  · have hne : between r a b ≠ [] := by
      rw [ne_eq, ← List.length_eq_zero_iff, length_between hroom]
      omega
    have hdot' : a.normalize ≠ ⟨['.']⟩ := fun hnormal => by
      have hzero := ((normalize_eq_dot_iff hb).1 (hdot hnormal)).1
      omega
    have hlength : (between r a b ++ a.falls).length =
        a.falls.length + (b.climbs - a.climbs) := by
      rw [List.length_append, length_between hroom, Nat.add_comm]
    have hhead : (between r a b ++ a.falls).head? = (between r a b).head? := by
      obtain ⟨n, ns, hcons⟩ := List.exists_cons_of_ne_nil hne
      rw [hcons]
      rfl
    rw [steps_relativize_of_climbs_lt ha hb hdot' hlt, ← hlength, ← hhead,
      ← way_eq_course_iff (by simp [hne])]
    split
    · next hnil =>
        -- a way of no steps goes up out of no names
        refine iff_of_false (fun hhere => ?_) fun hway => ?_
        · refine here_not_mem_course (between r a b ++ a.falls).length
            (ordinary_of_mem_falls hb) ?_
          rw [← hhere]
          exact List.mem_cons_self
        · have hzero := (course_eq_nil_iff.1 (hway ▸ hnil)).1
          omega
    · exact Iff.rfl

/-! What lies below. -/

theorem containment_eq_some_iff_steps : containment dir p = some rest ↔
    ∃ tail, tail ≠ [] ∧ p.normalize.steps = dir.normalize.steps ++ tail ∧ rest = ofSteps tail := by
  have hpre : ∀ tail : List Step, dir.normalize.steps.isPrefixOf? p.normalize.steps = some tail ↔
      p.normalize.steps = dir.normalize.steps ++ tail := fun tail =>
    List.isPrefixOf?_eq_some_iff_append_eq.trans eq_comm
  unfold containment
  constructor
  · intro h
    split at h
    · next s tail htail =>
        exact ⟨s :: tail, by simp, (hpre _).1 htail, (Option.some.inj h).symm⟩
    · cases h
  · rintro ⟨tail, hne, hsteps, rfl⟩
    obtain ⟨s, tail, rfl⟩ := List.exists_cons_of_ne_nil hne
    rw [(hpre _).2 hsteps]

/-- Below a root, one path lies below the other exactly if its names go on behind those of the
other, the names in between put before them. -/
theorem containment_join_eq_some_iff (hr : r.isAbsolute) (ha : ¬ a.isAbsolute)
    (hb : ¬ b.isAbsolute) (hle : a.climbs ≤ b.climbs) (hroom : b.climbs ≤ r.place.length) :
    containment (r.join a) (r.join b) = some rest ↔
      ∃ names, names ≠ [] ∧ b.falls = between r a b ++ a.falls ++ names ∧
        rest = ofSteps (names.map .name) := by
  rw [containment_eq_some_iff (isAbsolute_join hr a) (isAbsolute_join hr b),
    place_join_of_le hr ha hle hroom, place_join_of_not_isAbsolute hr hb]
  simp only [List.append_assoc, List.append_cancel_left_eq]

/-- Of two relative paths that climb as far, one lies below the other exactly if its names go on
behind those of the other. Below a single dot, though, no names lie so. -/
theorem containment_eq_some_iff_of_climbs_eq (ha : ¬ a.isAbsolute) (hb : ¬ b.isAbsolute)
    (hdot : ¬ (a.normalize = ⟨['.']⟩ ∧ b.climbs = 0 ∧ b.falls ≠ [])) (h : a.climbs = b.climbs) :
    containment a b = some rest ↔
      ∃ names, names ≠ [] ∧ b.falls = a.falls ++ names ∧ rest = ofSteps (names.map .name) := by
  have hsa := steps_normalize_of_not_isAbsolute ha
  have hsb := steps_normalize_of_not_isAbsolute hb
  rw [normalize_eq_dot_iff ha] at hdot
  rw [containment_eq_some_iff_steps]
  by_cases hnilb : course b.climbs b.falls = []
  · -- nothing is below where both start
    rw [if_pos hnilb] at hsb
    obtain ⟨hclimbs, hfalls⟩ := course_eq_nil_iff.1 hnilb
    refine iff_of_false ?_ (fun ⟨names, hne, hnames, _⟩ => ?_)
    · rintro ⟨tail, hne, hsteps, -⟩
      rw [hsb, hsa] at hsteps
      split at hsteps
      · exact hne (List.cons_eq_cons.1 hsteps).2.symm
      · next hnila =>
          obtain ⟨s, rest, hcons⟩ := List.exists_cons_of_ne_nil hnila
          refine here_not_mem_course a.climbs (ordinary_of_mem_falls ha) ?_
          rw [hcons] at hsteps ⊢
          rw [(List.cons_eq_cons.1 hsteps).1]
          exact List.mem_cons_self
    · rw [hfalls] at hnames
      exact hne (List.append_eq_nil_iff.1 hnames.symm).2
  · have hnila : course a.climbs a.falls ≠ [] := by
      intro hnil
      obtain ⟨hclimbs, hfalls⟩ := course_eq_nil_iff.1 hnil
      have hzero : b.climbs = 0 := h.symm.trans hclimbs
      exact hdot ⟨⟨hclimbs, hfalls⟩, hzero, fun hnone => hnilb (course_eq_nil_iff.2 ⟨hzero, hnone⟩)⟩
    rw [if_neg hnilb] at hsb
    rw [if_neg hnila, h] at hsa
    rw [hsa, hsb]
    simp only [course, List.append_assoc, List.append_cancel_left_eq]
    constructor
    · rintro ⟨tail, hne, htail, rfl⟩
      obtain ⟨front, names, hfalls, hfront, rfl⟩ := List.map_eq_append_iff.1 htail
      exact ⟨names, by simpa using hne, by rw [hfalls, map_name_inj hfront], rfl⟩
    · rintro ⟨names, hne, hfalls, rfl⟩
      exact ⟨names.map .name, by simpa using hne, by rw [hfalls, List.map_append], rfl⟩

/-- What climbs farther than a path does not lie below it, unless the path does nothing but
climb. -/
theorem containment_eq_none_of_climbs_lt (ha : ¬ a.isAbsolute) (hb : ¬ b.isAbsolute)
    (hups : ¬ (a.falls = [] ∧ 0 < a.climbs)) (h : a.climbs < b.climbs) :
    containment a b = none := by
  have hsa := steps_normalize_of_not_isAbsolute ha
  have hsb := steps_normalize_of_not_isAbsolute hb
  have hnilb : course b.climbs b.falls ≠ [] := fun hnil => by
    have hzero := (course_eq_nil_iff.1 hnil).1
    omega
  rw [if_neg hnilb] at hsb
  rw [Option.eq_none_iff_forall_ne_some]
  intro rest hrest
  obtain ⟨tail, -, hsteps, -⟩ := containment_eq_some_iff_steps.1 hrest
  rw [hsb, hsa] at hsteps
  split at hsteps
  · refine here_not_mem_course b.climbs (ordinary_of_mem_falls hb) ?_
    rw [hsteps]
    exact List.mem_cons_self
  · next hnila =>
      have hshared := commonLength_course_of_lt h a.falls b.falls
      have hwhole := commonLength_append_left (course a.climbs a.falls) [] tail
      rw [List.append_nil, ← hsteps, hshared] at hwhole
      simp only [course, List.length_append, List.length_replicate, List.length_map] at hwhole
      have hfalls : a.falls = [] := List.eq_nil_of_length_eq_zero (by omega)
      rw [course_eq_nil_iff] at hnila
      exact hups ⟨hfalls, Nat.pos_of_ne_zero fun hzero => hnila ⟨hzero, hfalls⟩⟩

/-- Below a root, one path lies below the other as without the root exactly if it does not come down
again by all names that it has climbed out of in between and by those of the other. -/
theorem containment_join_eq_iff (hr : r.isAbsolute) (ha : ¬ a.isAbsolute) (hb : ¬ b.isAbsolute)
    (hdot : ¬ (a.normalize = ⟨['.']⟩ ∧ b.climbs = 0 ∧ b.falls ≠ []))
    (hups : ¬ (a.falls = [] ∧ 0 < a.climbs ∧ a.climbs < b.climbs))
    (hle : a.climbs ≤ b.climbs) (hroom : b.climbs ≤ r.place.length) :
    containment (r.join a) (r.join b) = containment a b ↔
      ¬ (between r a b ≠ [] ∧ ∃ n rest, b.falls = between r a b ++ a.falls ++ n :: rest) := by
  rcases Nat.eq_or_lt_of_le hle with heq | hlt
  · refine iff_of_true ?_ fun hcomes => hcomes.1 (between_eq_nil heq)
    ext rest
    rw [containment_join_eq_some_iff hr ha hb hle hroom,
      containment_eq_some_iff_of_climbs_eq ha hb hdot heq, between_eq_nil heq, List.nil_append]
  · have hne : between r a b ≠ [] := by
      rw [ne_eq, ← List.length_eq_zero_iff, length_between hroom]
      omega
    rw [containment_eq_none_of_climbs_lt ha hb (fun h => hups ⟨h.1, h.2, hlt⟩) hlt,
      Option.eq_none_iff_forall_ne_some]
    constructor
    · rintro hnone ⟨-, n, rest, hfalls⟩
      exact hnone _ ((containment_join_eq_some_iff hr ha hb hle hroom).2
        ⟨n :: rest, by simp, hfalls, rfl⟩)
    · intro hnot rest hrest
      obtain ⟨names, hnames, hfalls, -⟩ :=
        (containment_join_eq_some_iff hr ha hb hle hroom).1 hrest
      obtain ⟨n, names, rfl⟩ := List.exists_cons_of_ne_nil hnames
      exact hnot ⟨hne, n, names, hfalls⟩

/-- The algebra of relative paths agrees with that of the same paths below a root that has room for
how far they climb. What one path is seen from the other takes the same steps exactly if it does
not come down again by the first name that it has climbed out of in between; what lies below what
is the same exactly if it does not come down again by all of them and by the names of the other.
Of a single dot and of mere steps to the parent nothing is said where the other path goes on. -/
theorem agree_join_iff (ha : ¬ a.isAbsolute) (hb : ¬ b.isAbsolute) (hr : r.isAbsolute)
    (hle : a.climbs ≤ b.climbs) (hroom : b.climbs ≤ r.place.length) :
    ((a.normalize = ⟨['.']⟩ → b.normalize = ⟨['.']⟩) →
      (((r.join a).relativize (r.join b)).sameSteps (a.relativize b) ↔
        ¬ ∃ n, (between r a b).head? = some n ∧ b.falls.head? = some n)) ∧
    (¬ (a.normalize = ⟨['.']⟩ ∧ b.climbs = 0 ∧ b.falls ≠ []) →
      ¬ (a.falls = [] ∧ 0 < a.climbs ∧ a.climbs < b.climbs) →
      (containment (r.join a) (r.join b) = containment a b ↔
        ¬ (between r a b ≠ [] ∧ ∃ n rest, b.falls = between r a b ++ a.falls ++ n :: rest))) :=
  ⟨fun hdot => relativize_join_sameSteps_iff hr ha hb hdot hle hroom,
    fun hdot hups => containment_join_eq_iff hr ha hb hdot hups hle hroom⟩

/-- Two paths of which one climbs farther and comes down beside the other. -/
theorem agree_join_iff_beside :
    between ⟨"/x/y".toList⟩ ⟨"./z//c".toList⟩ ⟨"../w".toList⟩ = ["y".toList] ∧
      (((Path.mk "/x/y".toList).join ⟨"./z//c".toList⟩).relativize
        ((Path.mk "/x/y".toList).join ⟨"../w".toList⟩)).sameSteps
          ((Path.mk "./z//c".toList).relativize ⟨"../w".toList⟩) ∧
      containment ((Path.mk "/x/y".toList).join ⟨"./z//c".toList⟩)
        ((Path.mk "/x/y".toList).join ⟨"../w".toList⟩) =
          containment ⟨"./z//c".toList⟩ ⟨"../w".toList⟩ := by
  have hbetween : between ⟨"/x/y".toList⟩ ⟨"./z//c".toList⟩ ⟨"../w".toList⟩ = ["y".toList] := by
    decide
  have hfalls : (Path.mk "../w".toList).falls = ["w".toList] := by decide
  obtain ⟨hseen, hbelow⟩ := agree_join_iff (a := ⟨"./z//c".toList⟩) (b := ⟨"../w".toList⟩)
    (r := ⟨"/x/y".toList⟩) (by decide) (by decide) (by decide) (by decide) (by decide)
  refine ⟨hbetween, (hseen (by decide)).2 ?_, (hbelow (by decide) (by decide)).2 ?_⟩
  · rw [hbetween, hfalls]
    simp
  · rw [hbetween, hfalls]
    simp

/-- A path that comes down again by the name it has climbed out of is seen otherwise below a root
with that name. -/
theorem relativize_join_returning :
    ¬ (Path.mk "z".toList).isAbsolute ∧ ¬ (Path.mk "../y/w".toList).isAbsolute ∧
      (Path.mk "/x/y".toList).isAbsolute ∧
      (Path.mk "z".toList).climbs ≤ (Path.mk "../y/w".toList).climbs ∧
      (Path.mk "../y/w".toList).climbs ≤ (Path.mk "/x/y".toList).place.length ∧
      (Path.mk "z".toList).relativize ⟨"../y/w".toList⟩ = ⟨"../../y/w".toList⟩ ∧
      ((Path.mk "/x/y".toList).join ⟨"z".toList⟩).relativize
        ((Path.mk "/x/y".toList).join ⟨"../y/w".toList⟩) = ⟨"../w".toList⟩ ∧
      ¬ (((Path.mk "/x/y".toList).join ⟨"z".toList⟩).relativize
        ((Path.mk "/x/y".toList).join ⟨"../y/w".toList⟩)).sameSteps
          ((Path.mk "z".toList).relativize ⟨"../y/w".toList⟩) := by
  decide

end Quire.Path
