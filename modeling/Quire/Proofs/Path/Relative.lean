import Quire.Proofs.Path.Naming
import Quire.Proofs.Text.Encoding

/-!
One path seen from another. The way goes up out of what the places do not share and down from
there, and two paths that are seen alike from one directory are at one place.
-/

namespace Quire.Path

variable {α : Type} {base p q : Path} {steps : List Step}

/-- The steps of a way: up, or down an ordinary name. -/
def Step.IsWay (s : Step) : Prop := s = .up ∨ ∃ n, Ordinary n ∧ s = .name n

namespace Step.IsWay

variable {s : Step}

theorem noSlash (h : s.IsWay) : '/' ∉ s.text := by
  rcases h with rfl | ⟨n, hn, rfl⟩
  · decide
  · exact hn.noSlash

theorem text_ne_nil (h : s.IsWay) : s.text ≠ [] := by
  rcases h with rfl | ⟨n, hn, rfl⟩
  · decide
  · exact hn.ne_nil

theorem text_ne_dot (h : s.IsWay) : s.text ≠ ['.'] := by
  rcases h with rfl | ⟨n, hn, rfl⟩
  · decide
  · exact hn.ne_dot

theorem ofField? (h : s.IsWay) : Step.ofField? s.text = some s := by
  rcases h with rfl | ⟨n, hn, rfl⟩
  · rfl
  · exact hn.ofField?

end Step.IsWay

theorem filterMap_ofField? (h : ∀ s ∈ steps, s.IsWay) :
    (steps.map Step.text).filterMap Step.ofField? = steps := by
  rw [List.filterMap_map]
  exact (List.filterMap_congr fun s hs => (h s hs).ofField?).trans List.filterMap_some

/-- The text of a path that takes the given steps. -/
theorem text_ofSteps (h : ∀ s ∈ steps, s.IsWay) :
    (ofSteps steps).text = ['/'].intercalate (steps.map Step.text) := by
  induction steps using List.reverseRecOn with
  | nil => rfl
  | append_singleton steps s ih =>
      have hs : s.IsWay := h s (by simp)
      have hsteps : ∀ t ∈ steps, t.IsWay := fun t ht => h t (List.mem_append_left [s] ht)
      have hrel : ¬ (Path.mk s.text).isAbsolute := by
        intro habs
        exact hs.noSlash (List.mem_of_mem_head? (by simpa [isAbsolute] using habs))
      have hstep : ofSteps (steps ++ [s]) = (ofSteps steps).join ⟨s.text⟩ := by
        simp [ofSteps, child]
      rw [hstep, text_join hrel, ih hsteps]
      rcases List.eq_nil_or_concat' steps with rfl | ⟨front, last, rfl⟩
      · simp
      · have hlast : last.IsWay := h last (by simp)
        obtain ⟨a, c, hac⟩ := (List.eq_nil_or_concat' last.text).resolve_left hlast.text_ne_nil
        have hc : c ≠ '/' := by
          rintro rfl
          exact hlast.noSlash (by simp [hac])
        have hend : ∃ b, ['/'].intercalate ((front ++ [last]).map Step.text) = b ++ [c] := by
          rcases List.eq_nil_or_concat' front with rfl | ⟨front, t, rfl⟩
          · exact ⟨a, by simpa using hac⟩
          · rw [List.map_append, Text.intercalate_append (by simp)]
            exact ⟨['/'].intercalate ((front ++ [t]).map Step.text) ++ '/' :: a, by simp [hac]⟩
        obtain ⟨b, hb⟩ := hend
        have hplain : ¬ (['/'].intercalate ((front ++ [last]).map Step.text) = [] ∨
            (['/'].intercalate ((front ++ [last]).map Step.text)).getLast? = some '/') := by
          rw [hb]
          simp [hc]
        have happend : (front ++ [last] ++ [s]).map Step.text =
            (front ++ [last]).map Step.text ++ [s.text] := List.map_append
        rw [if_neg hplain, happend, Text.intercalate_append (by simp)]
        simp

theorem fields_ofSteps (hne : steps ≠ []) (h : ∀ s ∈ steps, s.IsWay) :
    (ofSteps steps).fields = steps.map Step.text := by
  rw [fields, text_ofSteps h]
  apply Text.fields_intercalate (by simpa using hne)
  intro f hf
  obtain ⟨s, hs, rfl⟩ := List.mem_map.1 hf
  exact (h s hs).noSlash

/-- A path that is put together from a way takes the steps of the way. -/
theorem steps_ofSteps (h : ∀ s ∈ steps, s.IsWay) : (ofSteps steps).steps = steps := by
  cases steps with
  | nil => rfl
  | cons s rest =>
      have hs : s.IsWay := h s List.mem_cons_self
      have hfields := fields_ofSteps (List.cons_ne_nil s rest) h
      have hrel : ¬ (ofSteps (s :: rest)).isAbsolute := by
        intro habs
        have hhead : (ofSteps (s :: rest)).text.head? = some '/' := by simpa [isAbsolute] using habs
        obtain ⟨c, t, hct⟩ := List.exists_cons_of_ne_nil hs.text_ne_nil
        rw [text_ofSteps h, List.map_cons, Text.intercalate_cons, hct] at hhead
        obtain rfl : c = '/' := Option.some.inj hhead
        exact hs.noSlash (by simp [hct])
      have hdot : ((s :: rest).map Step.text).head? ≠ some ['.'] := by
        simpa using hs.text_ne_dot
      simp only [Path.steps, hfields, if_neg hdot, filterMap_ofField? h]
      rw [if_neg hrel]

/-- The way from one place to another. -/
def way (a b : List Text) : List Step :=
  List.replicate (a.length - commonLength a b) .up ++ (b.drop (commonLength a b)).map .name

theorem isWay_of_mem_way {a b : List Text} (hb : ∀ n ∈ b, Ordinary n) :
    ∀ s ∈ way a b, s.IsWay := by
  intro s hs
  rcases List.mem_append.1 hs with hs | hs
  · exact Or.inl (List.eq_of_mem_replicate hs)
  · obtain ⟨n, hn, rfl⟩ := List.mem_map.1 hs
    exact Or.inr ⟨n, hb n (List.mem_of_mem_drop hn), rfl⟩

theorem take_commonLength [DecidableEq α] (a b : List α) :
    a.take (commonLength a b) = b.take (commonLength a b) := by
  induction a generalizing b with
  | nil => cases b <;> simp [commonLength]
  | cons x a ih =>
      cases b with
      | nil => simp [commonLength]
      | cons y b =>
          by_cases hxy : x = y
          · simp [commonLength, hxy, ih b]
          · simp [commonLength, hxy]

theorem commonLength_le_left [DecidableEq α] (a b : List α) : commonLength a b ≤ a.length := by
  induction a generalizing b with
  | nil => cases b <;> simp [commonLength]
  | cons x a ih =>
      cases b with
      | nil => simp [commonLength]
      | cons y b =>
          by_cases hxy : x = y
          · simp [commonLength, hxy, ih b]
          · simp [commonLength, hxy]

theorem commonLength_map_name (a b : List Text) :
    commonLength (a.map Step.name) (b.map Step.name) = commonLength a b := by
  induction a generalizing b with
  | nil => cases b <;> rfl
  | cons x a ih =>
      cases b with
      | nil => rfl
      | cons y b => simp [commonLength, ih b]

theorem way_append (a b : List Text) : way a (a ++ b) = b.map .name := by
  have hlength : commonLength a (a ++ b) = a.length := by
    induction a with
    | nil => cases b <;> rfl
    | cons x a ih => simp [commonLength, ih]
  rw [way, hlength]
  simp

/-- A way leads to one place only. -/
theorem way_inj {a b c : List Text} (h : way a b = way a c) : b = c := by
  have hsplit : ∀ (k k' : Nat) (m m' : List Text),
      List.replicate k Step.up ++ m.map .name = List.replicate k' Step.up ++ m'.map .name →
        k = k' ∧ m = m' := by
    intro k
    induction k with
    | zero =>
        intro k' m m' hm
        cases k' with
        | zero => exact ⟨rfl, map_name_inj (by simpa using hm)⟩
        | succ k' => cases m <;> simp [List.replicate_succ] at hm
    | succ k ih =>
        intro k' m m' hm
        cases k' with
        | zero => cases m' <;> simp [List.replicate_succ] at hm
        | succ k' =>
            obtain ⟨hk, hm⟩ := ih k' m m' (by simpa [List.replicate_succ] using hm)
            exact ⟨by rw [hk], hm⟩
  obtain ⟨hup, hdown⟩ := hsplit _ _ _ _ h
  have hb := commonLength_le_left a b
  have hc := commonLength_le_left a c
  have hshared : commonLength a b = commonLength a c := by omega
  rw [← List.take_append_drop (commonLength a b) b, ← List.take_append_drop (commonLength a c) c,
    ← take_commonLength a b, ← take_commonLength a c, hshared, ← hdown, hshared]

theorem text_ofSteps_ne_nil (hne : steps ≠ []) (h : ∀ s ∈ steps, s.IsWay) :
    (ofSteps steps).text ≠ [] := by
  intro hempty
  have hfields := fields_ofSteps hne h
  rw [fields, hempty] at hfields
  obtain ⟨s, hs⟩ := List.exists_mem_of_ne_nil _ hne
  apply (h s hs).text_ne_nil
  have hmem : s.text ∈ Text.fields '/' [] := hfields ▸ List.mem_map_of_mem hs
  simpa [Text.fields] using hmem

/-- Seen from another path, an absolute one is the way to it, or a single dot. -/
theorem relativize_of_isAbsolute (hbase : base.isAbsolute) (hp : p.isAbsolute) :
    base.relativize p = if way base.place p.place = [] then ⟨['.']⟩
      else ofSteps (way base.place p.place) := by
  have hway := isWay_of_mem_way (a := base.place) (ordinary_of_mem_place hp)
  have hrelativize : base.relativize p =
      if (ofSteps (way base.place p.place)).text = [] then ⟨['.']⟩
      else ofSteps (way base.place p.place) := by
    rw [relativize, steps_normalize hbase, steps_normalize hp]
    simp [commonLength, commonLength_map_name, way, List.map_drop]
  rw [hrelativize]
  by_cases hnil : way base.place p.place = []
  · rw [hnil]
    rfl
  · rw [if_neg (text_ofSteps_ne_nil hnil hway), if_neg hnil]

/-- What is seen from where depends on the two places. -/
theorem relativize_congr {base' : Path} (hbase : base.isAbsolute) (hbase' : base'.isAbsolute)
    (hp : p.isAbsolute) (hq : q.isAbsolute) (hplace : base'.place = base.place)
    (hplace' : q.place = p.place) : base'.relativize q = base.relativize p := by
  rw [relativize_of_isAbsolute hbase hp, relativize_of_isAbsolute hbase' hq, hplace, hplace']

theorem steps_relativize (hbase : base.isAbsolute) (hp : p.isAbsolute) :
    (base.relativize p).steps = if way base.place p.place = [] then [.here] else
      way base.place p.place := by
  rw [relativize_of_isAbsolute hbase hp]
  split
  · rfl
  · exact steps_ofSteps (isWay_of_mem_way (ordinary_of_mem_place hp))

theorem slashed_eq (p : Path) : p.slashed = ['/'].intercalate (p.steps.map Step.text) := by
  simp [slashed]

theorem fields_slashed (hne : p.steps ≠ []) (h : ∀ s ∈ p.steps, '/' ∉ s.text) :
    Text.fields '/' p.slashed = p.steps.map Step.text := by
  rw [slashed_eq]
  apply Text.fields_intercalate (by simpa using hne)
  intro f hf
  obtain ⟨s, hs, rfl⟩ := List.mem_map.1 hf
  exact h s hs

/-- Paths that are seen alike from one directory are at one place. -/
theorem slashed_relativize_inj (hbase : base.isAbsolute) (hp : p.isAbsolute) (hq : q.isAbsolute) :
    (base.relativize p).slashed = (base.relativize q).slashed ↔ p.place = q.place := by
  have htexts : ∀ {r : Path}, r.isAbsolute → Text.fields '/' (base.relativize r).slashed =
      if way base.place r.place = [] then [['.']] else (way base.place r.place).map Step.text := by
    intro r hr
    have hway := isWay_of_mem_way (a := base.place) (ordinary_of_mem_place hr)
    have hsteps := steps_relativize hbase hr
    by_cases hnil : way base.place r.place = []
    · rw [if_pos hnil] at hsteps ⊢
      rw [fields_slashed (by simp [hsteps]) (by simp [hsteps, Step.text]), hsteps]
      rfl
    · rw [if_neg hnil] at hsteps ⊢
      rw [fields_slashed (by simpa [hsteps] using hnil)
        (fun s hs => (hway s (hsteps ▸ hs)).noSlash), hsteps]
  constructor
  · intro h
    have hwayp := isWay_of_mem_way (a := base.place) (ordinary_of_mem_place hp)
    have hwayq := isWay_of_mem_way (a := base.place) (ordinary_of_mem_place hq)
    have hfields := htexts hp
    rw [h, htexts hq] at hfields
    have hdot : ∀ {w : List Step}, (∀ s ∈ w, s.IsWay) → w.map Step.text ≠ [['.']] := by
      intro w hw heq
      have hmem : ['.'] ∈ w.map Step.text := by simp [heq]
      obtain ⟨s, hs, hs'⟩ := List.mem_map.1 hmem
      exact (hw s hs).text_ne_dot hs'
    apply way_inj (a := base.place)
    by_cases hnilp : way base.place p.place = []
    · by_cases hnilq : way base.place q.place = []
      · rw [hnilp, hnilq]
      · rw [if_pos hnilp, if_neg hnilq] at hfields
        exact absurd hfields (hdot hwayq)
    · by_cases hnilq : way base.place q.place = []
      · rw [if_neg hnilp, if_pos hnilq] at hfields
        exact absurd hfields.symm (hdot hwayp)
      · rw [if_neg hnilp, if_neg hnilq] at hfields
        rw [← filterMap_ofField? hwayp, ← hfields, filterMap_ofField? hwayq]
  · intro h
    unfold relativize
    rw [normalize_of_isAbsolute hp, normalize_of_isAbsolute hq, h]

end Quire.Path
