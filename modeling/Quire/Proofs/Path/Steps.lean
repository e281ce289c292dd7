import Mathlib.Data.List.Infix
import Quire.Path.Algebra

/-!
The steps of paths that are put together. An absolute path takes the step to the root and then its
inner steps; joining paths, and going down names, puts inner steps one after the other.
-/

namespace Quire

namespace Text

theorem fields_ne_nil (sep : Char) (t : Text) : fields sep t ≠ [] := by
  cases t with
  | nil => simp [fields]
  | cons c rest =>
      simp only [fields]
      split
      · simp
      · split <;> simp

theorem fields_cons (sep c : Char) (t : Text) :
    ∃ f fs, fields sep t = f :: fs ∧
      fields sep (c :: t) = if c = sep then [] :: f :: fs else (c :: f) :: fs := by
  obtain ⟨f, fs, hfields⟩ := List.exists_cons_of_ne_nil (fields_ne_nil sep t)
  exact ⟨f, fs, hfields, by simp only [fields, hfields]⟩

theorem fields_append_sep (sep : Char) (a b : Text) :
    fields sep (a ++ sep :: b) = fields sep a ++ fields sep b := by
  induction a with
  | nil =>
      obtain ⟨f, fs, hb, hcons⟩ := fields_cons sep sep b
      simp [hcons, hb, fields]
  | cons c a ih =>
      obtain ⟨f, fs, ha, hcons⟩ := fields_cons sep c a
      obtain ⟨g, gs, hab, habCons⟩ := fields_cons sep c (a ++ sep :: b)
      rw [ih, ha, List.cons_append, List.cons.injEq] at hab
      obtain ⟨rfl, rfl⟩ := hab
      rw [List.cons_append, habCons, hcons]
      split <;> rfl

theorem fields_of_not_mem {sep : Char} {t : Text} (h : sep ∉ t) : fields sep t = [t] := by
  induction t with
  | nil => rfl
  | cons c t ih =>
      simp only [List.mem_cons, not_or] at h
      simp [fields, ih h.2, Ne.symm h.1]

theorem not_mem_of_mem_fields {sep : Char} {t f : Text} (hf : f ∈ fields sep t) : sep ∉ f := by
  induction t generalizing f with
  | nil =>
      simp only [fields, List.mem_singleton] at hf
      simp [hf]
  | cons c t ih =>
      obtain ⟨g, gs, hfields, hcons⟩ := fields_cons sep c t
      rw [hfields] at ih
      rw [hcons] at hf
      split at hf
      · rcases List.mem_cons.1 hf with rfl | hf
        · simp
        · exact ih hf
      · next hne =>
          rcases List.mem_cons.1 hf with rfl | hf
          · simpa [Ne.symm hne] using ih List.mem_cons_self
          · exact ih (List.mem_cons_of_mem g hf)

/-- What is in a text is in one of its fields, but for what separates them. -/
theorem mem_iff_exists_field {sep c : Char} (hc : c ≠ sep) (t : Text) :
    c ∈ t ↔ ∃ f ∈ fields sep t, c ∈ f := by
  induction t with
  | nil => simp [fields]
  | cons k t ih =>
      obtain ⟨f, fs, hfields, hcons⟩ := fields_cons sep k t
      rw [hfields] at ih
      rw [List.mem_cons, ih, hcons]
      by_cases hk : k = sep
      · simp [hk, hc]
      · simp [hk, or_assoc]

end Text

namespace Path

/-- A text that leads down one name when it stands between slashes. -/
structure Ordinary (n : Text) : Prop where
  ne_nil : n ≠ []
  noSlash : '/' ∉ n
  ne_dot : n ≠ ['.']
  ne_dots : n ≠ ['.', '.']

instance (n : Text) : Decidable (Ordinary n) :=
  decidable_of_iff (n ≠ [] ∧ '/' ∉ n ∧ n ≠ ['.'] ∧ n ≠ ['.', '.'])
    ⟨fun h => ⟨h.1, h.2.1, h.2.2.1, h.2.2.2⟩,
      fun h => ⟨h.ne_nil, h.noSlash, h.ne_dot, h.ne_dots⟩⟩

/-- The steps that a path takes between its slashes. -/
def inner (p : Path) : List Step := p.fields.filterMap Step.ofField?

theorem steps_of_isAbsolute {p : Path} (h : p.isAbsolute) : p.steps = .root :: p.inner := by
  simp [steps, h, inner]

/-- A path takes its inner steps, perhaps behind a step that tells where it starts. -/
theorem exists_lead (p : Path) : ∃ lead, p.steps = lead ++ p.inner := by
  unfold steps
  split
  · exact ⟨[.root], rfl⟩
  · split
    · exact ⟨[.here], rfl⟩
    · exact ⟨[], rfl⟩

theorem Ordinary.ofField? {n : Text} (h : Ordinary n) : Step.ofField? n = some (.name n) := by
  simp [Step.ofField?, h.ne_nil, h.ne_dot, h.ne_dots]

theorem Ordinary.inner {n : Text} (h : Ordinary n) : (Path.mk n).inner = [.name n] := by
  simp [Path.inner, fields, Text.fields_of_not_mem h.noSlash, h.ofField?]

theorem Ordinary.not_isAbsolute {n : Text} (h : Ordinary n) : ¬ (Path.mk n).isAbsolute := by
  intro habs
  have hhead : n.head? = some '/' := by simpa [isAbsolute] using habs
  exact h.noSlash (List.mem_of_mem_head? hhead)

theorem eq_up_or_ordinary_of_mem_inner {p : Path} {s : Step} (hs : s ∈ p.inner) :
    s = .up ∨ ∃ n, Ordinary n ∧ s = .name n := by
  obtain ⟨f, hf, hstep⟩ := List.mem_filterMap.1 hs
  have hslash := Text.not_mem_of_mem_fields hf
  unfold Step.ofField? at hstep
  split at hstep
  · cases hstep
  · next hidle =>
      split at hstep
      · exact Or.inl (Option.some.inj hstep).symm
      · next hdots =>
          simp only [not_or] at hidle
          exact Or.inr ⟨f, ⟨hidle.1, hslash, hidle.2, hdots⟩, (Option.some.inj hstep).symm⟩

/-- What is written in a path is in one of its names, but for what leads to none. -/
theorem mem_text_iff {p : Path} {c : Char} (hslash : c ≠ '/') (hdot : c ≠ '.') :
    c ∈ p.text ↔ ∃ n, .name n ∈ p.inner ∧ c ∈ n := by
  rw [Text.mem_iff_exists_field hslash]
  constructor
  · rintro ⟨f, hf, hc⟩
    have hnil : f ≠ [] := List.ne_nil_of_mem hc
    have hdots : f ≠ ['.', '.'] := fun h => by simp [h, hdot] at hc
    have hone : f ≠ ['.'] := fun h => by simp [h, hdot] at hc
    refine ⟨f, List.mem_filterMap.2 ⟨f, hf, ?_⟩, hc⟩
    simp [Step.ofField?, hnil, hone, hdots]
  · rintro ⟨n, hn, hc⟩
    obtain ⟨f, hf, hstep⟩ := List.mem_filterMap.1 hn
    refine ⟨f, hf, ?_⟩
    unfold Step.ofField? at hstep
    split at hstep
    · cases hstep
    · split at hstep
      · cases hstep
      · rwa [Step.name.inj (Option.some.inj hstep)]

theorem inner_append_slash (a b : Text) :
    (Path.mk (a ++ '/' :: b)).inner = (Path.mk a).inner ++ (Path.mk b).inner := by
  simp [inner, fields, Text.fields_append_sep]

theorem inner_append_slash_end (a : Text) : (Path.mk (a ++ ['/'])).inner = (Path.mk a).inner := by
  rw [inner_append_slash]
  simp [inner, fields, Text.fields, Step.ofField?]

theorem text_join {p q : Path} (hq : ¬ q.isAbsolute) :
    (p.join q).text =
      p.text ++ if p.text = [] ∨ p.text.getLast? = some '/' then q.text else '/' :: q.text := by
  rw [join, if_neg hq]
  split <;> simp [*]

/-- Joining a relative path puts its inner steps behind those of the first. -/
theorem inner_join {p q : Path} (hq : ¬ q.isAbsolute) : (p.join q).inner = p.inner ++ q.inner := by
  have htext := text_join (p := p) hq
  have hjoin : p.join q = ⟨(p.join q).text⟩ := rfl
  rw [hjoin, htext]
  split
  · next hend =>
      rcases hend with hnil | hslash
      · have hp : p = ⟨[]⟩ := by rw [← hnil]
        subst hp
        rfl
      · obtain ⟨a, ha⟩ := List.getLast?_eq_some_iff.1 hslash
        have hp : p = ⟨a ++ ['/']⟩ := by rw [← ha]
        subst hp
        rw [inner_append_slash_end, List.append_assoc, List.singleton_append, inner_append_slash]
  · exact inner_append_slash p.text q.text

theorem isAbsolute_join {p : Path} (hp : p.isAbsolute) (q : Path) : (p.join q).isAbsolute := by
  by_cases hq : q.isAbsolute
  · simp [join, hq]
  · have hhead : p.text.head? = some '/' := by simpa [isAbsolute] using hp
    simp [isAbsolute, text_join hq, List.head?_append, hhead]

theorem not_isAbsolute_join {p q : Path} (hp : p.text ≠ []) (hp' : ¬ p.isAbsolute)
    (hq : ¬ q.isAbsolute) : ¬ (p.join q).isAbsolute := by
  obtain ⟨c, t, ht⟩ := List.exists_cons_of_ne_nil hp
  simpa [isAbsolute, text_join hq, ht] using hp'

variable {p : Path} {n : Text} {names : List Text}

theorem inner_child (hn : Ordinary n) : (p.child n).inner = p.inner ++ [.name n] := by
  rw [child, inner_join hn.not_isAbsolute, hn.inner]

theorem isAbsolute_child (hp : p.isAbsolute) (n : Text) : (p.child n).isAbsolute :=
  isAbsolute_join hp ⟨n⟩

/-- Going down ordinary names adds a step for each. -/
theorem inner_foldl_child (hnames : ∀ n ∈ names, Ordinary n) :
    (names.foldl child p).inner = p.inner ++ names.map .name := by
  induction names generalizing p with
  | nil => simp
  | cons n names ih =>
      simp only [List.foldl_cons, List.map_cons]
      rw [ih fun m hm => hnames m (List.mem_cons_of_mem n hm),
        inner_child (hnames n List.mem_cons_self), List.append_assoc, List.singleton_append]

theorem isAbsolute_foldl_child (hp : p.isAbsolute) (names : List Text) :
    (names.foldl child p).isAbsolute := by
  induction names generalizing p with
  | nil => exact hp
  | cons n names ih => exact ih (isAbsolute_child hp n)

theorem ofSteps_map_name (names : List Text) :
    ofSteps (names.map .name) = names.foldl child ⟨[]⟩ := by
  simp only [ofSteps, List.foldl_map]
  rfl

theorem ofNames_eq (names : List Text) : ofNames names = names.foldl child ⟨['/']⟩ := by
  simp only [ofNames, ofSteps, List.foldl_cons, List.foldl_map]
  rfl

theorem not_isAbsolute_foldl_child (hp : p.text ≠ []) (hp' : ¬ p.isAbsolute)
    (hnames : ∀ n ∈ names, Ordinary n) : ¬ (names.foldl child p).isAbsolute := by
  induction names generalizing p with
  | nil => exact hp'
  | cons n names ih =>
      have hn := (hnames n List.mem_cons_self).not_isAbsolute
      refine ih ?_ (not_isAbsolute_join hp hp' hn) fun m hm => hnames m (List.mem_cons_of_mem n hm)
      simp [child, text_join hn, hp]

theorem not_isAbsolute_ofSteps (hnames : ∀ n ∈ names, Ordinary n) :
    ¬ (ofSteps (names.map .name)).isAbsolute := by
  rw [ofSteps_map_name]
  cases names with
  | nil => decide
  | cons n names =>
      have hn := hnames n List.mem_cons_self
      have hfirst : (Path.mk []).child n = ⟨n⟩ := by simp [child, join, hn.not_isAbsolute]
      rw [List.foldl_cons, hfirst]
      exact not_isAbsolute_foldl_child hn.ne_nil hn.not_isAbsolute fun m hm =>
        hnames m (List.mem_cons_of_mem n hm)

theorem isAbsolute_ofNames (names : List Text) : (ofNames names).isAbsolute := by
  rw [ofNames_eq]
  exact isAbsolute_foldl_child rfl names

theorem inner_ofNames (hnames : ∀ n ∈ names, Ordinary n) :
    (ofNames names).inner = names.map .name := by
  rw [ofNames_eq, inner_foldl_child hnames]
  rfl

theorem steps_ofNames (hnames : ∀ n ∈ names, Ordinary n) :
    (ofNames names).steps = .root :: names.map .name := by
  rw [steps_of_isAbsolute (isAbsolute_ofNames names), inner_ofNames hnames]

end Path

end Quire
