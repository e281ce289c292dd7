import Quire.Proofs.Path.Straight

/-!
Paths that are written with more behind their last name: slashes, and single dots between them.
Another extension takes all of that off.
-/

namespace Quire.Path

variable {p : Path} {a n t u : Text} {idles : List Text}

/-- A text that leads nowhere behind a name. -/
def IsTrail (t : Text) : Prop :=
  ∃ idles : List Text, (∀ f ∈ idles, isIdle f) ∧ t = idles.flatMap ('/' :: ·)

namespace IsTrail

theorem nil : IsTrail [] := ⟨[], by simp, rfl⟩

theorem append_slash (h : IsTrail t) : IsTrail (t ++ ['/']) := by
  obtain ⟨idles, hidles, rfl⟩ := h
  refine ⟨idles ++ [[]], fun f hf => ?_, by simp⟩
  rcases List.mem_append.1 hf with hf | hf
  · exact hidles f hf
  · rw [List.mem_singleton.1 hf]
    rfl

theorem of_isPrefix (h : IsTrail t) (hu : u <+: t) : IsTrail u := by
  obtain ⟨idles, hidles, rfl⟩ := h
  induction idles generalizing u with
  | nil => exact List.prefix_nil.1 hu ▸ nil
  | cons f idles ih =>
      have hlater : ∀ {v : Text}, v <+: idles.flatMap ('/' :: ·) → IsTrail v :=
        fun hv => ih (fun f hf => hidles f (List.mem_cons_of_mem _ hf)) hv
      have hcons : ∀ {v : Text} {f : Text}, isIdle f → IsTrail v → IsTrail ('/' :: f ++ v) := by
        rintro v f hf ⟨rest, hrest, rfl⟩
        exact ⟨f :: rest, List.forall_mem_cons.2 ⟨hf, hrest⟩, rfl⟩
      rw [List.flatMap_cons, List.cons_append] at hu
      cases u with
      | nil => exact nil
      | cons c u =>
          obtain ⟨rfl, hrest⟩ := List.cons_prefix_cons.1 hu
          rcases isIdle_iff.1 (hidles f List.mem_cons_self) with rfl | rfl
          · exact hcons (f := []) rfl (hlater hrest)
          · cases u with
            | nil => exact hcons (f := []) rfl nil
            | cons k u =>
                obtain ⟨rfl, hrest'⟩ := List.cons_prefix_cons.1 hrest
                exact hcons (f := ['.']) rfl (hlater hrest')

/-- The last name of a path is found before what trails it. -/
theorem splitName? (ht : IsTrail t) (h : p.text = a ++ '/' :: (n ++ t)) (hn : '/' ∉ n)
    (hidle : ¬ isIdle n) (hdots : n ≠ ['.', '.']) : p.splitName? = some (a ++ ['/'], n) := by
  obtain ⟨idles, hidles, rfl⟩ := ht
  have hnames : ∀ f ∈ n :: idles, '/' ∉ f := by
    refine List.forall_mem_cons.2 ⟨hn, fun f hf => ?_⟩
    rcases isIdle_iff.1 (hidles f hf) with rfl | rfl <;> decide
  have hfields : p.fields = a.fields '/' ++ n :: idles := by
    have hjoined : n ++ idles.flatMap ('/' :: ·) = ['/'].intercalate (n :: idles) := by
      rw [Text.intercalate_cons]
      rfl
    rw [fields, h, Text.fields_append_sep, hjoined, Text.fields_intercalate (by simp) hnames]
  have hdrop : (idles.reverse ++ n :: (a.fields '/').reverse).dropWhile isIdle =
      n :: (a.fields '/').reverse := by
    rw [List.dropWhile_append_of_pos fun f hf => hidles f (List.mem_reverse.1 hf),
      List.dropWhile_cons_of_neg hidle]
  unfold Path.splitName?
  rw [hfields, List.reverse_append, List.reverse_cons, List.append_assoc, List.singleton_append,
    hdrop]
  simp [hdots, Text.flatMap_fields]

theorem putExtension (ht : IsTrail t) (h : p.text = a ++ '/' :: (n ++ t)) (hn : '/' ∉ n)
    (hidle : ¬ isIdle n) (hdots : n ≠ ['.', '.']) (ext : Text) :
    p.putExtension ext = ⟨a ++ '/' :: ((nameParts n).1 ++ dotted ext)⟩ := by
  rw [Path.putExtension, ht.splitName? h hn hidle hdots]
  by_cases hext : ext = [] <;> simp [dotted, hext]

/-- A name of which the end of the ending is cut off is no step up. -/
theorem ne_dots_of_cut {stem old : Text} {k : Nat} (hk : k ≠ 0) (hstem : stem ≠ [])
    (hn : stem ++ '.' :: old ≠ ['.', '.']) : stem ++ '.' :: old.take k ≠ ['.', '.'] := by
  intro heq
  obtain ⟨c, rest, rfl⟩ := List.exists_cons_of_ne_nil hstem
  obtain ⟨rfl, hrest⟩ := List.cons.inj heq
  obtain ⟨rfl, hold⟩ : rest = [] ∧ old.take k = [] := by
    simpa [List.append_eq_cons_iff] using hrest
  rcases List.take_eq_nil_iff.1 hold with hnil | rfl
  · exact hk hnil
  · exact hn rfl

/-- The last name gets the other extension, and nothing trails it any more. -/
theorem withExtension (ht : IsTrail t) (hne : t ≠ []) (h : p.text = a ++ '/' :: (n ++ t))
    (hn : Ordinary n) (ext : Text) :
    p.withExtension ext = ⟨a ++ '/' :: ((nameParts n).1 ++ dotted ext)⟩ := by
  have hextension : p.extension? = (nameParts n).2 := by
    rw [extension?, fileName?, ht.splitName? h hn.noSlash hn.not_isIdle hn.ne_dots]
    rfl
  rw [Path.withExtension, hextension]
  cases hparts : nameParts n with
  | mk stem ending =>
      cases ending with
      | none =>
          simp only
          rw [ht.putExtension h hn.noSlash hn.not_isIdle hn.ne_dots, hparts]
      | some old =>
          obtain ⟨rfl, hold, hstem⟩ := nameParts_eq_some hparts
          have hcut : p.text.take (p.text.length - old.length) =
              a ++ '/' :: (stem ++ '.' :: old.take t.length ++ t.take (t.length - old.length)) := by
            have hsplit : p.text = (a ++ '/' :: (stem ++ ['.'])) ++ (old ++ t) := by simp [h]
            have hlength : p.text.length - old.length =
                (a ++ '/' :: (stem ++ ['.'])).length + t.length := by
              rw [hsplit]
              simp only [List.length_append]
              omega
            rw [hlength, hsplit, List.take_length_add_append, List.take_append]
            simp
          have hpre : stem ++ '.' :: old.take t.length <+: stem ++ '.' :: old :=
            (List.prefix_append_right_inj stem).2
              (List.cons_prefix_cons.2 ⟨rfl, List.take_prefix _ old⟩)
          have hslash : '/' ∉ stem ++ '.' :: old.take t.length := fun hmem =>
            hn.noSlash (hpre.subset hmem)
          have hidle : ¬ isIdle (stem ++ '.' :: old.take t.length) := by
            rw [isIdle_iff]
            rintro (heq | heq)
            · simp at heq
            · simp [List.append_eq_cons_iff, hstem] at heq
          have hdots := ne_dots_of_cut (mt List.length_eq_zero_iff.1 hne) hstem hn.ne_dots
          simp only [hcut]
          rw [(ht.of_isPrefix (List.take_prefix _ t)).putExtension rfl hslash hidle hdots,
            nameParts_append hstem _ fun hdot => hold (List.mem_of_mem_take hdot)]

end IsTrail

theorem eq_of_ofField?_name {field : Text} (h : Step.ofField? field = some (.name n)) :
    field = n := by
  unfold Step.ofField? at h
  split at h
  · cases h
  · split at h
    · cases h
    · exact Step.name.inj (Option.some.inj h)

/-- An absolute path begins with an empty stretch. -/
theorem exists_fields_of_isAbsolute (hp : p.isAbsolute) : ∃ fs, p.fields = [] :: fs := by
  unfold Path.isAbsolute at hp
  cases htext : p.text with
  | nil =>
      rw [htext] at hp
      cases hp
  | cons c rest =>
      obtain rfl : c = '/' := by simpa [htext] using hp
      obtain ⟨f, fs, _, hcons⟩ := Text.fields_cons '/' '/' rest
      exact ⟨_, by rw [fields, htext, hcons, if_pos rfl]⟩

/-- The last name of a straight path, among the stretches between its slashes. -/
theorem Straight.exists_last (h : Straight p) (hne : p.place ≠ []) :
    ∃ front n idles, p.fields = front ++ n :: idles ∧ front ≠ [] ∧ (∀ f ∈ idles, isIdle f) ∧
      Ordinary n ∧ p.inner = front.filterMap Step.ofField? ++ [.name n] := by
  cases hdrop : p.fields.reverse.dropWhile isIdle with
  | nil =>
      have hidle : p.inner = [] :=
        filterMap_idle fun f hf => List.dropWhile_eq_nil_iff.1 hdrop f (List.mem_reverse.2 hf)
      rw [h.inner] at hidle
      exact absurd (List.map_eq_nil_iff.1 hidle) hne
  | cons last front =>
      obtain ⟨idles, s, hfields, hidles, hs, hinner⟩ := exists_fields hdrop
      have hmem : s ∈ p.place.map Step.name := by
        rw [← h.inner, hinner]
        simp
      obtain ⟨n, hn, rfl⟩ := List.mem_map.1 hmem
      have hordinary := ordinary_of_mem_place h.isAbsolute n hn
      obtain rfl := eq_of_ofField?_name hs
      refine ⟨front.reverse, last, idles, hfields, fun hnil => ?_, hidles, hordinary, hinner⟩
      obtain ⟨fs, hfs⟩ := exists_fields_of_isAbsolute h.isAbsolute
      rw [hnil, List.nil_append, hfs] at hfields
      exact hordinary.ne_nil (List.cons.inj hfields).1.symm

/-- What an absolute path begins with is absolute. -/
theorem isAbsolute_of_front {rest : Text} (hp : p.isAbsolute) (h : p.text = a ++ '/' :: rest) :
    (Path.mk (a ++ ['/'])).isAbsolute := by
  unfold Path.isAbsolute at hp ⊢
  rw [h] at hp
  cases a with
  | nil => rfl
  | cons c rest => simpa using hp

/-- A straight path that is not the root is written as a path above, a last name and a trail. -/
theorem Straight.exists_trail (h : Straight p) (hne : p.place ≠ []) :
    ∃ a n t, p.text = a ++ '/' :: (n ++ t) ∧ IsTrail t ∧ Ordinary n ∧ Straight ⟨a ++ ['/']⟩ ∧
      (Path.mk (a ++ ['/'])).place = p.place.dropLast ∧
      p.steps = (Path.mk (a ++ ['/'])).steps ++ [.name n] := by
  obtain ⟨front, n, idles, hfields, hfront, hidles, hn, hinner⟩ := h.exists_last hne
  have hnoSlash : ∀ f ∈ front, '/' ∉ f := fun f hf =>
    noSlash_of_mem_fields (p := p) (hfields ▸ List.mem_append_left _ hf)
  have htext : p.text = ['/'].intercalate front ++ '/' :: (n ++ idles.flatMap ('/' :: ·)) := by
    have hjoin := Text.intercalate_fields '/' p.text
    have hfields' : p.text.fields '/' = front ++ n :: idles := hfields
    rw [hfields', Text.intercalate_append hfront] at hjoin
    rw [← hjoin]
    simp
  have habs := isAbsolute_of_front h.isAbsolute htext
  have habove : (Path.mk (['/'].intercalate front ++ ['/'])).inner =
      front.filterMap Step.ofField? := by
    rw [inner_append_slash_end, Path.inner, fields, Text.fields_intercalate hfront hnoSlash]
  rw [← habove] at hinner
  obtain ⟨hstraight, hplace⟩ := h.of_inner habs hinner
  refine ⟨_, n, _, htext, ⟨idles, hidles, rfl⟩, hn, hstraight, hplace, ?_⟩
  rw [steps_of_isAbsolute h.isAbsolute, steps_of_isAbsolute habs, hinner, List.cons_append]

/-- The stem of a name begins the name, and is written without slashes. -/
theorem stem_isPrefix (hn : Ordinary n) :
    (nameParts n).1 <+: n ∧ (nameParts n).1 ≠ [] ∧ '/' ∉ (nameParts n).1 := by
  cases hparts : nameParts n with
  | mk stem ending =>
      cases ending with
      | none =>
          obtain rfl := nameParts_eq_none hparts
          exact ⟨List.prefix_refl _, hn.ne_nil, hn.noSlash⟩
      | some old =>
          obtain ⟨rfl, _, hne⟩ := nameParts_eq_some hparts
          exact ⟨List.prefix_append _ _, hne, fun hmem => hn.noSlash (List.mem_append_left _ hmem)⟩

theorem ordinary_stem {ext : Text} (hn : Ordinary n) (hslash : '/' ∉ ext) (hext : ext ≠ []) :
    Ordinary ((nameParts n).1 ++ '.' :: ext) := by
  obtain ⟨_, hstem, hstem'⟩ := stem_isPrefix hn
  refine ⟨by simp, ?_, ?_, ?_⟩
  · simp [hstem', hslash]
  · simp [List.append_eq_cons_iff, hstem]
  · intro hdots
    have hlength := congrArg List.length hdots
    have hstem := List.length_pos_iff.2 hstem
    have hext := List.length_pos_iff.2 hext
    simp only [List.length_append, List.length_cons, List.length_nil] at hlength
    omega

/-- A path that is continued by nothing gets another extension behind the stem of its last name. -/
theorem Straight.exists_withExtension (h : Straight p) (hne : p.place ≠ []) (ext : Text) :
    ∃ above k t, p.text = above.text ++ k ++ t ∧ Ordinary k ∧ Straight above ∧
      above.place = p.place.dropLast ∧ p.steps = above.steps ++ [.name k] ∧
      (∀ m, above.child m = if (Path.mk m).isAbsolute then ⟨m⟩ else ⟨above.text ++ m⟩) ∧
      (p.join ⟨[]⟩).withExtension ext = ⟨above.text ++ ((nameParts k).1 ++ dotted ext)⟩ := by
  obtain ⟨a, k, t, htext, ht, hk, habove, hplace, hsteps⟩ := h.exists_trail hne
  obtain ⟨t', ht', hne', hjoin⟩ : ∃ t', IsTrail t' ∧ t' ≠ [] ∧
      (p.join ⟨[]⟩).text = a ++ '/' :: (k ++ t') := by
    rw [text_join (by decide)]
    by_cases hend : p.text = [] ∨ p.text.getLast? = some '/'
    · refine ⟨t, ht, ?_, by rw [if_pos hend, List.append_nil, htext]⟩
      rintro rfl
      rw [htext, List.append_nil] at hend
      rcases hend with hnil | hlast
      · simp at hnil
      · refine hk.noSlash (List.mem_of_getLast? (l := k) ?_)
        rw [← hlast, List.append_cons, List.getLast?_append_of_ne_nil _ hk.ne_nil]
    · refine ⟨t ++ ['/'], ht.append_slash, by simp, ?_⟩
      rw [if_neg hend, htext]
      simp
  refine ⟨⟨a ++ ['/']⟩, k, t, by simp [htext], hk, habove, hplace, hsteps, fun m => ?_, ?_⟩
  · rw [Path.child, join, if_pos (Or.inr (by simp : (a ++ ['/']).getLast? = some '/'))]
  · rw [ht'.withExtension hne' hjoin hk]
    simp

/-- A path that is continued by nothing gets another extension beside where it leads. -/
theorem Straight.withExtension_join_nil {ext : Text} (h : Straight p) (hne : p.place ≠ [])
    (hslash : '/' ∉ ext) (hext : ext ≠ []) :
    ∃ above n k, (p.join ⟨[]⟩).withExtension ext = above.child n ∧ Ordinary n ∧ Straight above ∧
      above.place = p.place.dropLast ∧ above.text <+: p.text ∧
      p.steps = above.steps ++ [.name k] := by
  obtain ⟨above, k, t, htext, hk, habove, hplace, hsteps, hchild, hjoin⟩ :=
    h.exists_withExtension hne ext
  have hn := ordinary_stem hk hslash hext
  refine ⟨above, _, k, ?_, hn, habove, hplace, ⟨k ++ t, by simp [htext]⟩, hsteps⟩
  rw [hjoin, hchild, if_neg hn.not_isAbsolute, dotted, if_neg hext]

end Quire.Path
