import Mathlib.Data.List.TakeWhile
import Quire.Path.Extension
import Quire.Proofs.Path.Place

/-!
Paths that end in a name: the path above the name, and the name with another extension. Taking an
extension off a name whose stem is a single dot leaves the step to the parent.
-/

namespace Quire

namespace Text

theorem intercalate_cons (sep t : Text) (ts : List Text) :
    sep.intercalate (t :: ts) = t ++ ts.flatMap (sep ++ ·) := by
  induction ts generalizing t with
  | nil => simp
  | cons u ts ih => rw [List.intercalate_cons_cons, ih, List.flatMap_cons]; simp

theorem intercalate_append {sep : Text} {a : List Text} (ha : a ≠ []) (b : List Text) :
    sep.intercalate (a ++ b) = sep.intercalate a ++ b.flatMap (sep ++ ·) := by
  obtain ⟨t, ts, rfl⟩ := List.exists_cons_of_ne_nil ha
  rw [List.cons_append, intercalate_cons, intercalate_cons, List.flatMap_append, List.append_assoc]

theorem intercalate_concat_append (sep : Text) (a : List Text) (t u : Text) :
    sep.intercalate (a ++ [t]) ++ u = sep.intercalate (a ++ [t ++ u]) := by
  by_cases ha : a = []
  · subst ha
    simp
  · rw [intercalate_append ha, intercalate_append ha]
    simp

/-- The stretches between separators, put together again. -/
theorem intercalate_fields (sep : Char) (t : Text) : [sep].intercalate (fields sep t) = t := by
  induction t with
  | nil => rfl
  | cons c t ih =>
      obtain ⟨f, fs, hfields, hcons⟩ := fields_cons sep c t
      rw [hfields] at ih
      rw [hcons]
      split
      · next heq => simp [List.intercalate_cons_cons, ih, heq]
      · rw [List.intercalate_cons_cons_left, ih]

theorem fields_intercalate {sep : Char} {fs : List Text} (hne : fs ≠ [])
    (hfs : ∀ f ∈ fs, sep ∉ f) : fields sep ([sep].intercalate fs) = fs := by
  induction fs with
  | nil => exact absurd rfl hne
  | cons f fs ih =>
      have hf := fields_of_not_mem (hfs f List.mem_cons_self)
      cases fs with
      | nil => simpa using hf
      | cons g fs =>
          have htail := ih (by simp) fun x hx => hfs x (List.mem_cons_of_mem f hx)
          rw [List.intercalate_cons_cons, List.append_assoc, List.singleton_append,
            fields_append_sep, hf, htail]
          rfl

theorem flatMap_fields (sep : Char) (t : Text) :
    (fields sep t).flatMap (· ++ [sep]) = t ++ [sep] := by
  induction t with
  | nil => rfl
  | cons c t ih =>
      obtain ⟨f, fs, hfields, hcons⟩ := fields_cons sep c t
      rw [hfields] at ih
      rw [hcons]
      split
      · next heq => simpa [heq] using ih
      · simpa using ih

theorem cutLast_eq_none_iff {c : Char} {t : Text} : cutLast c t = none ↔ c ∉ t := by
  induction t with
  | nil => simp [cutLast]
  | cons x t ih =>
      rw [cutLast, List.mem_cons, not_or]
      cases hcut : cutLast c t with
      | some parts =>
          have hmem : c ∈ t := by
            by_contra hnot
            simp [ih.2 hnot] at hcut
          simp [hmem]
      | none =>
          by_cases hx : x = c
          · simp [hx]
          · simp [hx, ih.1 hcut, Ne.symm hx]

theorem cutLast_append {c : Char} {b : Text} (hb : c ∉ b) (a : Text) :
    cutLast c (a ++ c :: b) = some (a, b) := by
  induction a with
  | nil => simp [cutLast, cutLast_eq_none_iff.2 hb]
  | cons x a ih => simp [cutLast, ih]

theorem eq_append_of_cutLast {c : Char} {t a b : Text} (h : cutLast c t = some (a, b)) :
    t = a ++ c :: b ∧ c ∉ b := by
  induction t generalizing a with
  | nil => cases h
  | cons x t ih =>
      rw [cutLast] at h
      split at h
      · next before after hcut =>
          obtain ⟨rfl, rfl⟩ := Prod.mk.inj (Option.some.inj h)
          obtain ⟨ht, hafter⟩ := ih hcut
          exact ⟨by rw [ht, List.cons_append], hafter⟩
      · next hcut =>
          split at h
          · next heq =>
              obtain ⟨rfl, rfl⟩ := Prod.mk.inj (Option.some.inj h)
              exact ⟨by rw [heq]; rfl, cutLast_eq_none_iff.1 hcut⟩
          · cases h

end Text

namespace Path

variable {p q : Path} {n m : Text} {names : List Text}

theorem isAbsolute_of_isPrefix (hp : p.isAbsolute) (h : q.text <+: p.text) (hq : q.text ≠ []) :
    q.isAbsolute := by
  obtain ⟨rest, hrest⟩ := h
  obtain ⟨c, t, ht⟩ := List.exists_cons_of_ne_nil hq
  have hhead : p.text.head? = some '/' := by simpa [isAbsolute] using hp
  rw [← hrest, ht] at hhead
  simpa [isAbsolute, ht] using hhead

theorem isIdle_iff : isIdle n ↔ n = [] ∨ n = ['.'] := by
  simp [isIdle]

theorem Ordinary.not_isIdle (h : Ordinary n) : ¬ isIdle n := by
  simp [isIdle, h.ne_nil, h.ne_dot]

theorem not_isAbsolute_of_noSlash (hn : '/' ∉ n) : ¬ (Path.mk n).isAbsolute := fun habs =>
  hn (List.mem_of_mem_head? (by simpa [isAbsolute] using habs))

/-- A name that can be written, or the step to the parent, is one stretch of a path. -/
theorem noSlash_and_not_isIdle (hn : Ordinary n ∨ n = ['.', '.']) : '/' ∉ n ∧ ¬ isIdle n := by
  rcases hn with hn | rfl
  · exact ⟨hn.noSlash, hn.not_isIdle⟩
  · decide

/-- The stretches up to the last one that leads somewhere. -/
def kept (fs : List Text) : List Text := (fs.reverse.dropWhile isIdle).reverse

/-- The absolute path of the given stretches, its end cleared of what leads nowhere. -/
def cleared (fs : List Text) : Path :=
  match kept fs with
  | [] => ⟨['/']⟩
  | f :: rest => ⟨['/'].intercalate (f :: rest)⟩

/-- An absolute path, its end cleared of what leads nowhere. -/
def trimmed (p : Path) : Path := cleared p.fields

theorem kept_append_idle (fs : List Text) :
    ∃ idle, fs = kept fs ++ idle ∧ ∀ f ∈ idle, isIdle f := by
  refine ⟨(fs.reverse.takeWhile isIdle).reverse, ?_, ?_⟩
  · rw [kept, ← List.reverse_append, List.takeWhile_append_dropWhile, List.reverse_reverse]
  · intro f hf
    exact List.mem_takeWhile_imp (List.mem_reverse.1 hf)

theorem exists_of_kept_ne_nil {fs : List Text} (h : kept fs ≠ []) : ∃ f ∈ kept fs, ¬ isIdle f := by
  have hne : fs.reverse.dropWhile isIdle ≠ [] := fun heq => h (by rw [kept, heq]; rfl)
  refine ⟨_, List.mem_reverse.2 (List.head_mem hne), ?_⟩
  simpa using List.head_dropWhile_not isIdle hne

theorem text_cleared_isPrefix {fs : List Text} (hp : p.isAbsolute) (hfs : fs <+: p.fields) :
    (cleared fs).text <+: p.text := by
  unfold cleared
  split
  · have hhead : p.text.head? = some '/' := by simpa [isAbsolute] using hp
    obtain ⟨t, ht⟩ := List.head?_eq_some_iff.1 hhead
    exact ⟨t, ht.symm⟩
  · next f rest hkept =>
      obtain ⟨idle, hidle, _⟩ := kept_append_idle fs
      obtain ⟨more, hmore⟩ := hfs
      refine ⟨(idle ++ more).flatMap (['/'] ++ ·), ?_⟩
      rw [← Text.intercalate_append (by simp), ← hkept, ← List.append_assoc, ← hidle, hmore, fields,
        Text.intercalate_fields]

theorem text_cleared_ne_nil (fs : List Text) : (cleared fs).text ≠ [] := by
  unfold cleared
  split
  · simp
  · next f rest hkept =>
      intro hnil
      obtain ⟨g, hg, hidle⟩ := exists_of_kept_ne_nil (hkept ▸ List.cons_ne_nil f rest)
      simp only [Text.intercalate_cons, List.append_eq_nil_iff, List.flatMap_eq_nil_iff] at hnil
      obtain ⟨rfl, hrest⟩ := hnil
      rw [hkept] at hg
      rcases List.mem_cons.1 hg with rfl | hg
      · exact hidle (isIdle_iff.2 (Or.inl rfl))
      · exact absurd (hrest g hg).1 (by simp)

theorem isAbsolute_cleared {fs : List Text} (hp : p.isAbsolute) (hfs : fs <+: p.fields) :
    (cleared fs).isAbsolute :=
  isAbsolute_of_isPrefix hp (text_cleared_isPrefix hp hfs) (text_cleared_ne_nil fs)

theorem inner_cleared {fs : List Text} (hfs : ∀ f ∈ fs, '/' ∉ f) :
    (cleared fs).inner = fs.filterMap Step.ofField? := by
  obtain ⟨idle, hsplit, hidle⟩ := kept_append_idle fs
  have hnone : idle.filterMap Step.ofField? = [] := by
    rw [List.filterMap_eq_nil_iff]
    intro f hf
    simp [Step.ofField?, isIdle_iff.1 (hidle f hf)]
  have hkept : (cleared fs).inner = (kept fs).filterMap Step.ofField? := by
    unfold cleared
    split
    · next h => rw [h]; rfl
    · next f rest h =>
        have hslash : ∀ g ∈ f :: rest, '/' ∉ g := by
          intro g hg
          exact hfs g (hsplit ▸ List.mem_append_left idle (h ▸ hg))
        rw [inner, fields, Text.fields_intercalate (by simp) hslash, h]
  rw [hkept, hsplit, List.filterMap_append, hnone, List.append_nil, ← hsplit]

theorem noSlash_of_mem_fields {f : Text} (hf : f ∈ p.fields) : '/' ∉ f :=
  Text.not_mem_of_mem_fields hf

theorem parent?_of_isAbsolute (hp : p.isAbsolute) :
    p.parent? =
      match p.fields.reverse.dropWhile isIdle with
      | [] => none
      | _ :: front => some (cleared front.reverse) := by
  unfold parent? cleared kept
  cases p.fields.reverse.dropWhile isIdle with
  | nil => simp [hp]
  | cons last front =>
      simp only [List.reverse_reverse, hp, if_true]
      cases (front.dropWhile isIdle).reverse <;> rfl

/-- The parent of an absolute path is written as a beginning of it. -/
theorem isAbsolute_of_parent? {above : Path} (hp : p.isAbsolute) (h : p.parent? = some above) :
    above.isAbsolute ∧ above.text <+: p.text := by
  rw [parent?_of_isAbsolute hp] at h
  split at h
  · cases h
  · next last front hdrop =>
      have hpre : front.reverse <+: p.fields := by
        have hsuffix : front <:+ p.fields.reverse :=
          (List.suffix_cons last front).trans (hdrop ▸ List.dropWhile_suffix isIdle)
        simpa using (List.reverse_prefix ).2 hsuffix
      rw [← Option.some.inj h]
      exact ⟨isAbsolute_cleared hp hpre, text_cleared_isPrefix hp hpre⟩

theorem isAbsolute_trimmed (hp : p.isAbsolute) : p.trimmed.isAbsolute :=
  isAbsolute_cleared hp (List.prefix_refl _)

theorem text_trimmed_isPrefix (hp : p.isAbsolute) : p.trimmed.text <+: p.text :=
  text_cleared_isPrefix hp (List.prefix_refl _)

theorem steps_trimmed (hp : p.isAbsolute) : p.trimmed.steps = p.steps := by
  rw [steps_of_isAbsolute (isAbsolute_trimmed hp), steps_of_isAbsolute hp, trimmed,
    inner_cleared fun f hf => noSlash_of_mem_fields hf]
  rfl

theorem place_trimmed (hp : p.isAbsolute) : p.trimmed.place = p.place := by
  rw [place, steps_trimmed hp, place]

/-- All children of a path are written after the same beginning. -/
theorem exists_text_child (hp : p.isAbsolute) :
    ∃ a, (p.text = a ∨ p.text = a ++ ['/']) ∧
      ∀ n, '/' ∉ n → (p.child n).text = a ++ '/' :: n := by
  have hne : p.text ≠ [] := by
    intro hnil
    simp [isAbsolute, hnil] at hp
  have hrel : ∀ n : Text, '/' ∉ n → ¬ (Path.mk n).isAbsolute := by
    intro n hn habs
    have hhead : n.head? = some '/' := by simpa [isAbsolute] using habs
    exact hn (List.mem_of_mem_head? hhead)
  by_cases hend : p.text.getLast? = some '/'
  · obtain ⟨a, ha⟩ := List.getLast?_eq_some_iff.1 hend
    refine ⟨a, Or.inr ha, fun n hn => ?_⟩
    rw [child, text_join (hrel n hn), if_pos (Or.inr hend), ha, List.append_assoc]
    rfl
  · refine ⟨p.text, Or.inl rfl, fun n hn => ?_⟩
    rw [child, text_join (hrel n hn), if_neg (by simp [hne, hend])]

theorem text_isPrefix_child (hp : p.isAbsolute) (hn : '/' ∉ n) : p.text <+: (p.child n).text := by
  obtain ⟨a, ha, hchild⟩ := exists_text_child hp
  rw [hchild n hn]
  rcases ha with ha | ha
  · exact ⟨'/' :: n, by rw [ha]⟩
  · exact ⟨n, by rw [ha]; simp⟩

theorem fields_of_text {a : Text} (h : p.text = a ++ '/' :: n) (hn : '/' ∉ n) :
    p.fields = a.fields '/' ++ [n] := by
  rw [fields, h, Text.fields_append_sep, Text.fields_of_not_mem hn]

/-- Above a name stands the path that it was put behind. -/
theorem parent?_child (hp : p.isAbsolute) (hn : '/' ∉ n) (hidle : ¬ isIdle n) :
    (p.child n).parent? = some p.trimmed := by
  obtain ⟨a, ha, hchild⟩ := exists_text_child hp
  rw [parent?_of_isAbsolute (isAbsolute_child hp n), fields_of_text (hchild n hn) hn,
    List.reverse_append, List.reverse_singleton, List.singleton_append,
    List.dropWhile_cons_of_neg hidle]
  simp only [List.reverse_reverse, Option.some.injEq, trimmed, cleared]
  have hkept : kept p.fields = kept (a.fields '/') := by
    rcases ha with ha | ha
    · rw [fields, ha]
    · have hslash : p.fields = a.fields '/' ++ [[]] := fields_of_text ha (by simp)
      rw [hslash, kept, List.reverse_append, List.reverse_singleton, List.singleton_append,
        List.dropWhile_cons_of_pos (by simp [isIdle]), kept]
  rw [hkept]

theorem ancestry_child (hp : p.isAbsolute) (hn : Ordinary n) :
    (p.child n).ancestry = p.child n :: p.trimmed.ancestry := by
  have hlength : (p.child n).steps.length = p.trimmed.steps.length + 1 := by
    rw [steps_trimmed hp, steps_of_isAbsolute hp, steps_of_isAbsolute (isAbsolute_child hp n),
      inner_child hn]
    simp
  rw [ancestry, hlength, ancestry.climb, parent?_child hp hn.noSlash hn.not_isIdle]
  rfl

theorem trimmed_child (hp : p.isAbsolute) (hn : Ordinary n) : (p.child n).trimmed = p.child n := by
  obtain ⟨a, _, hchild⟩ := exists_text_child hp
  have htext := hchild n hn.noSlash
  have hfields := fields_of_text htext hn.noSlash
  have hkept : kept (p.child n).fields = (p.child n).fields := by
    rw [kept, hfields, List.reverse_append, List.reverse_singleton, List.singleton_append,
      List.dropWhile_cons_of_neg hn.not_isIdle]
    simp
  obtain ⟨f, fs, hf⟩ := List.exists_cons_of_ne_nil (Text.fields_ne_nil '/' (p.child n).text)
  have hf' : (p.child n).fields = f :: fs := hf
  rw [trimmed, cleared, hkept, hf']
  simp only
  rw [← hf, Text.intercalate_fields]

theorem steps_foldl_child (hp : p.isAbsolute) (hnames : ∀ m ∈ names, Ordinary m) :
    (names.foldl child p).steps = p.steps ++ names.map .name := by
  rw [steps_of_isAbsolute (isAbsolute_foldl_child hp names), inner_foldl_child hnames,
    steps_of_isAbsolute hp, List.cons_append]

/-- A text that can stand before a name: stretches, each with a slash behind it. -/
structure IsFront (a : Text) : Prop where
  exists_fields : ∃ fs : List Text, fs.flatMap (· ++ ['/']) = a ∧
    ∀ n, '/' ∉ n → Text.fields '/' (a ++ n) = fs ++ [n]

/-- All children of a path, absolute or not, are written behind the same front. -/
theorem exists_front_child (p : Path) :
    ∃ a, IsFront a ∧ ∀ n, '/' ∉ n → (p.child n).text = a ++ n := by
  have hslashed : ∀ b : Text, IsFront (b ++ ['/']) := fun b =>
    ⟨b.fields '/', Text.flatMap_fields '/' b, fun n hn => by
      rw [List.append_assoc, List.singleton_append, Text.fields_append_sep,
        Text.fields_of_not_mem hn]⟩
  have hrel : ∀ n : Text, '/' ∉ n → ¬ (Path.mk n).isAbsolute := fun n hn habs =>
    hn (List.mem_of_mem_head? (by simpa [isAbsolute] using habs))
  by_cases hnil : p.text = []
  · refine ⟨[], ⟨[], rfl, fun n hn => Text.fields_of_not_mem hn⟩, fun n hn => ?_⟩
    rw [child, text_join (hrel n hn), if_pos (Or.inl hnil), hnil]
  by_cases hend : p.text.getLast? = some '/'
  · obtain ⟨b, hb⟩ := List.getLast?_eq_some_iff.1 hend
    refine ⟨b ++ ['/'], hslashed b, fun n hn => ?_⟩
    rw [child, text_join (hrel n hn), if_pos (Or.inr hend), hb]
  · refine ⟨p.text ++ ['/'], hslashed p.text, fun n hn => ?_⟩
    rw [child, text_join (hrel n hn), if_neg (not_or.2 ⟨hnil, hend⟩), List.append_assoc]
    rfl

theorem IsFront.splitName? {a : Text} (ha : IsFront a) (h : p.text = a ++ n) (hn : '/' ∉ n)
    (hidle : ¬ isIdle n) :
    p.splitName? = if n = ['.', '.'] then none else some (a, n) := by
  obtain ⟨fs, hfront, hfields⟩ := ha.exists_fields
  have hp : p.fields = fs ++ [n] := by rw [fields, h, hfields n hn]
  unfold Path.splitName?
  rw [hp, List.reverse_append, List.reverse_singleton, List.singleton_append,
    List.dropWhile_cons_of_neg hidle]
  simp [hfront]

theorem fileName?_child (p : Path) (hn : Ordinary n) : (p.child n).fileName? = some n := by
  obtain ⟨a, ha, hchild⟩ := exists_front_child p
  rw [fileName?, ha.splitName? (hchild n hn.noSlash) hn.noSlash hn.not_isIdle, if_neg hn.ne_dots]
  rfl

theorem extension?_child (p : Path) (hn : Ordinary n) :
    (p.child n).extension? = (nameParts n).2 := by
  rw [extension?, fileName?_child p hn]
  rfl

theorem nameParts_eq_some {stem old : Text} (h : nameParts n = (stem, some old)) :
    n = stem ++ '.' :: old ∧ '.' ∉ old ∧ stem ≠ [] := by
  unfold nameParts at h
  split at h
  · cases h
  · cases h
  · next s e hne hcut =>
      obtain ⟨rfl, hold⟩ := Prod.mk.inj h
      obtain rfl := Option.some.inj hold
      obtain ⟨hn, hdot⟩ := Text.eq_append_of_cutLast hcut
      exact ⟨hn, hdot, hne⟩

theorem nameParts_eq_none {stem : Text} (h : nameParts n = (stem, none)) : stem = n := by
  unfold nameParts at h
  split at h
  · exact (Prod.mk.inj h).1.symm
  · exact (Prod.mk.inj h).1.symm
  · cases h

theorem nameParts_append {stem : Text} (hstem : stem ≠ []) (old : Text) (hold : '.' ∉ old) :
    nameParts (stem ++ '.' :: old) = (stem, some old) := by
  obtain ⟨c, t, rfl⟩ := List.exists_cons_of_ne_nil hstem
  rw [nameParts, Text.cutLast_append hold]

/-- An extension with the dot before it, and nothing if there is none. -/
def dotted (ext : Text) : Text := if ext = [] then [] else '.' :: ext

/-- What a name becomes that gets another extension. Of a name whose stem is a single dot the step
to the parent is left. -/
def renamed (n ext : Text) : Text :=
  match nameParts n with
  | (stem, none) => stem ++ dotted ext
  | (stem, some _) => if stem = ['.'] then ['.', '.'] else stem ++ dotted ext

theorem IsFront.putExtension {a : Text} (ha : IsFront a) (h : p.text = a ++ n) (hn : '/' ∉ n)
    (hidle : ¬ isIdle n) (hdots : n ≠ ['.', '.']) (ext : Text) :
    p.putExtension ext = ⟨a ++ ((nameParts n).1 ++ dotted ext)⟩ := by
  rw [Path.putExtension, ha.splitName? h hn hidle, if_neg hdots]
  simp only [dotted]
  split <;> simp

theorem noSlash_append_dotted {stem ext : Text} (hstem : '/' ∉ stem) (hext : '/' ∉ ext) :
    '/' ∉ stem ++ dotted ext := by
  unfold dotted
  split <;> simp [hstem, hext]

theorem noSlash_renamed (hn : Ordinary n) {ext : Text} (hext : '/' ∉ ext) :
    '/' ∉ renamed n ext := by
  unfold renamed
  split
  · next stem hparts =>
      obtain rfl := nameParts_eq_none hparts
      exact noSlash_append_dotted hn.noSlash hext
  · next stem old hparts =>
      obtain ⟨rfl, -, -⟩ := nameParts_eq_some hparts
      split
      · simp
      · exact noSlash_append_dotted
          (fun hmem => hn.noSlash (List.mem_append_left _ hmem)) hext

theorem not_isIdle_append_dot {stem : Text} (hne : stem ≠ []) : ¬ isIdle (stem ++ ['.']) := by
  rw [isIdle_iff]
  rintro (heq | heq)
  · simp at heq
  · exact hne (List.append_left_eq_self.1 heq)

/-- The old ending is cut off up to its dot. If only the step to the parent is left, it stays. -/
theorem IsFront.putExtension_cut {a stem old : Text} (ha : IsFront a) (hne : stem ≠ [])
    (hslash : '/' ∉ stem) (hold : '.' ∉ old) (ext : Text) :
    (⟨a ++ (stem ++ ['.'])⟩ : Path).putExtension ext =
      ⟨a ++ renamed (stem ++ '.' :: old) ext⟩ := by
  have hcut : '/' ∉ stem ++ ['.'] := by simp [hslash]
  have hidle := not_isIdle_append_dot hne
  simp only [renamed, nameParts_append hne old hold]
  by_cases hdot : stem = ['.']
  · subst hdot
    have hnone := ha.splitName? (p := ⟨a ++ ['.', '.']⟩) rfl hcut hidle
    simp only [List.singleton_append, if_true, Path.putExtension, hnone]
  · have hdots : stem ++ ['.'] ≠ ['.', '.'] := fun heq =>
      hdot (List.append_cancel_right (heq : stem ++ ['.'] = ['.'] ++ ['.']))
    rw [if_neg hdot, ha.putExtension (p := ⟨a ++ (stem ++ ['.'])⟩) rfl hcut hidle hdots,
      nameParts_append hne [] (by simp)]

/-- Another extension changes the last name and nothing else. -/
theorem withExtension_child (p : Path) (hn : Ordinary n) {ext : Text} (hext : '/' ∉ ext) :
    (p.child n).withExtension ext = p.child (renamed n ext) ∧ '/' ∉ renamed n ext := by
  have hrenamed := noSlash_renamed hn hext
  refine ⟨?_, hrenamed⟩
  obtain ⟨a, ha, hchild⟩ := exists_front_child p
  have htext := hchild n hn.noSlash
  have hmk : Path.mk (a ++ renamed n ext) = p.child (renamed n ext) := by
    rw [← hchild _ hrenamed]
  rw [← hmk, withExtension, extension?_child p hn]
  cases hparts : nameParts n with
  | mk stem ending =>
      cases ending with
      | none =>
          simp only [renamed, hparts]
          rw [ha.putExtension htext hn.noSlash hn.not_isIdle hn.ne_dots, hparts]
      | some old =>
          obtain ⟨rfl, hold, hne⟩ := nameParts_eq_some hparts
          have hcut : (p.child (stem ++ '.' :: old)).text.take
              ((p.child (stem ++ '.' :: old)).text.length - old.length) =
                a ++ (stem ++ ['.']) := by
            have hlength : (p.child (stem ++ '.' :: old)).text =
                (a ++ (stem ++ ['.'])) ++ old := by simp [htext]
            rw [hlength, List.length_append, Nat.add_sub_cancel, List.take_left']
            rfl
          simp only [hcut]
          exact ha.putExtension_cut hne
            (fun hmem => hn.noSlash (List.mem_append_left _ hmem)) hold ext

/-- A name with another extension is a name, or the step to the parent. -/
theorem renamed_cases (hn : Ordinary n) {ext : Text} (hext : '/' ∉ ext) :
    Ordinary (renamed n ext) ∨ renamed n ext = ['.', '.'] := by
  by_cases hdots : renamed n ext = ['.', '.']
  · exact Or.inr hdots
  · refine Or.inl ⟨?_, noSlash_renamed hn hext, ?_, hdots⟩
    · unfold renamed
      split
      · next stem hparts => simp [nameParts_eq_none hparts, hn.ne_nil]
      · next stem old hparts =>
          split
          · simp
          · simp [(nameParts_eq_some hparts).2.2]
    · unfold renamed dotted
      split
      · next stem hparts =>
          rw [nameParts_eq_none hparts]
          split
          · simpa using hn.ne_dot
          · simp [List.append_eq_cons_iff, hn.ne_nil]
      · next stem old hparts =>
          split
          · simp
          · next hstem =>
              split
              · simpa using hstem
              · simp [List.append_eq_cons_iff, (nameParts_eq_some hparts).2.2]

theorem not_isIdle_renamed (hn : Ordinary n) {ext : Text} (hext : '/' ∉ ext) :
    ¬ isIdle (renamed n ext) := by
  rcases renamed_cases hn hext with hname | hdots
  · exact hname.not_isIdle
  · rw [hdots]
    decide

theorem join_child (hq : ¬ q.isAbsolute) (hne : q.text ≠ [])
    (hn : Ordinary n) : p.join (q.child n) = (p.join q).child n := by
  have hchild : ¬ (q.child n).isAbsolute := not_isAbsolute_join hne hq hn.not_isAbsolute
  have hlast : (p.join q).text.getLast? = q.text.getLast? := by
    rw [text_join hq, List.getLast?_append]
    cases h : q.text.getLast? with
    | none => exact absurd (List.getLast?_eq_none_iff.1 h) hne
    | some c => split <;> simp [h, List.getLast?_cons]
  have hne' : (p.join q).text ≠ [] := by
    rw [text_join hq]
    split <;> simp [hne]
  have htext : (p.join (q.child n)).text = ((p.join q).child n).text := by
    have hright : ((p.join q).child n).text =
        (p.join q).text ++ if q.text.getLast? = some '/' then n else '/' :: n := by
      rw [child, text_join hn.not_isAbsolute, hlast]
      simp [hne']
    have hleft : (q.child n).text = q.text ++ if q.text.getLast? = some '/' then n else '/' :: n := by
      rw [child, text_join hn.not_isAbsolute]
      simp [hne]
    rw [hright, text_join hchild, text_join hq, hleft]
    split <;> simp
  calc p.join (q.child n) = ⟨(p.join (q.child n)).text⟩ := rfl
    _ = ⟨((p.join q).child n).text⟩ := by rw [htext]
    _ = (p.join q).child n := rfl

/-- Joining the path of names goes down the names. -/
theorem join_ofSteps (hnames : ∀ m ∈ names, Ordinary m) (hne : names ≠ []) :
    p.join (ofSteps (names.map .name)) = names.foldl child p := by
  rw [ofSteps_map_name]
  induction names using List.reverseRecOn with
  | nil => exact absurd rfl hne
  | append_singleton names n ih =>
      have hn : Ordinary n := hnames n (by simp)
      have hnames' : ∀ m ∈ names, Ordinary m := fun m hm => hnames m (List.mem_append_left [n] hm)
      rw [List.foldl_append, List.foldl_append, List.foldl_cons, List.foldl_nil, List.foldl_cons,
        List.foldl_nil]
      by_cases hnil : names = []
      · subst hnil
        have hfirst : (Path.mk []).child n = ⟨n⟩ := by simp [child, join, hn.not_isAbsolute]
        rw [List.foldl_nil, List.foldl_nil, hfirst]
        rfl
      · have hrel := not_isAbsolute_ofSteps hnames'
        rw [ofSteps_map_name] at hrel
        have htext : (names.foldl child ⟨[]⟩).text ≠ [] := by
          intro heq
          have hinner := inner_foldl_child (p := ⟨[]⟩) hnames'
          have hmk : names.foldl child ⟨[]⟩ = ⟨[]⟩ := congrArg Path.mk heq
          rw [hmk] at hinner
          exact hnil (by simpa [inner, fields, Text.fields, Step.ofField?] using hinner.symm)
        rw [join_child hrel htext hn, ih hnames' hnil]

end Path

end Quire
