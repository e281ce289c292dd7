import Quire.Proofs.Text.Joining
import Quire.Tool.Diagnostics

/-!
Colour sequences in a text and what is left without them. They are taken out by a reader who goes
on behind each, so the characters around one are never read together: a text has colours afterwards
exactly if an escape character that begins no sequence meets the rest of one that way.
-/

namespace Quire.Tool

variable {c : Char} {s t t' a b after blanks : Text} {ls : List Text}

/-- A colour sequence. -/
def IsColor (s : Text) : Prop :=
  ∃ ps, s = '\x1b' :: '[' :: (ps ++ ['m']) ∧ ∀ c ∈ ps, isColorParameter c

/-- Whether a text starts with a colour sequence. -/
def OpensColored (t : Text) : Prop := ∃ s, IsColor s ∧ s <+: t

/-- Whether a colour sequence stands in a text. -/
def Colored (t : Text) : Prop := ∃ s, IsColor s ∧ s <:+: t

/-- What is left of a text without the colour sequences that a reader meets who goes on behind
each. -/
inductive Stripped : Text → Text → Prop
  | nil : Stripped [] []
  | color {s t t' : Text} : IsColor s → Stripped t t' → Stripped (s ++ t) t'
  | char {c : Char} {t t' : Text} : ¬ OpensColored (c :: t) → Stripped t t' →
      Stripped (c :: t) (c :: t')

/-- Whether an escape character of a text begins no colour sequence there, but begins one as soon
as the sequences behind it are gone. -/
def Tangled (t : Text) : Prop :=
  ∃ a b b', t = a ++ '\x1b' :: b ∧ ¬ OpensColored ('\x1b' :: b) ∧ Stripped b b' ∧
    OpensColored ('\x1b' :: b')

theorem IsColor.ne_nil (h : IsColor s) : s ≠ [] := by
  obtain ⟨ps, rfl, -⟩ := h
  exact List.cons_ne_nil _ _

theorem not_colored_nil : ¬ Colored [] := by
  rintro ⟨s, hs, hwithin⟩
  exact hs.ne_nil (List.infix_nil.1 hwithin)

theorem OpensColored.eq_escape (h : OpensColored (c :: t)) : c = '\x1b' := by
  obtain ⟨_, ⟨ps, rfl, -⟩, hstart⟩ := h
  exact (List.cons_prefix_cons.1 hstart).1.symm

theorem colored_cons : Colored (c :: t) ↔ OpensColored (c :: t) ∨ Colored t := by
  simp only [Colored, OpensColored, List.infix_cons_iff, and_or_left, exists_or]

theorem Colored.append_left (a : Text) (h : Colored b) : Colored (a ++ b) := by
  obtain ⟨s, hs, hwithin⟩ := h
  exact ⟨s, hs, hwithin.trans (List.suffix_append a b).isInfix⟩

theorem stopsAt_colorParameter (t : Text) : Text.StopsAt isColorParameter ('m' :: t) :=
  Text.stopsAt_cons.2 (by decide)

theorem afterColor?_eq_some_iff :
    afterColor? t = some after ↔ ∃ s, IsColor s ∧ t = s ++ after := by
  constructor
  · intro h
    unfold afterColor? at h
    split at h
    · next rest =>
        split at h
        · next after' hrest =>
            obtain rfl := Option.some.inj h
            refine ⟨_, ⟨rest.takeWhile isColorParameter, rfl, fun c hc =>
              List.mem_takeWhile_imp hc⟩, ?_⟩
            have hsplit := List.takeWhile_append_dropWhile (p := isColorParameter) (l := rest)
            rw [hrest] at hsplit
            simp [hsplit]
        · cases h
    · cases h
  · rintro ⟨_, ⟨ps, rfl, hps⟩, rfl⟩
    have hrest : (ps ++ 'm' :: after).dropWhile isColorParameter = 'm' :: after :=
      Text.dropWhile_run hps (stopsAt_colorParameter after)
    simp [afterColor?, hrest]

theorem afterColor?_eq_none_iff : afterColor? t = none ↔ ¬ OpensColored t := by
  rw [Option.eq_none_iff_forall_ne_some]
  constructor
  · rintro h ⟨s, hs, after, rfl⟩
    exact h after (afterColor?_eq_some_iff.2 ⟨s, hs, rfl⟩)
  · intro h after hafter
    obtain ⟨s, hs, rfl⟩ := afterColor?_eq_some_iff.1 hafter
    exact h ⟨s, hs, List.prefix_append s after⟩

theorem dropColors_nil : dropColors [] = [] := by
  rw [dropColors]
  rfl

theorem dropColors_color (hs : IsColor s) (t : Text) : dropColors (s ++ t) = dropColors t := by
  have hafter : afterColor? (s ++ t) = some t := afterColor?_eq_some_iff.2 ⟨s, hs, rfl⟩
  rw [dropColors]
  split
  · next h => rw [Option.some.inj (h.symm.trans hafter)]
  · next h => cases h.symm.trans hafter

theorem dropColors_cons (h : ¬ OpensColored (c :: t)) :
    dropColors (c :: t) = c :: dropColors t := by
  rw [dropColors]
  split
  · next hsome => cases hsome.symm.trans (afterColor?_eq_none_iff.2 h)
  · rfl

theorem stripped_dropColors (t : Text) : Stripped t (dropColors t) := by
  fun_induction dropColors t with
  | case1 t after hafter ih =>
      obtain ⟨s, hs, rfl⟩ := afterColor?_eq_some_iff.1 hafter
      exact .color hs ih
  | case2 => exact .nil
  | case3 c rest hafter ih => exact .char (afterColor?_eq_none_iff.1 hafter) ih

/-- One text is left of another, the one that the colours are dropped from. -/
theorem stripped_iff : Stripped t t' ↔ dropColors t = t' := by
  constructor
  · intro h
    induction h with
    | nil => exact dropColors_nil
    | color hs _ ih => rw [dropColors_color hs, ih]
    | char hopens _ ih => rw [dropColors_cons hopens, ih]
  · rintro rfl
    exact stripped_dropColors t

theorem Stripped.sublist (h : Stripped t t') : t'.Sublist t := by
  induction h with
  | nil => exact List.Sublist.slnil
  | color _ _ ih => exact ih.trans (List.sublist_append_right _ _)
  | char _ _ ih => exact ih.cons_cons _

theorem Stripped.unique (h : Stripped t a) (h' : Stripped t b) : a = b :=
  (stripped_iff.1 h).symm.trans (stripped_iff.1 h')

theorem Stripped.length_lt (h : Stripped t t') (hcolored : Colored t) : t'.length < t.length := by
  induction h with
  | nil => exact absurd hcolored not_colored_nil
  | color hs htail _ =>
      have hpositive := List.length_pos_iff.2 hs.ne_nil
      have hle := htail.sublist.length_le
      rw [List.length_append]
      omega
  | char hopens _ ih => exact Nat.succ_lt_succ (ih ((colored_cons.1 hcolored).resolve_left hopens))

/-- A text is left as it is if it has no colours, and only then. -/
theorem stripped_self_iff : Stripped t t ↔ ¬ Colored t := by
  constructor
  · intro h hcolored
    exact Nat.lt_irrefl _ (h.length_lt hcolored)
  · intro h
    induction t with
    | nil => exact .nil
    | cons c t ih =>
        rw [colored_cons, not_or] at h
        exact .char h.1 (ih h.2)

/-- A colour sequence has its one escape character in front. -/
theorem IsColor.escape_not_mem (h : IsColor (c :: s)) : '\x1b' ∉ s := by
  obtain ⟨ps, heq, hps⟩ := h
  obtain ⟨-, rfl⟩ := List.cons_eq_cons.1 heq
  have hparams : '\x1b' ∉ ps := fun hmem => absurd (hps _ hmem) (by decide)
  simp [hparams]

/-- No colour sequence reaches over an escape character. -/
theorem opensColored_of_append_escape (h : OpensColored (c :: (a ++ '\x1b' :: b))) :
    OpensColored (c :: a) := by
  obtain ⟨s, hs, hstart⟩ := h
  obtain ⟨d, s, rfl⟩ := List.exists_cons_of_ne_nil hs.ne_nil
  obtain ⟨rfl, htail⟩ := List.cons_prefix_cons.1 hstart
  exact ⟨_, hs, List.cons_prefix_cons.2
    ⟨rfl, Text.prefix_of_prefix_append_cons hs.escape_not_mem htail⟩⟩

theorem Stripped.append_escape {a' b' : Text} (ha : Stripped a a')
    (hb : Stripped ('\x1b' :: b) b') : Stripped (a ++ '\x1b' :: b) (a' ++ b') := by
  induction ha with
  | nil => exact hb
  | color hs _ ih => exact List.append_assoc .. ▸ .color hs ih
  | char hopens _ ih => exact .char (mt opensColored_of_append_escape hopens) ih

theorem Tangled.append_left (a : Text) (h : Tangled t) : Tangled (a ++ t) := by
  obtain ⟨front, b, b', rfl, htangled⟩ := h
  exact ⟨a ++ front, b, b', (List.append_assoc ..).symm, htangled⟩

/-- A text has colours once it is stripped exactly if it was tangled. -/
theorem Stripped.colored_iff (h : Stripped t t') : Colored t' ↔ Tangled t := by
  constructor
  · intro hcolored
    induction h with
    | nil => exact absurd hcolored not_colored_nil
    | color _ _ ih => exact (ih hcolored).append_left _
    | char hopens htail ih =>
        rcases colored_cons.1 hcolored with hjoined | hrest
        · obtain rfl := hjoined.eq_escape
          exact ⟨[], _, _, rfl, hopens, htail, hjoined⟩
        · exact (ih hrest).append_left [_]
  · rintro ⟨a, b, b', rfl, hopens, hb, hjoined⟩
    -- The reader comes to the escape character, since no sequence before it reaches that far.
    rw [h.unique ((stripped_dropColors a).append_escape (.char hopens hb))]
    exact (colored_cons.2 (Or.inl hjoined)).append_left _

theorem not_isBlank_of_isColorParameter (h : isColorParameter c) : ¬ Text.isBlank c := by
  simp only [isColorParameter, Char.isDigit, Bool.or_eq_true, Bool.and_eq_true,
    decide_eq_true_eq] at h
  rcases h with ⟨hleast, hmost⟩ | rfl
  · have hleast : 48 ≤ c.toNat := hleast
    have hmost : c.toNat ≤ 57 := hmost
    simp [Text.isBlank]
    omega
  · decide

theorem IsColor.not_isBlank (h : IsColor s) : ∀ c ∈ s, ¬ Text.isBlank c := by
  obtain ⟨ps, rfl, hps⟩ := h
  intro c hc
  rcases List.mem_cons.1 hc with rfl | hc
  · decide
  rcases List.mem_cons.1 hc with rfl | hc
  · decide
  rcases List.mem_append.1 hc with hc | hc
  · exact not_isBlank_of_isColorParameter (hps c hc)
  · rw [List.mem_singleton.1 hc]
    decide

/-- No colour sequence reaches over a blank. -/
theorem colored_append_blank (hc : Text.isBlank c) :
    Colored (a ++ c :: b) ↔ Colored a ∨ Colored b := by
  rw [Colored, Colored, Colored, ← exists_or]
  refine exists_congr fun s => ?_
  rw [← and_or_left]
  exact and_congr_right fun hs =>
    Text.infix_append_cons fun hmem => hs.not_isBlank c hmem hc

theorem colored_append_blanks (hblanks : ∀ c ∈ blanks, Text.isBlank c) :
    Colored (t ++ blanks) ↔ Colored t := by
  cases blanks with
  | nil => rw [List.append_nil]
  | cons c blanks =>
      rw [List.forall_mem_cons] at hblanks
      rw [colored_append_blank hblanks.1, or_iff_left]
      rintro ⟨_, ⟨ps, rfl, -⟩, hwithin⟩
      exact absurd (hblanks.2 _ (hwithin.subset List.mem_cons_self)) (by decide)

theorem colored_intercalate : Colored (['\n'].intercalate ls) ↔ ∃ line ∈ ls, Colored line := by
  induction ls with
  | nil => simp [not_colored_nil]
  | cons line ls ih =>
      cases ls with
      | nil => simp
      | cons line' ls =>
          rw [List.intercalate_cons_cons, List.append_assoc, List.singleton_append,
            colored_append_blank (by decide), ih, List.exists_mem_cons_iff (a := line)]

end Quire.Tool
