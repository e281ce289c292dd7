import Quire.Proofs.Text.Cuts

/-!
Lines and the texts that they make. Lines with something on them that do not end in a carriage
return are the lines of the text that joins them by newlines.
-/

namespace Quire.Text

variable {c : Char} {s t a b tail : Text} {ls : List Text}

theorem cutEnd?_eq_some_iff : cutEnd? tail t = some b ↔ t = b ++ tail := by
  unfold cutEnd?
  constructor
  · intro h
    split at h
    · next hsuffix =>
        obtain ⟨front, rfl⟩ := List.isSuffixOf_iff_suffix.1 hsuffix
        rw [List.length_append, Nat.add_sub_cancel, List.take_left] at h
        rw [Option.some.inj h]
    · cases h
  · rintro rfl
    rw [if_pos (List.isSuffixOf_iff_suffix.2 ⟨b, rfl⟩), List.length_append, Nat.add_sub_cancel,
      List.take_left]

theorem cutEnd?_eq_none_iff : cutEnd? tail t = none ↔ ∀ b, t ≠ b ++ tail := by
  rw [Option.eq_none_iff_forall_ne_some]
  exact forall_congr' fun b => not_congr cutEnd?_eq_some_iff

theorem dropLineEnd_of_not_mem (ht : '\n' ∉ t) : dropLineEnd t = t := by
  have hnone : cutEnd? ['\n'] t = none := by
    rw [cutEnd?_eq_none_iff]
    rintro b rfl
    exact ht (by simp)
  rw [dropLineEnd, hnone]

theorem dropLineEnd_concat (t : Text) :
    dropLineEnd (t ++ ['\n']) = (cutEnd? ['\r'] t).getD t := by
  rw [dropLineEnd]
  simp only [cutEnd?_eq_some_iff.2 (Eq.refl (t ++ ['\n']))]

theorem dropLineEnd_concat_of_ne (ht : t.getLast? ≠ some '\r') :
    dropLineEnd (t ++ ['\n']) = t := by
  have hnone : cutEnd? ['\r'] t = none := by
    rw [cutEnd?_eq_none_iff]
    rintro b rfl
    exact ht (by simp)
  rw [dropLineEnd_concat, hnone]
  rfl

theorem wholeLines_of_not_mem (hne : t ≠ []) (ht : '\n' ∉ t) : wholeLines t = [t] := by
  induction t with
  | nil => exact absurd rfl hne
  | cons c t ih =>
      rw [List.mem_cons, not_or] at ht
      rw [wholeLines, if_neg (Ne.symm ht.1)]
      cases t with
      | nil => rfl
      | cons d t => rw [ih (by simp) ht.2]

/-- A newline stands at the end of a line only. -/
theorem exists_of_mem_wholeLines {l : Text} (h : l ∈ wholeLines t) :
    ∃ b, '\n' ∉ b ∧ (l = b ∨ l = b ++ ['\n']) := by
  induction t generalizing l with
  | nil => cases h
  | cons c t ih =>
      unfold wholeLines at h
      split at h
      · next hc =>
          rcases List.mem_cons.1 h with rfl | h
          · exact ⟨[], by simp, Or.inr (by rw [hc]; rfl)⟩
          · exact ih h
      · next hc =>
          split at h
          · rw [List.mem_singleton.1 h]
            exact ⟨[c], by simpa using Ne.symm hc, Or.inl rfl⟩
          · next l' ls heq =>
              rcases List.mem_cons.1 h with rfl | h
              · obtain ⟨b, hb, hl⟩ := ih (heq ▸ List.mem_cons_self)
                refine ⟨c :: b, by simp [hb, Ne.symm hc], ?_⟩
                rcases hl with rfl | rfl
                · exact Or.inl rfl
                · exact Or.inr rfl
              · exact ih (heq ▸ List.mem_cons_of_mem l' h)

theorem not_mem_of_mem_lines {l : Text} (h : l ∈ lines t) : '\n' ∉ l := by
  obtain ⟨whole, hwhole, rfl⟩ := List.mem_map.1 h
  obtain ⟨b, hb, rfl | rfl⟩ := exists_of_mem_wholeLines hwhole
  · rwa [dropLineEnd_of_not_mem hb]
  · rw [dropLineEnd_concat]
    cases hcut : cutEnd? ['\r'] b with
    | none => exact hb
    | some front =>
        rw [cutEnd?_eq_some_iff.1 hcut, List.mem_append, not_or] at hb
        exact hb.1

/-- Lines are told apart again after they are joined. -/
theorem lines_intercalate (hls : ∀ l ∈ ls, l ≠ [] ∧ '\n' ∉ l ∧ l.getLast? ≠ some '\r') :
    lines (['\n'].intercalate ls) = ls := by
  induction ls with
  | nil => rfl
  | cons l ls ih =>
      obtain ⟨hne, hnewline, hreturn⟩ := hls l List.mem_cons_self
      cases ls with
      | nil =>
          rw [List.intercalate_singleton, lines, wholeLines_of_not_mem hne hnewline]
          exact congrArg (· :: []) (dropLineEnd_of_not_mem hnewline)
      | cons l' ls =>
          have htail := ih fun x hx => hls x (List.mem_cons_of_mem l hx)
          rw [List.intercalate_cons_cons, List.append_assoc, List.singleton_append, lines,
            wholeLines_append hnewline, List.map_cons, dropLineEnd_concat_of_ne hreturn]
          exact congrArg (l :: ·) htail

theorem prefix_of_prefix_append_cons (hc : c ∉ s) (h : s <+: a ++ c :: b) : s <+: a := by
  rcases List.prefix_or_prefix_of_prefix h (List.prefix_append a (c :: b)) with h' | ⟨x, rfl⟩
  · exact h'
  · cases x with
    | nil => simp
    | cons d x =>
        have hd := (List.cons_prefix_cons.1 ((List.prefix_append_right_inj a).1 h)).1
        exact absurd (by simp [hd]) hc

theorem infix_append_cons (hc : c ∉ s) : s <:+: a ++ c :: b ↔ s <:+: a ∨ s <:+: b := by
  constructor
  · induction a with
    | nil =>
        intro h
        rcases List.infix_cons_iff.1 h with hstart | h
        · exact Or.inl (prefix_of_prefix_append_cons (a := []) hc hstart).isInfix
        · exact Or.inr h
    | cons d a ih =>
        intro h
        rcases List.infix_cons_iff.1 h with hstart | h
        · exact Or.inl (prefix_of_prefix_append_cons (a := d :: a) hc hstart).isInfix
        · exact (ih h).imp_left List.infix_cons
  · rintro (h | h)
    · exact h.trans (List.prefix_append _ _).isInfix
    · exact h.trans ((List.suffix_cons c b).trans (List.suffix_append a _)).isInfix

end Quire.Text
