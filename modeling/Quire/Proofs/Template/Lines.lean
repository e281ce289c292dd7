import Quire.Proofs.Template.Derivation

/-!
Line ends. Lines that others follow have one line end each, and whatever a reader of templates goes
over, the number of the line on which it stands and the line ends it has yet to read add up to the
same.
-/

namespace Quire

namespace Text

variable {t l : Text} {front ls : List Text}

/-- The lines behind the first one are lines by themselves, and the first one ends if any follow. -/
theorem wholeLines_of_cons (h : wholeLines t = l :: ls) :
    wholeLines ls.flatten = ls ∧ (ls ≠ [] → l.count '\n' = 1) := by
  induction t generalizing l ls with
  | nil => cases h
  | cons c t ih =>
      unfold wholeLines at h
      split at h
      · next hc =>
          obtain ⟨rfl, rfl⟩ := List.cons_eq_cons.1 h
          rw [flatten_wholeLines]
          exact ⟨rfl, fun _ => by simp [hc]⟩
      · next hc =>
          split at h
          · obtain ⟨rfl, rfl⟩ := List.cons_eq_cons.1 h
            exact ⟨rfl, fun hne => absurd rfl hne⟩
          · next m ms hms =>
              obtain ⟨rfl, rfl⟩ := List.cons_eq_cons.1 h
              obtain ⟨hlines, hcount⟩ := ih hms
              exact ⟨hlines, fun hne => by rw [List.count_cons_of_ne hc, hcount hne]⟩

/-- Lines in front of another have one line end each, and what follows them is lines by itself. -/
theorem wholeLines_of_append (h : wholeLines t = front ++ ls) (hne : ls ≠ []) :
    wholeLines ls.flatten = ls ∧ front.flatten.count '\n' = front.length := by
  induction front generalizing t with
  | nil =>
      rw [List.nil_append] at h
      rw [← h, flatten_wholeLines]
      exact ⟨rfl, rfl⟩
  | cons l front ih =>
      obtain ⟨hlines, hcount⟩ := wholeLines_of_cons h
      obtain ⟨hrest, hfront⟩ := ih hlines
      refine ⟨hrest, ?_⟩
      rw [List.flatten_cons, List.count_append, hfront, hcount (by simp [hne]), List.length_cons,
        Nat.add_comm]

end Text

namespace Template

variable {imports : List Import} {t tag a b : Text} {line start : Nat} {c : Char}

theorem lineEnds_append (a b : Text) : lineEnds (a ++ b) = lineEnds a + lineEnds b :=
  List.count_append

theorem lineEnds_cons (hc : c ≠ '\n') (t : Text) : lineEnds (c :: t) = lineEnds t :=
  List.count_cons_of_ne hc

theorem lineEnds_cons_self (t : Text) : lineEnds ('\n' :: t) = 1 + lineEnds t := by
  rw [lineEnds, List.count_cons_self, Nat.add_comm, lineEnds]

theorem lineEnds_le_of_isPrefix (h : a <+: t) : lineEnds a ≤ lineEnds t :=
  h.sublist.count_le '\n'

/-- Names of tags and attributes stand on one line. -/
theorem lineEnds_name (h : ∀ c ∈ t, isTagChar c) : lineEnds t = 0 := by
  refine List.count_eq_zero.2 fun hmem => ?_
  exact absurd (h '\n' hmem) (by decide)

/-- Taking the first stretch of a text along moves the line ends of it to the front. -/
theorem lineEnds_takeWhile_add_dropWhile (p : Char → Bool) (t : Text) :
    lineEnds (t.takeWhile p) + lineEnds (t.dropWhile p) = lineEnds t := by
  rw [← lineEnds_append, List.takeWhile_append_dropWhile]

theorem line_attributeValue {v : Read AttributeValue} (h : attributeValue tag line t = .ok v) :
    v.line + lineEnds v.rest = line + lineEnds t := by
  unfold attributeValue at h
  split at h
  · next rest =>
      split at h
      · cases h
      · next inner after hclosing =>
          obtain rfl := Except.ok.inj h
          rw [closing_eq_append hclosing, lineEnds_cons (by decide), lineEnds_append,
            lineEnds_cons (by decide), Nat.add_assoc]
  · next rest =>
      split at h
      · cases h
      · next t after hcut =>
          obtain rfl := Except.ok.inj h
          rw [Text.eq_append_of_cutFirst hcut, List.append_assoc, lineEnds_cons (by decide),
            lineEnds_append, List.singleton_append, lineEnds_cons (by decide), Nat.add_assoc]
  · cases h

theorem line_oneAttribute {a : Read Attribute} (h : oneAttribute tag line t = .ok a) :
    a.line + lineEnds a.rest = line + lineEnds t := by
  have hname : lineEnds (t.takeWhile isTagChar) = 0 :=
    lineEnds_name fun c hc => List.mem_takeWhile_imp hc
  have hsplit := lineEnds_takeWhile_add_dropWhile isTagChar t
  unfold oneAttribute at h
  split at h
  · next rest hrest =>
      obtain ⟨v, hvalue, rfl⟩ := map_eq_ok_iff.1 h
      have hline := line_attributeValue hvalue
      rw [hrest, lineEnds_cons (by decide)] at hsplit
      dsimp only
      omega
  · obtain rfl := Except.ok.inj h
    dsimp only
    omega

theorem line_attributes {as : Read (List Attribute)} (h : attributes tag start line t = .ok as) :
    as.line + lineEnds as.rest = line + lineEnds t := by
  have hsplit : ∀ t : Text,
      lineEnds (t.takeWhile Text.isBlank) + lineEnds t.trimStart = lineEnds t :=
    lineEnds_takeWhile_add_dropWhile Text.isBlank
  fun_induction attributes tag start line t generalizing as with
  | case1 => cases h
  | case2 line t =>
      rename_i c rest ht hend
      obtain rfl := Except.ok.inj h
      obtain ⟨rfl, hhead⟩ := hend
      obtain ⟨rest, rfl⟩ := List.head?_eq_some_iff.1 hhead
      have hline := hsplit t
      rw [ht, lineEnds_cons (by decide), lineEnds_cons (by decide)] at hline
      dsimp only [List.tail_cons]
      omega
  | case3 => cases h
  | case4 => cases h
  | case5 line t =>
      rename_i c rest ht _ _ hc a ha ih
      obtain ⟨more, hmore, rfl⟩ := map_eq_ok_iff.1 h
      have hrest := ih hmore
      have hone := line_oneAttribute ha
      have hline := hsplit t
      rw [ht] at hline
      dsimp only
      omega
  | case6 => cases h

theorem line_component {p : Read Piece} (h : component imports line t = .ok p) :
    p.line + lineEnds p.rest = line + lineEnds t := by
  have hname : lineEnds (t.takeWhile isTagChar) = 0 :=
    lineEnds_name fun c hc => List.mem_takeWhile_imp hc
  have hsplit := lineEnds_takeWhile_add_dropWhile isTagChar t
  simp only [component] at h
  split at h
  · obtain ⟨as, has, rfl⟩ := map_eq_ok_iff.1 h
    have hline := line_attributes has
    dsimp only
    omega
  · cases h

end Template

end Quire
