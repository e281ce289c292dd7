import Mathlib.Data.List.Basic
import Mathlib.Data.List.TakeWhile
import Quire.Text.Blank

/-!
Where a text is cut. A run of characters of one class, or of lines of one class, ends at the first
one outside the class, a cut at a character ends at its first occurrence, and the lines of a text
make it up again.
-/

namespace Quire.Text

section Runs

variable {α : Type} {p : α → Bool} {c : α} {t front rest : List α}

/-- What stands first, if anything does, is outside of a class. -/
def StopsAt (p : α → Bool) (t : List α) : Prop := ∀ c, t.head? = some c → p c = false

theorem stopsAt_nil : StopsAt p [] := by simp [StopsAt]

theorem stopsAt_cons : StopsAt p (c :: t) ↔ p c = false := by simp [StopsAt]

theorem stopsAt_dropWhile (p : α → Bool) (t : List α) : StopsAt p (t.dropWhile p) := by
  intro c hc
  have hnot := List.head?_dropWhile_not p t
  rwa [hc] at hnot

theorem takeWhile_run (hfront : ∀ c ∈ front, p c) (hrest : StopsAt p rest) :
    (front ++ rest).takeWhile p = front := by
  rw [List.takeWhile_append_of_pos hfront]
  cases rest with
  | nil => simp
  | cons c rest => simp [stopsAt_cons.1 hrest]

theorem dropWhile_run (hfront : ∀ c ∈ front, p c) (hrest : StopsAt p rest) :
    (front ++ rest).dropWhile p = rest := by
  rw [List.dropWhile_append_of_pos hfront]
  cases rest with
  | nil => rfl
  | cons c rest => simp [stopsAt_cons.1 hrest]

/-- A run of a class can be told from what follows it. -/
theorem eq_of_run {front' rest' : List α} (hfront : ∀ c ∈ front, p c) (hrest : StopsAt p rest)
    (hfront' : ∀ c ∈ front', p c) (hrest' : StopsAt p rest') (h : front ++ rest = front' ++ rest') :
    front = front' ∧ rest = rest' := by
  constructor
  · rw [← takeWhile_run hfront hrest, h, takeWhile_run hfront' hrest']
  · rw [← dropWhile_run hfront hrest, h, dropWhile_run hfront' hrest']

theorem head?_append_ne (hfront : front.head? ≠ some c) (hrest : rest.head? ≠ some c) :
    (front ++ rest).head? ≠ some c := by
  cases front with
  | nil => exact hrest
  | cons d front => exact hfront

end Runs

variable {c : Char} {t rest a b : Text}

theorem isPrefixOf?_iff {head : Text} : head.isPrefixOf? t = some rest ↔ t = head ++ rest :=
  List.isPrefixOf?_eq_some_iff_append_eq.trans eq_comm

theorem cutFirst_singleton_iff : cutFirst [c] t = some (a, b) ↔ t = a ++ c :: b ∧ c ∉ a := by
  induction t generalizing a with
  | nil => simp [cutFirst]
  | cons x t ih =>
      by_cases hx : c = x
      · subst hx
        have hhead : List.isPrefixOf? [c] (c :: t) = some t := isPrefixOf?_iff.2 rfl
        rw [cutFirst, hhead]
        cases a with
        | nil => simp [eq_comm]
        | cons y a =>
            simp only [Option.some.injEq, Prod.mk.injEq, reduceCtorEq, false_and, List.cons_append,
              List.cons.injEq, List.mem_cons, not_or, false_iff, not_and, not_not]
            intro hy hne
            exact absurd hy.1 hne
      · have hhead : List.isPrefixOf? [c] (x :: t) = none := by simp [List.isPrefixOf?, hx]
        rw [cutFirst, hhead]
        cases a with
        | nil => simp [Ne.symm hx]
        | cons y a =>
            simp only [Option.map_eq_some_iff, Prod.mk.injEq, Prod.exists, List.cons.injEq,
              List.cons_append, List.mem_cons, not_or]
            constructor
            · rintro ⟨a', b', hcut, ⟨rfl, rfl⟩, rfl⟩
              obtain ⟨ht, hc⟩ := ih.1 hcut
              exact ⟨⟨rfl, ht⟩, hx, hc⟩
            · rintro ⟨⟨rfl, ht⟩, -, hc⟩
              exact ⟨a, b, ih.2 ⟨ht, hc⟩, ⟨rfl, rfl⟩, rfl⟩

theorem cutFirst_singleton_eq_none_iff : cutFirst [c] t = none ↔ c ∉ t := by
  rw [Option.eq_none_iff_forall_ne_some]
  constructor
  · intro h hmem
    obtain ⟨a, b, ht, ha⟩ := List.eq_append_cons_of_mem hmem
    exact h (a, b) (cutFirst_singleton_iff.2 ⟨ht, ha⟩)
  · rintro h ⟨a, b⟩ hcut
    rw [(cutFirst_singleton_iff.1 hcut).1] at h
    simp at h

theorem trim_eq_nil_iff : t.trim = [] ↔ ∀ c ∈ t, isBlank c := by
  constructor
  · intro h c hc
    have hstart : ∀ d ∈ t.trimStart, isBlank d := by
      intro d hd
      rw [trim, trimEnd, List.reverse_eq_nil_iff, List.dropWhile_eq_nil_iff] at h
      exact h d (List.mem_reverse.2 hd)
    rw [← List.takeWhile_append_dropWhile (p := isBlank) (l := t)] at hc
    rcases List.mem_append.1 hc with hc | hc
    · exact List.mem_takeWhile_imp hc
    · exact hstart c hc
  · intro h
    have hstart : t.trimStart = [] := List.dropWhile_eq_nil_iff.2 h
    rw [trim, hstart]
    rfl

/-- A text without blanks at its ends does not end in a stretch of blanks. -/
theorem exists_not_isBlank_of_trim (h : t.trim = a ++ b) (hb : b ≠ []) : ∃ c ∈ b, ¬ isBlank c := by
  have hstop := stopsAt_dropWhile isBlank t.trimStart.reverse
  rw [show t.trimStart.reverse.dropWhile isBlank = b.reverse ++ a.reverse by
    rw [← List.reverse_append, ← h, trim, trimEnd, List.reverse_reverse]] at hstop
  obtain ⟨front, c, rfl⟩ := (List.eq_nil_or_concat b).resolve_left hb
  rw [List.concat_eq_append, List.reverse_append, List.reverse_singleton, List.singleton_append,
    List.cons_append, stopsAt_cons] at hstop
  exact ⟨c, by simp, by simp [hstop]⟩

theorem flatten_wholeLines (t : Text) : (wholeLines t).flatten = t := by
  induction t with
  | nil => rfl
  | cons c t ih =>
      unfold wholeLines
      split
      · simp [ih]
      · split
        · next h => rw [← ih, h]; rfl
        · next l ls h => rw [← ih, h]; rfl

theorem wholeLines_cons (c : Char) (t : Text) : ∃ l ls, wholeLines (c :: t) = (c :: l) :: ls := by
  unfold wholeLines
  split
  · exact ⟨[], _, rfl⟩
  · split
    · exact ⟨[], [], rfl⟩
    · exact ⟨_, _, rfl⟩

/-- A line that ends is the first of the lines. -/
theorem wholeLines_append (ht : '\n' ∉ t) (rest : Text) :
    wholeLines (t ++ '\n' :: rest) = (t ++ ['\n']) :: wholeLines rest := by
  induction t with
  | nil => simp [wholeLines]
  | cons c t ih =>
      rw [List.mem_cons, not_or] at ht
      rw [List.cons_append, wholeLines, if_neg (Ne.symm ht.1), ih ht.2]
      rfl

end Quire.Text
