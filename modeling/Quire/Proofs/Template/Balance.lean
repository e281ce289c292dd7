import Mathlib.Data.List.Basic
import Mathlib.Data.List.Induction
import Mathlib.Data.List.TakeWhile
import Quire.Template.Braces
import Quire.Text.Blank

/-!
What stands between braces. Balanced text is the grammar that a reader of an expression counts
braces by: plain characters, quoted stretches in which a backslash takes the next character along,
and groups in braces. Main statement: what is read up to the closing brace is balanced, and every
balanced text is read up to the brace behind it.
-/

namespace Quire

namespace Template

/-- What stands in a stretch quoted by `q`. -/
inductive Enclosed (q : Char) : Text → Prop
  | nil : Enclosed q []
  | plain {c : Char} {rest : Text} (hslash : c ≠ '\\') (hquote : c ≠ q) (hrest : Enclosed q rest) :
      Enclosed q (c :: rest)
  | escaped {c : Char} {rest : Text} (hrest : Enclosed q rest) : Enclosed q ('\\' :: c :: rest)

/-- A character that neither quotes nor counts as a brace. -/
def isInert (c : Char) : Bool := !isQuote c && c ≠ '{' && c ≠ '}'

/-- Braces in balance outside quoted stretches. -/
inductive Balanced : Text → Prop
  | nil : Balanced []
  | inert {c : Char} {rest : Text} (hc : isInert c) (hrest : Balanced rest) : Balanced (c :: rest)
  | quoted {q : Char} {inner rest : Text} (hq : isQuote q) (hinner : Enclosed q inner)
      (hrest : Balanced rest) : Balanced (q :: (inner ++ q :: rest))
  | group {inner rest : Text} (hinner : Balanced inner) (hrest : Balanced rest) :
      Balanced ('{' :: (inner ++ '}' :: rest))

variable {q c : Char} {t a b inner after : Text} {depth : Nat}

theorem not_isQuote_of_isInert (h : isInert c) : isQuote c = false ∧ c ≠ '{' ∧ c ≠ '}' := by
  simpa [isInert, and_assoc] using h

theorem Balanced.append (ha : Balanced a) (hb : Balanced b) : Balanced (a ++ b) := by
  induction ha with
  | nil => exact hb
  | inert hc _ ih => exact .inert hc ih
  | @quoted q inner rest hq hinner _ ih =>
      rw [List.cons_append, List.append_assoc, List.cons_append]
      exact .quoted hq hinner ih
  | @group inner rest hinner _ _ ih =>
      rw [List.cons_append, List.append_assoc, List.cons_append]
      exact .group hinner ih

theorem balanced_of_inert (h : t.all isInert) : Balanced t := by
  induction t with
  | nil => exact .nil
  | cons c t ih =>
      rw [List.all_cons, Bool.and_eq_true] at h
      exact .inert h.1 (ih h.2)

/-- A group by itself. -/
theorem Balanced.braces (h : Balanced t) : Balanced ('{' :: (t ++ ['}'])) := .group h .nil

theorem closing_enclosed (h : Enclosed q inner) (hq : isQuote q) (depth : Nat) (t : Text) :
    closing (.quoted q) depth (inner ++ q :: t) =
      (closing .code depth t).map fun (i, after) => (inner ++ q :: i, after) := by
  have hslash : q ≠ '\\' := by
    rintro rfl
    cases hq
  induction h with
  | nil => simp [closing, Reading.next, hslash]
  | plain hs hne _ ih => simp [closing, Reading.next, hs, hne, ih, Function.comp_def]
  | escaped _ ih => simp [closing, Reading.next, ih, Function.comp_def]

/-- Balanced text changes nothing about where a reader finds the closing brace. -/
theorem closing_append (h : Balanced b) (depth : Nat) (t : Text) :
    closing .code depth (b ++ t) =
      (closing .code depth t).map fun (i, after) => (b ++ i, after) := by
  induction h generalizing depth t with
  | nil => simp
  | inert hc _ ih =>
      obtain ⟨hq, hopen, hclose⟩ := not_isQuote_of_isInert hc
      simp [closing, Reading.next, hq, hopen, hclose, ih, Function.comp_def]
  | @quoted q inner rest hq hinner _ ih =>
      have hopen : q ≠ '{' := by
        rintro rfl
        cases hq
      have hclose : q ≠ '}' := by
        rintro rfl
        cases hq
      simp [closing, Reading.next, hq, hopen, hclose, closing_enclosed hinner hq, ih,
        Function.comp_def]
  | group _ _ ihinner ihrest =>
      simp [closing, Reading.next, isQuote, ihinner, ihrest, Function.comp_def]

/-- What a reader goes over up to the closing brace, `depth` braces being open inside. -/
inductive Closes : Nat → Text → Prop
  | balanced {b : Text} (h : Balanced b) : Closes 0 b
  | brace {depth : Nat} {b rest : Text} (h : Balanced b) (hrest : Closes depth rest) :
      Closes (depth + 1) (b ++ '}' :: rest)

theorem Closes.append (ha : Balanced a) (h : Closes depth t) : Closes depth (a ++ t) := by
  cases h with
  | balanced h => exact .balanced (ha.append h)
  | brace h hrest =>
      rw [← List.append_assoc]
      exact .brace (ha.append h) hrest

/-- What a reader goes over that stands in code or in a quoted stretch. -/
def Reading.Ends : Reading → Nat → Text → Prop
  | .code, depth, t => Closes depth t
  | .quoted q, depth, t => isQuote q → ∃ e rest, t = e ++ q :: rest ∧ Enclosed q e ∧ Closes depth rest
  | .escaped q, depth, t => isQuote q →
      ∃ c e rest, t = c :: (e ++ q :: rest) ∧ Enclosed q e ∧ Closes depth rest

/-- A reader in code that takes one more character, which does not close. -/
theorem ends_code_cons (hclose : c ≠ '}')
    (h : (Reading.next .code c).Ends (if c = '{' then depth + 1 else depth) inner) :
    Reading.Ends .code depth (c :: inner) := by
  by_cases hquote : isQuote c
  · have hopen : c ≠ '{' := by
      rintro rfl
      cases hquote
    simp only [Reading.next, hquote, if_true, hopen, if_false] at h
    obtain ⟨e, rest, rfl, he, hcloses⟩ := h hquote
    have hstretch : Balanced (c :: (e ++ [c])) := .quoted hquote he .nil
    simpa [Reading.Ends] using Closes.append hstretch hcloses
  · by_cases hopen : c = '{'
    · subst hopen
      simp only [Reading.next, hquote, if_true] at h
      -- the group that is open here ends where the reader comes up again
      cases h with
      | brace hb hcloses => simpa [Reading.Ends] using Closes.append hb.braces hcloses
    · simp only [Reading.next, hquote, hopen, if_false] at h
      have hc : isInert c := by simp [isInert, hquote, hopen, hclose]
      exact Closes.append (.inert hc .nil) h

/-- A reader in a quoted stretch that takes one more character. -/
theorem ends_quoted_cons (h : (Reading.next (.quoted q) c).Ends depth inner) :
    Reading.Ends (.quoted q) depth (c :: inner) := by
  intro hq
  by_cases hslash : c = '\\'
  · subst hslash
    simp only [Reading.next, if_true] at h
    obtain ⟨d, e, rest, rfl, he, hcloses⟩ := h hq
    exact ⟨'\\' :: d :: e, rest, rfl, .escaped he, hcloses⟩
  · by_cases hend : c = q
    · subst hend
      simp only [Reading.next, hslash, if_false, if_true] at h
      exact ⟨[], inner, rfl, .nil, h⟩
    · simp only [Reading.next, hslash, hend, if_false] at h
      obtain ⟨e, rest, rfl, he, hcloses⟩ := h hq
      exact ⟨c :: e, rest, rfl, .plain hslash hend he, hcloses⟩

/-- A reader behind a backslash that takes the character there. -/
theorem ends_escaped_cons (h : (Reading.next (.escaped q) c).Ends depth inner) :
    Reading.Ends (.escaped q) depth (c :: inner) := by
  intro hq
  obtain ⟨e, rest, rfl, he, hcloses⟩ := h hq
  exact ⟨c, e, rest, rfl, he, hcloses⟩

theorem ends_of_closing {at' : Reading} (h : closing at' depth t = some (inner, after)) :
    at'.Ends depth inner := by
  induction t generalizing at' depth inner after with
  | nil => simp [closing] at h
  | cons c t ih =>
      unfold closing at h
      cases at' with
      | code =>
          by_cases hclose : c = '}'
          · subst hclose
            cases depth with
            | zero =>
                simp only [and_self, if_true, Option.some.injEq, Prod.mk.injEq] at h
                rw [← h.1]
                exact .balanced .nil
            | succ depth =>
                simp only [and_self, if_true, Option.map_eq_some_iff, Prod.mk.injEq] at h
                obtain ⟨⟨i, a⟩, hi, rfl, -⟩ := h
                exact .brace .nil (ih hi)
          · simp only [hclose, and_false, if_false, true_and, Option.map_eq_some_iff,
              Prod.mk.injEq] at h
            obtain ⟨⟨i, a⟩, hi, rfl, -⟩ := h
            exact ends_code_cons hclose (ih hi)
      | quoted q =>
          simp only [reduceCtorEq, false_and, if_false, Option.map_eq_some_iff, Prod.mk.injEq] at h
          obtain ⟨⟨i, a⟩, hi, rfl, -⟩ := h
          exact ends_quoted_cons (ih hi)
      | escaped q =>
          simp only [reduceCtorEq, false_and, if_false, Option.map_eq_some_iff, Prod.mk.injEq] at h
          obtain ⟨⟨i, a⟩, hi, rfl, -⟩ := h
          exact ends_escaped_cons (ih hi)

/-- A reader of an expression stops at the brace that balanced text is followed by. -/
theorem closing_eq_some_iff :
    closing .code 0 t = some (inner, after) ↔ t = inner ++ '}' :: after ∧ Balanced inner := by
  constructor
  · intro h
    refine ⟨closing_eq_append h, ?_⟩
    cases ends_of_closing h with
    | balanced hinner => exact hinner
  · rintro ⟨rfl, hinner⟩
    simp [closing_append hinner, closing]

/-- Balanced text can be told from what follows the brace behind it. -/
theorem Balanced.unique {inner' after' : Text} (h : Balanced inner) (h' : Balanced inner')
    (heq : inner ++ '}' :: after = inner' ++ '}' :: after') : inner = inner' ∧ after = after' := by
  have hread : closing .code 0 (inner ++ '}' :: after) = some (inner, after) :=
    closing_eq_some_iff.2 ⟨rfl, h⟩
  have hread' : closing .code 0 (inner ++ '}' :: after) = some (inner', after') :=
    closing_eq_some_iff.2 ⟨heq, h'⟩
  exact Prod.mk.inj (Option.some.inj (hread.symm.trans hread'))

theorem isInert_of_isBlank (h : Text.isBlank c) : isInert c := by
  have hne : ∀ d : Char, Text.isBlank d = false → c ≠ d := by
    rintro d hd rfl
    rw [h] at hd
    cases hd
  simp [isInert, isQuote, hne '"' (by decide), hne '\'' (by decide), hne '\x60' (by decide),
    hne '{' (by decide), hne '}' (by decide)]

theorem Balanced.dropWhile_isBlank (h : Balanced t) : Balanced (t.dropWhile Text.isBlank) := by
  induction h with
  | nil => exact .nil
  | @inert c rest hc hrest ih =>
      by_cases hblank : Text.isBlank c
      · rw [List.dropWhile_cons_of_pos hblank]
        exact ih
      · rw [List.dropWhile_cons_of_neg hblank]
        exact .inert hc hrest
  | @quoted q inner rest hq hinner hrest ih =>
      have hblank : ¬ Text.isBlank q := fun hblank =>
        absurd (not_isQuote_of_isInert (isInert_of_isBlank hblank)).1 (by simp [hq])
      rw [List.dropWhile_cons_of_neg hblank]
      exact .quoted hq hinner hrest
  | group hinner hrest =>
      rw [List.dropWhile_cons_of_neg (by decide)]
      exact .group hinner hrest

/-- What ends in a character has it behind every other one. -/
theorem exists_front_of_concat {x : Char} (front : Text) {rest : Text} (hx : x ≠ c)
    (h : t ++ [c] = front ++ x :: rest) : ∃ back, rest = back ++ [c] ∧ t = front ++ x :: back := by
  rcases List.eq_nil_or_concat' rest with rfl | ⟨back, d, rfl⟩
  · exact absurd (List.singleton_inj.1 (List.append_inj' h rfl).2).symm hx
  · have hsplit : t ++ [c] = (front ++ x :: back) ++ [d] := by simpa using h
    obtain ⟨rfl, hd⟩ := List.append_inj' hsplit rfl
    exact ⟨back, by rw [hd], rfl⟩

/-- An inert character at the end can be left out. -/
theorem Balanced.of_concat (hc : isInert c) (h : Balanced (t ++ [c])) : Balanced t := by
  generalize hs : t ++ [c] = s at h
  obtain ⟨hquote, -, hclose⟩ := not_isQuote_of_isInert hc
  induction h generalizing t with
  | nil => simp at hs
  | @inert d rest hd _ ih =>
      cases t with
      | nil => exact .nil
      | cons x t =>
          obtain ⟨rfl, rfl⟩ := List.cons_eq_cons.1 hs
          exact .inert hd (ih rfl)
  | @quoted q inner rest hq hinner _ ih =>
      have hne : q ≠ c := by
        rintro rfl
        simp [hquote] at hq
      obtain ⟨back, rfl, rfl⟩ := exists_front_of_concat (q :: inner) hne hs
      exact .quoted hq hinner (ih rfl)
  | @group inner rest hinner _ _ ih =>
      obtain ⟨back, rfl, rfl⟩ := exists_front_of_concat ('{' :: inner) hclose.symm hs
      exact .group hinner (ih rfl)

theorem Balanced.of_append_blanks (hb : ∀ c ∈ b, Text.isBlank c) (h : Balanced (t ++ b)) :
    Balanced t := by
  induction b using List.reverseRecOn with
  | nil => simpa using h
  | append_singleton b c ih =>
      rw [← List.append_assoc] at h
      refine ih (fun x hx => hb x (List.mem_append_left [c] hx)) ?_
      exact Balanced.of_concat (isInert_of_isBlank (hb c (by simp))) h

theorem Balanced.trim (h : Balanced t) : Balanced t.trim := by
  have hstart : Balanced t.trimStart := h.dropWhile_isBlank
  refine Balanced.of_append_blanks (b := (t.trimStart.reverse.takeWhile Text.isBlank).reverse) ?_ ?_
  · intro c hc
    exact List.mem_takeWhile_imp (List.mem_reverse.1 hc)
  · have hjoin : t.trim ++ (t.trimStart.reverse.takeWhile Text.isBlank).reverse = t.trimStart := by
      rw [Text.trim, Text.trimEnd, ← List.reverse_append, List.takeWhile_append_dropWhile,
        List.reverse_reverse]
    rwa [hjoin]

example : Balanced "a\"\x7d\"\x7bb\x7d".toList :=
  (closing_eq_some_iff.1 (by decide : closing .code 0 "a\"\x7d\"\x7bb\x7d\x7dc".toList =
    some ("a\"\x7d\"\x7bb\x7d".toList, "c".toList))).2

end Template

end Quire
