import Mathlib.Tactic.IntervalCases
import Quire.Script.Lexeme
import Quire.Text.Quoted

/-!
The token at the head of a text, with the rest of the text left as it is. Main statements:
`Starts.of_gap`, since blanks before a token say nothing; `starts_word`; and `starts_quoted`, since a
quoted text is one string whatever it holds and whatever follows it.
-/

namespace Quire.Script

open Text (quoted escape hexDigit)

variable {c q : Char} {t u w rest : Text} {l : Lexeme}

/-- A text whose first token is made of a lexeme, and what the token leaves. -/
structure Starts (t : Text) (l : Lexeme) (rest : Text) : Prop where
  lexeme : (token t).1.lexeme = l
  rest : (token t).2 = rest

/-! Gaps. -/

/-- That a line has ended changes nothing about where a gap ends. -/
theorem skipGap_lineEnded (gap : Gap) (before after : Bool) (t : Text) :
    (skipGap gap before t).1 = (skipGap gap after t).1 ∧
      (skipGap gap before t).2.2 = (skipGap gap after t).2.2 := by
  fun_induction skipGap gap before t generalizing after with
  | case1 => simp [skipGap]
  | case2 _ c _ hend ih => simp [skipGap, hend]
  | case3 _ c _ hend ih => simpa [skipGap, hend] using ih after
  | case4 _ _ c _ hstar ih => simpa [skipGap, hstar] using ih after
  | case5 _ _ c _ hstar ih => simpa [skipGap, hstar] using ih (after || isLineEnd c)
  | case6 _ _ ih => simpa [skipGap] using ih after
  | case7 _ _ ih => simpa [skipGap] using ih after
  | case8 _ c _ hline hblock hend ih => simp [skipGap, hend]
  | case9 _ c _ hline hblock hend hblank ih =>
      simpa [skipGap, hline, hblock, hend, hblank] using ih after
  | case10 _ c _ hline hblock hend hblank => simp [skipGap, hend, hblank]

/-- Whether a line ends before a token is all that a gap tells. -/
theorem token_eq_of_skipGap (lineEnded : Bool)
    (h : skipGap .between false t = skipGap .between lineEnded u) :
    (token t).1.lexeme = (token u).1.lexeme ∧ (token t).2 = (token u).2 := by
  obtain ⟨hgap, hrest⟩ := skipGap_lineEnded .between lineEnded false u
  rw [← h] at hgap hrest
  unfold token
  rcases hu : skipGap .between false u with ⟨gap, endedU, restU⟩
  rcases ht : skipGap .between false t with ⟨gap', endedT, restT⟩
  rw [hu, ht] at hgap hrest
  dsimp only at hgap hrest
  subst hgap hrest
  cases gap' <;> exact ⟨rfl, rfl⟩

/-- The characters of the gaps between tokens that are not in comments. -/
def isGapChar (c : Char) : Bool := c = ' ' || c = '\n'

theorem token_of_gap {gap : Text} (hgap : gap.all isGapChar) (t : Text) :
    (token (gap ++ t)).1.lexeme = (token t).1.lexeme ∧ (token (gap ++ t)).2 = (token t).2 := by
  induction gap with
  | nil => exact ⟨rfl, rfl⟩
  | cons c gap ih =>
      rw [List.all_cons, Bool.and_eq_true] at hgap
      obtain ⟨hc, hgap⟩ := hgap
      obtain ⟨hlexeme, hrest⟩ := ih hgap
      have hskip : (token (c :: (gap ++ t))).1.lexeme = (token (gap ++ t)).1.lexeme ∧
          (token (c :: (gap ++ t))).2 = (token (gap ++ t)).2 := by
        simp only [isGapChar, Bool.or_eq_true, decide_eq_true_eq] at hc
        rcases hc with rfl | rfl
        · exact token_eq_of_skipGap false (by simp [skipGap, isLineEnd, isBlank])
        · exact token_eq_of_skipGap true (by simp [skipGap, isLineEnd])
      exact ⟨hskip.1.trans hlexeme, hskip.2.trans hrest⟩

theorem Starts.of_gap (gap : Text) (hgap : gap.all isGapChar) (h : Starts t l rest) :
    Starts (gap ++ t) l rest := by
  obtain ⟨hlexeme, hrest⟩ := token_of_gap hgap t
  exact ⟨hlexeme.trans h.lexeme, hrest.trans h.rest⟩

theorem skipGap_line (hl : t.all fun c => !isLineEnd c) (lineEnded : Bool) (u : Text) :
    skipGap .line lineEnded (t ++ '\n' :: u) = skipGap .between true u := by
  induction t with
  | nil => simp [skipGap, isLineEnd]
  | cons c t ih =>
      rw [List.all_cons, Bool.and_eq_true, Bool.not_eq_true'] at hl
      rw [List.cons_append, skipGap, if_neg (by simp [hl.1]), ih hl.2]

/-- A comment to the end of a line is a gap. -/
theorem token_of_comment (hl : t.all fun c => !isLineEnd c) (u : Text) :
    (token ('/' :: '/' :: (t ++ '\n' :: u))).1.lexeme = (token u).1.lexeme ∧
      (token ('/' :: '/' :: (t ++ '\n' :: u))).2 = (token u).2 :=
  token_eq_of_skipGap true (by rw [skipGap, skipGap_line hl])

/-- A character that belongs to no gap, whatever follows it. -/
def isSolid (c : Char) : Bool := !isLineEnd c && !isBlank c && c ≠ '/'

theorem starts_of_isSolid (hc : isSolid c) (t : Text) :
    Starts (c :: t) (lexeme (c :: t)).1 (lexeme (c :: t)).2 := by
  simp only [isSolid, Bool.and_eq_true, Bool.not_eq_true', decide_eq_true_eq] at hc
  have hskip : skipGap .between false (c :: t) = (.between, false, c :: t) := by
    rw [skipGap.eq_6 _ _ _ (fun _ h => absurd h hc.2) (fun _ h => absurd h hc.2)]
    simp [hc]
  constructor <;> rw [token, hskip]

/-! Words. -/

/-- A text before which every word ends. -/
def Stops (t : Text) : Prop := ∀ c ∈ t.head?, c ≠ '\\' ∧ isWordPart c = false

theorem wordTail_append (hu : Stops u) (hw : w.all isWordPart) (steps : Text)
    (hsteps : w.length < steps.length) : wordTail false steps (w ++ u) = some (w, false, u) := by
  induction w generalizing steps with
  | nil =>
      cases steps with
      | nil => exact absurd hsteps (Nat.lt_irrefl 0)
      | cons s steps =>
          cases u with
          | nil => rfl
          | cons c u =>
              obtain ⟨hslash, hpart⟩ := hu c rfl
              rw [List.nil_append, wordTail.eq_5 _ _ _ _ _ hslash]
              simp [hpart]
  | cons c w ih =>
      rw [List.all_cons, Bool.and_eq_true] at hw
      obtain ⟨hc, hw⟩ := hw
      cases steps with
      | nil => exact absurd hsteps (Nat.not_lt_zero _)
      | cons s steps =>
          have hslash : c ≠ '\\' := by rintro rfl; exact absurd hc (by decide)
          rw [List.cons_append, wordTail.eq_5 _ _ _ _ _ hslash]
          simp [hc, ih hw steps (Nat.lt_of_succ_lt_succ hsteps)]

theorem ne_of_isAlpha {d : Char} (hc : c.isAlpha) (hd : d.isAlpha = false) : c ≠ d := by
  rintro rfl
  exact absurd hc (by simp [hd])

/-- The numbers of the plain letters. -/
theorem isAlpha_iff : c.isAlpha ↔ 65 ≤ c.toNat ∧ c.toNat ≤ 90 ∨ 97 ≤ c.toNat ∧ c.toNat ≤ 122 := by
  have halpha : c.isAlpha =
      (decide ('A' ≤ c ∧ c ≤ 'Z') || ('a' ≤ c && c ≤ 'z')) := rfl
  have hnumbers : 'A'.toNat = 65 ∧ 'Z'.toNat = 90 ∧ 'a'.toNat = 97 ∧ 'z'.toNat = 122 := by decide
  simp only [halpha, Bool.or_eq_true, Bool.and_eq_true, decide_eq_true_eq, Char.le_def,
    UInt32.le_iff_toNat_le, Char.toNat_val, hnumbers]

theorem toNat_lt_of_isAlpha (hc : c.isAlpha) : c.toNat < 0x80 := by
  have := isAlpha_iff.1 hc
  omega

theorem toNat_lt_of_isDigit (hc : c.isDigit) : c.toNat < 0x80 := by
  have hdigit : c.isDigit = ('0' ≤ c && c ≤ '9') := rfl
  have hnumber : '9'.toNat = 57 := by decide
  simp only [hdigit, Bool.and_eq_true, decide_eq_true_eq, Char.le_def, UInt32.le_iff_toNat_le,
    Char.toNat_val, hnumber] at hc
  omega

theorem isDigit_of_isAlpha (hc : c.isAlpha) : c.isDigit = false := by
  have hdigit : c.isDigit = ('0' ≤ c && c ≤ '9') := rfl
  have hnumber : '9'.toNat = 57 := by decide
  simp only [hdigit, Bool.and_eq_false_iff, decide_eq_false_iff_not, Char.le_def,
    UInt32.le_iff_toNat_le, Char.toNat_val, hnumber]
  have := isAlpha_iff.1 hc
  omega

theorem isSolid_of_isAlpha (hc : c.isAlpha) : isSolid c := by
  have hlt := toNat_lt_of_isAlpha hc
  have hne : ∀ d : Char, d.isAlpha = false → c ≠ d := fun d hd => ne_of_isAlpha hc hd
  have hwide : ¬ '\u2000' ≤ c := by
    intro hle
    have : (0x2000 : Nat) ≤ c.toNat := hle
    omega
  simp [isSolid, isLineEnd, isBlank, hne, hwide]

/-- A word of plain letters, written as it is. -/
theorem starts_word (hc : c.isAlpha) (hw : w.all isWordPart) (hu : Stops u) :
    Starts (c :: (w ++ u)) (.word (c :: w) false) u := by
  have hstart : isWordStart c := by simp [isWordStart, toNat_lt_of_isAlpha hc, hc]
  have hne : ∀ d : Char, d.isAlpha = false → c ≠ d := fun d hd => ne_of_isAlpha hc hd
  have hsteps : w.length < (c :: (w ++ u)).length := by
    simp only [List.length_cons, List.length_append]
    omega
  have htail : wordTail true (' ' :: c :: (w ++ u)) (c :: (w ++ u)) = some (c :: w, false, u) := by
    rw [wordTail.eq_5 _ _ _ _ _ (hne _ (by decide))]
    simp [hstart, wordTail_append hu hw (c :: (w ++ u)) hsteps]
  have hlexeme : lexeme (c :: (w ++ u)) = (.word (c :: w) false, u) := by
    simp [lexeme, hne, isDigit_of_isAlpha hc, hstart, htail]
  have h := starts_of_isSolid (isSolid_of_isAlpha hc) (w ++ u)
  rwa [hlexeme] at h

/-! Strings. -/

theorem escape?_control {n : Nat} (hn : n < 32) (rest : Text) :
    escape? ('u' :: '0' :: '0' :: hexDigit (n / 16) :: hexDigit (n % 16) :: rest) =
      some ([n], rest) := by
  interval_cases n <;> rfl

/-- A character between quotes is written as it is or behind a backslash, and read again then. -/
theorem escape_cases_read (c : Char) :
    (∃ e, escape c = '\\' :: e ∧ ∀ rest, escape? (e ++ rest) = some ([c.toNat], rest)) ∨
      c ≠ '"' ∧ c ≠ '\\' ∧ c ≠ '\n' ∧ c ≠ '\r' ∧ escape c = [c] := by
  generalize hescape : escape c = escaped
  unfold escape at hescape
  split_ifs at hescape with hquote hslash hb hf hn hr ht hsmall <;> subst escaped
  · exact .inl ⟨['"'], rfl, fun rest => by subst c; rfl⟩
  · exact .inl ⟨['\\'], rfl, fun rest => by subst c; rfl⟩
  · exact .inl ⟨['b'], rfl, fun rest => by subst c; rfl⟩
  · exact .inl ⟨['f'], rfl, fun rest => by subst c; rfl⟩
  · exact .inl ⟨['n'], rfl, fun rest => by subst c; rfl⟩
  · exact .inl ⟨['r'], rfl, fun rest => by subst c; rfl⟩
  · exact .inl ⟨['t'], rfl, fun rest => by subst c; rfl⟩
  · exact .inl ⟨_, rfl, fun rest => escape?_control hsmall rest⟩
  · exact .inr ⟨hquote, hslash, hn, hr, rfl⟩

/-- What is written for one character is read as its number. -/
theorem textTail_escape (c s : Char) (steps rest : Text) :
    textTail '"' (s :: steps) (escape c ++ rest) =
      (textTail '"' steps rest).map fun (later, after) => (c.toNat :: later, after) := by
  rcases escape_cases_read c with ⟨e, hescape, hread⟩ | ⟨hquote, hslash, hn, hr, hescape⟩
  · rw [hescape, List.cons_append, textTail, if_neg (by decide), if_neg (by decide), if_pos rfl,
      hread]
    cases hrest : textTail '"' steps rest <;> simp [hrest]
  · rw [hescape, List.cons_append, textTail, if_neg hquote, if_neg (not_or.2 ⟨hn, hr⟩),
      if_neg hslash]
    cases hrest : textTail '"' steps rest <;> simp [hrest]

theorem textTail_quoted (t u steps : Text) (hsteps : t.length < steps.length) :
    textTail '"' steps (t.flatMap escape ++ '"' :: u) = some (t.map Char.toNat, u) := by
  induction t generalizing steps with
  | nil =>
      cases steps with
      | nil => exact absurd hsteps (Nat.lt_irrefl 0)
      | cons s steps => simp [textTail]
  | cons c t ih =>
      cases steps with
      | nil => exact absurd hsteps (Nat.not_lt_zero _)
      | cons s steps =>
          rw [List.flatMap_cons, List.append_assoc, textTail_escape,
            ih steps (Nat.lt_of_succ_lt_succ hsteps)]
          rfl

theorem textOf_map_toNat (t : Text) : textOf (t.map Char.toNat) = .text t false := by
  have hwhole : ∀ c ∈ t, (isFirstHalf c.toNat || isSecondHalf c.toNat) = false := by
    intro c _
    have hvalid : c.toNat.isValidChar := c.valid
    simp only [Nat.isValidChar] at hvalid
    simp only [isFirstHalf, isSecondHalf, Bool.or_eq_false_iff, Bool.and_eq_false_iff,
      decide_eq_false_iff_not]
    omega
  have hmap : (t.map Char.toNat).map Char.ofNat = t := by
    simp [Function.comp_def]
  simp only [textOf, hmap, List.any_map, Lexeme.text.injEq, true_and]
  exact List.any_eq_false.2 fun c hc => by simp [Function.comp, hwhole c hc]

theorem length_le_length_escaped (t : Text) : t.length ≤ (t.flatMap escape).length := by
  induction t with
  | nil => exact Nat.le_refl 0
  | cons c t ih =>
      have hone : 1 ≤ (escape c).length := by
        rcases escape_cases_read c with ⟨e, hescape, -⟩ | ⟨-, -, -, -, hescape⟩ <;>
          simp [hescape]
      simp only [List.flatMap_cons, List.length_append, List.length_cons]
      omega

/-- A quoted text is one string, whatever it holds and whatever follows it. -/
theorem starts_quoted (t u : Text) : Starts (quoted t ++ u) (.text t false) u := by
  have htext : quoted t ++ u = '"' :: (t.flatMap escape ++ '"' :: u) := by simp [quoted]
  have hsteps : t.length < ('"' :: (t.flatMap escape ++ '"' :: u)).length := by
    have := length_le_length_escaped t
    simp only [List.length_cons, List.length_append]
    omega
  have hlexeme : lexeme ('"' :: (t.flatMap escape ++ '"' :: u)) = (.text t false, u) := by
    simp [lexeme, textTail_quoted t u _ hsteps, textOf_map_toNat]
  have h := starts_of_isSolid (c := '"') (by decide) (t.flatMap escape ++ '"' :: u)
  rwa [hlexeme, ← htext] at h

end Quire.Script
