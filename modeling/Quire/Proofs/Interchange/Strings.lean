import Quire.Interchange.Reference
import Quire.Proofs.Script.Lexing
import Quire.Proofs.Text.Cuts

/-!
Strings of the notation read back, as strictly as JSON has them: no control character stands for
itself, nothing but the escapes of JSON stands behind a backslash, and a character that is written
in two halves needs both. Main statements: `readString_quoted`, since a quoted text is read as the
text, and `specifier?_lazyImport`, since a lazy import tells what it loads.
-/

namespace Quire.Interchange

open Script (hexPair? isFirstHalf isSecondHalf)
open Text (quoted escape hexDigit)

variable {c : Char} {t u : Text} {n : Nat}

/-- The character that four hexadecimal digits give, or eight of them in two escapes. -/
def readPoint (t : Text) : Option (Char × Text) := do
  let (first, t) ← hexPair? 4 t
  if isFirstHalf first then
    let (second, t) ← hexPair? 4 (← "\\u".toList.isPrefixOf? t)
    if isSecondHalf second then
      return (Char.ofNat (0x10000 + (first - 0xd800) * 0x400 + (second - 0xdc00)), t)
    else none
  else if isSecondHalf first then none
  else return (Char.ofNat first, t)

/-- The character that is written behind a backslash. -/
def readEscape : Text → Option (Char × Text)
  | '"' :: t => some ('"', t)
  | '\\' :: t => some ('\\', t)
  | '/' :: t => some ('/', t)
  | 'b' :: t => some ('\x08', t)
  | 'f' :: t => some ('\x0c', t)
  | 'n' :: t => some ('\n', t)
  | 'r' :: t => some ('\r', t)
  | 't' :: t => some ('\t', t)
  | 'u' :: t => readPoint t
  | _ => none

/-- The first character of what stands between quotes. -/
def readChar : Text → Option (Char × Text)
  | [] => none
  | c :: t => if c = '\\' then readEscape t else if c.toNat < 0x20 then none else some (c, t)

/-- The characters up to the closing quote, at most so many. -/
def readChars : Nat → Text → Option (Text × Text)
  | _, '"' :: t => some ([], t)
  | 0, _ => none
  | n + 1, t => do
    let (c, t) ← readChar t
    let (cs, t) ← readChars n t
    return (c :: cs, t)

/-- The string that a text begins with, and what follows it. -/
def readString : Text → Option (Text × Text)
  | '"' :: t => readChars t.length t
  | _ => none

theorem readPoint_control (hn : n < 0x20) (t : Text) :
    readPoint ('0' :: '0' :: hexDigit (n / 16) :: hexDigit (n % 16) :: t) =
      some (Char.ofNat n, t) := by
  interval_cases n <;> rfl

/-- What is written for one character is read as that, and is no quote. -/
theorem readChar_escape (c : Char) :
    (∃ d e, escape c = d :: e ∧ d ≠ '"') ∧ ∀ t, readChar (escape c ++ t) = some (c, t) := by
  generalize hescape : escape c = escaped
  unfold escape at hescape
  split_ifs at hescape with hquote hslash hb hf hn hr ht hsmall <;> subst escaped
  · exact ⟨⟨_, _, rfl, by decide⟩, fun t => by subst c; rfl⟩
  · exact ⟨⟨_, _, rfl, by decide⟩, fun t => by subst c; rfl⟩
  · exact ⟨⟨_, _, rfl, by decide⟩, fun t => by subst c; rfl⟩
  · exact ⟨⟨_, _, rfl, by decide⟩, fun t => by subst c; rfl⟩
  · exact ⟨⟨_, _, rfl, by decide⟩, fun t => by subst c; rfl⟩
  · exact ⟨⟨_, _, rfl, by decide⟩, fun t => by subst c; rfl⟩
  · exact ⟨⟨_, _, rfl, by decide⟩, fun t => by subst c; rfl⟩
  · refine ⟨⟨_, _, rfl, by decide⟩, fun t => ?_⟩
    have hpoint := readPoint_control hsmall t
    rw [Char.ofNat_toNat] at hpoint
    exact hpoint
  · refine ⟨⟨_, _, rfl, hquote⟩, fun t => ?_⟩
    rw [List.singleton_append, readChar, if_neg hslash, if_neg hsmall]

theorem readChars_escape (c : Char) (n : Nat) (t : Text) :
    readChars (n + 1) (escape c ++ t) =
      (readChars n t).map fun (cs, rest) => (c :: cs, rest) := by
  obtain ⟨⟨d, e, hescape, hd⟩, hread⟩ := readChar_escape c
  have hstep : readChars (n + 1) (escape c ++ t) = (do
      let (c, t) ← readChar (escape c ++ t)
      let (cs, t) ← readChars n t
      return (c :: cs, t)) := by
    rw [hescape, List.cons_append]
    simp [readChars, hd]
  rw [hstep, hread]
  cases hrest : readChars n t <;> simp [hrest]

theorem readChars_flatMap (t u : Text) (hn : t.length ≤ n) :
    readChars n (t.flatMap escape ++ '"' :: u) = some (t, u) := by
  induction t generalizing n with
  | nil => cases n <;> rfl
  | cons c t ih =>
      obtain ⟨n, rfl⟩ : ∃ m, n = m + 1 := ⟨n - 1, by simp at hn; omega⟩
      rw [List.flatMap_cons, List.append_assoc, readChars_escape,
        ih (Nat.le_of_succ_le_succ hn)]
      rfl

/-- A quoted text is read as the text, whatever it holds and whatever follows it. -/
theorem readString_quoted (t u : Text) : readString (quoted t ++ u) = some (t, u) := by
  have htext : quoted t ++ u = '"' :: (t.flatMap escape ++ '"' :: u) := by simp [quoted]
  have hlength : t.length ≤ (t.flatMap escape ++ '"' :: u).length := by
    have := Script.length_le_length_escaped t
    rw [List.length_append]
    omega
  rw [htext, readString, readChars_flatMap t u hlength]

/-- What a lazy import loads. -/
def specifier? (code : Text) : Option Text := do
  let (specifier, rest) ← readString (← "() => import(".toList.isPrefixOf? code)
  if rest = [')'] then return specifier else none

theorem specifier?_lazyImport (t : Text) : specifier? (lazyImport t) = some t := by
  have hhead : ∀ head rest : Text, head.isPrefixOf? (head ++ rest) = some rest := fun _ _ =>
    Text.isPrefixOf?_iff.2 rfl
  unfold specifier? lazyImport
  rw [List.append_assoc, hhead, Option.bind_eq_bind, Option.bind_some, readString_quoted]
  rfl

end Quire.Interchange
