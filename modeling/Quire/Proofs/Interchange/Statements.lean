import Quire.Proofs.Interchange.Reading

/-!
The statements that the scripts of a build are made of, read back: imports of the main thing that a
module gives, and declarations of values in the notation. Main statement: `readImport_statement`.
-/

namespace Quire.Interchange

open Script (isWordStart isWordPart)
open Text (quoted StopsAt)

variable {t u w gap : Text}

/-! The reader. -/

/-- A name, perhaps behind blanks. -/
def readName (t : Text) : Option (Text × Text) :=
  let name := (skipSpaces t).takeWhile isWordPart
  if name.head?.any isWordStart then some (name, (skipSpaces t).dropWhile isWordPart) else none

/-- What follows a given word. -/
def readWord (word t : Text) : Option Text := do
  let (name, t) ← readName t
  if name = word then return t else none

/-- An import of the main thing that a module gives: the name for it, and the module. -/
def readImport (t : Text) : Option ((Text × Text) × Text) := do
  let (binding, t) ← readName (← readWord "import".toList t)
  let (specifier, t) ← readString (skipSpaces (← readWord "from".toList t))
  return ((binding, specifier), ← readMark ';' t)

/-- At most so many imports, up to what is none. -/
def readImports : Nat → Text → Option (List (Text × Text) × Text)
  | 0, t => some ([], t)
  | n + 1, t =>
    match readWord "import".toList t with
    | none => some ([], t)
    | some _ => do
      let (i, t) ← readImport t
      let (is, t) ← readImports n t
      return (i :: is, t)

/-- A declaration of a value under a given name. -/
def readDeclaration (name : Text) (script : Text → Bool) (t : Text) : Option (Value × Text) := do
  let t ← readWord name (← readWord "const".toList (← readWord "export".toList t))
  let t ← readMark '=' t
  let (v, t) ← readValue script t.length t
  return (v, ← readMark ';' t)

/-! Words. -/

/-- A text that is read as one word. -/
structure IsWord (t : Text) : Prop where
  parts : ∀ c ∈ t, isWordPart c
  start : t.head?.any isWordStart

theorem skipSpaces_word (h : IsWord t) (hgap : ∀ c ∈ gap, isSpace c) (u : Text) :
    skipSpaces (gap ++ (t ++ u)) = t ++ u := by
  have hspaces : ∀ c, isSpace c → isWordStart c = false := by
    intro c hc
    have hcases : c = ' ' ∨ c = '\t' ∨ c = '\n' ∨ c = '\r' := by
      simpa [isSpace, or_assoc] using hc
    rcases hcases with rfl | rfl | rfl | rfl <;> decide
  have hstart := h.start
  cases t with
  | nil => exact absurd hstart (by decide)
  | cons c t =>
      refine skipSpaces_append hgap fun hc => ?_
      simp [hspaces c hc] at hstart

theorem stopsAt_blank (u : Text) : StopsAt isWordPart (' ' :: u) :=
  Text.stopsAt_cons.2 (by decide)

theorem readName_word (h : IsWord t) (hgap : ∀ c ∈ gap, isSpace c) (u : Text) :
    readName (gap ++ (t ++ ' ' :: u)) = some (t, ' ' :: u) := by
  unfold readName
  rw [skipSpaces_word h hgap, Text.takeWhile_run h.parts (stopsAt_blank u),
    Text.dropWhile_run h.parts (stopsAt_blank u)]
  exact if_pos h.start

theorem readWord_word (h : IsWord t) (hgap : ∀ c ∈ gap, isSpace c) (u : Text) :
    readWord t (gap ++ (t ++ ' ' :: u)) = some (' ' :: u) := by
  simp [readWord, readName_word h hgap]

theorem readWord_eq_none (h : IsWord t) (hgap : ∀ c ∈ gap, isSpace c) (hne : t ≠ w) (u : Text) :
    readWord w (gap ++ (t ++ ' ' :: u)) = none := by
  simp [readWord, readName_word h hgap, hne]

/-- A word between two blanks. -/
theorem readName_blank (h : IsWord t) (u : Text) :
    readName (' ' :: (t ++ ' ' :: u)) = some (t, ' ' :: u) := by
  rw [← List.singleton_append]
  exact readName_word h (List.forall_mem_singleton.2 (by decide)) u

theorem readWord_blank (h : IsWord t) (u : Text) :
    readWord t (' ' :: (t ++ ' ' :: u)) = some (' ' :: u) := by
  simp [readWord, readName_blank h]

theorem isWord_keywords : ∀ k ∈ ["import", "from", "export", "const", "routes", "metadata"],
    IsWord k.toList := by
  have hkeywords : ∀ k ∈ ["import", "from", "export", "const", "routes", "metadata"],
      k.toList.all isWordPart ∧ k.toList.head?.any isWordStart := by decide
  exact fun k hk => ⟨List.all_eq_true.1 (hkeywords k hk).1, (hkeywords k hk).2⟩

/-! Imports. -/

/-- An import statement is read as the name and the module that stand in it. -/
theorem readImport_statement (hgap : ∀ c ∈ gap, isSpace c) (ht : IsWord t) (spec u : Text) :
    readImport (gap ++ ("import".toList ++ ' ' ::
      (t ++ ' ' :: ("from".toList ++ ' ' :: (quoted spec ++ ';' :: u))))) =
        some ((t, spec), u) := by
  have himport := readWord_word (isWord_keywords "import" (by decide)) hgap
    (t ++ ' ' :: ("from".toList ++ ' ' :: (quoted spec ++ ';' :: u)))
  have hname := readName_blank ht ("from".toList ++ ' ' :: (quoted spec ++ ';' :: u))
  have hfrom := readWord_blank (isWord_keywords "from" (by decide)) (quoted spec ++ ';' :: u)
  have hskip : skipSpaces (' ' :: (quoted spec ++ ';' :: u)) = quoted spec ++ ';' :: u := rfl
  have hmark : readMark ';' (';' :: u) = some u := rfl
  unfold readImport
  simp only [Option.bind_eq_bind, himport, hname, hfrom, hskip, readString_quoted, hmark,
    Option.bind_some]
  rfl

end Quire.Interchange
