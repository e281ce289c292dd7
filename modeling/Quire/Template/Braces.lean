import Quire.Text.Basic

/-!
Expressions between braces. A reader counts braces outside quoted stretches; inside one, a
backslash takes the next character along. Main statement: what is read, the closing brace and the
rest make up the whole text again.
-/

namespace Quire.Template

/-- Where a reader of an expression stands: in plain code, in a stretch quoted by `q`, or right
after a backslash in such a stretch. -/
inductive Reading
  | code
  | quoted (q : Char)
  | escaped (q : Char)
deriving DecidableEq

/-- The characters that open a quoted stretch. -/
def isQuote (c : Char) : Bool := c = '"' || c = '\'' || c = '\x60'

/-- Where the reader stands after one more character. -/
def Reading.next : Reading → Char → Reading
  | .code, c => if isQuote c then .quoted c else .code
  | .quoted q, c => if c = '\\' then .escaped q else if c = q then .code else .quoted q
  | .escaped q, _ => .quoted q

/-- The text up to the brace that closes the outermost open one, and what follows that brace.
`depth` counts the braces that were opened inside the outermost. -/
def closing : Reading → (depth : Nat) → Text → Option (Text × Text)
  | _, _, [] => none
  | at', depth, c :: rest =>
    if at' = .code ∧ c = '}' then
      match depth with
      | 0 => some ([], rest)
      | d + 1 => (closing .code d rest).map fun (inner, after) => (c :: inner, after)
    else
      let inside := if at' = .code ∧ c = '{' then depth + 1 else depth
      (closing (at'.next c) inside rest).map fun (inner, after) => (c :: inner, after)

theorem closing_eq_append {at' : Reading} {depth : Nat} {t inner after : Text}
    (h : closing at' depth t = some (inner, after)) : t = inner ++ '}' :: after := by
  induction t generalizing at' depth inner after with
  | nil => simp [closing] at h
  | cons c rest ih =>
    unfold closing at h
    split at h
    · next hc =>
      split at h
      · simp only [Option.some.injEq, Prod.mk.injEq] at h
        simp [← h.1, ← h.2, hc.2]
      · obtain ⟨⟨i, a⟩, hi, he⟩ := Option.map_eq_some_iff.1 h
        simp only [Prod.mk.injEq] at he
        simp [← he.1, ← he.2, ih hi]
    · obtain ⟨⟨i, a⟩, hi, he⟩ := Option.map_eq_some_iff.1 h
      simp only [Prod.mk.injEq] at he
      simp [← he.1, ← he.2, ih hi]

theorem length_lt_of_closing {at' : Reading} {depth : Nat} {t inner after : Text}
    (h : closing at' depth t = some (inner, after)) : after.length < t.length := by
  rw [closing_eq_append h]
  simp only [List.length_append, List.length_cons]
  omega

example : closing .code 0 "a\"\x7d\"\x7bb\x7d\x7dc".toList =
    some ("a\"\x7d\"\x7bb\x7d".toList, "c".toList) := by decide
example : closing .code 0 "a'b\x7d".toList = none := by decide

end Quire.Template
