import Quire.Text.Blank

/-!
The diagnostics of a finished tool: what it wrote on its two streams as one block, without colours,
blank lines and blanks at the ends of lines.
-/

namespace Quire.Tool

/-- A character that may stand between the bracket and the final letter of a colour sequence. -/
def isColorParameter (c : Char) : Bool := c.isDigit || c = ';'

/-- What follows the colour sequence that the text starts with, if it starts with one. -/
def afterColor? : Text → Option Text
  | '\x1b' :: '[' :: rest =>
    match rest.dropWhile isColorParameter with
    | 'm' :: after => some after
    | _ => none
  | _ => none

theorem length_lt_of_afterColor? {t after : Text} (h : afterColor? t = some after) :
    after.length < t.length := by
  unfold afterColor? at h
  split at h
  · next rest =>
    split at h
    · next after' he =>
      have := (List.dropWhile_suffix isColorParameter (l := rest)).length_le
      rw [he] at this
      simp only [Option.some.injEq] at h
      simp only [h, List.length_cons] at this ⊢
      omega
    · cases h
  · cases h

/-- The text without its colour sequences. What is left around one is not looked at again. -/
def dropColors (t : Text) : Text :=
  match _h : afterColor? t with
  | some after => dropColors after
  | none =>
    match t with
    | [] => []
    | c :: rest => c :: dropColors rest
termination_by t.length
decreasing_by
  · exact length_lt_of_afterColor? _h
  · simp

/-- The lines of one stream that say something. -/
def spokenLines (stream : Text) : List Text :=
  ((stream.lines.map dropColors).filter fun line => line.trim ≠ []).map Text.trimEnd

/-- The block of what a tool said: its errors first. -/
def diagnostics (errors said : Text) : Text :=
  ['\n'].intercalate (spokenLines errors ++ spokenLines said)

end Quire.Tool
