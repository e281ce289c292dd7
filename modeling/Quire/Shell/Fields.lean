import Quire.Shell.Pattern

/-!
Cutting what was put into a word at separators. Blanks among the separators are passed by in any
number, and any other separator ends exactly one field.
-/

namespace Quire.Shell

/-- What a word stands for, piece by piece. -/
inductive Glyph
  /-- A character. It may be quoted, and it may be a separator if it was put in. -/
  | char (c : Char) (quoted cuts : Bool)
  /-- Something that makes a field of nothing. -/
  | mark
  /-- The beginning of something that was put in. -/
  | seam
  /-- The end of a field in any case. -/
  | cut
  /-- A separator that counts as a blank. -/
  | gap
deriving DecidableEq

/-- The pattern that glyphs stand for. -/
def patternOf (gs : List Glyph) : Pattern :=
  gs.filterMap fun
    | .char c quoted _ => some (c, quoted)
    | _ => none

/-- Where a cutter of fields stands: the fields so far, the latest first, the present one backwards,
whether separators are being passed by, and whether only blanks were met among them. -/
structure Cutter where
  fields : List (List Glyph) := []
  current : List Glyph := []
  skips : Bool := false
  afterBlank : Bool := false
  /-- How many fields may still be begun. -/
  left : Option Nat
  /-- What is left of the last field without the separators at its end. -/
  kept : Option (List Glyph) := none

namespace Cutter

/-- The present field is at its end. -/
def finish (c : Cutter) : Cutter :=
  { c with fields := c.current.reverse :: c.fields, current := [] }

/-- A glyph that is no separator. -/
def keep (c : Cutter) (g : Glyph) : Cutter :=
  { c with current := g :: c.current, skips := false, afterBlank := false, kept := none }

/-- A separator in the last field that may be begun. It belongs to the field unless it is at the
end. -/
def keepSeparator (c : Cutter) (g : Glyph) (isBlank : Bool) : Cutter :=
  let kept :=
    if isBlank then some (c.kept.getD c.current)
    else if c.afterBlank then c.kept else none
  { c with
    current := g :: c.current
    kept := kept
    afterBlank := c.afterBlank && isBlank }

/-- A separator. -/
def separate (c : Cutter) (g : Glyph) (isBlank : Bool) : Cutter :=
  if c.left = some 0 then c.keepSeparator g isBlank
  else if c.skips ∧ isBlank then c
  else if c.skips ∧ c.afterBlank then { c with afterBlank := false }
  else if c.current.isEmpty ∧ isBlank then { c with skips := false, afterBlank := false }
  else
    match c.left with
    | some 1 =>
      { c with
        left := some 0
        kept := some c.current
        current := g :: c.current
        skips := false
        afterBlank := isBlank }
    | left =>
      { c.finish with left := left.map (· - 1), skips := true, afterBlank := isBlank }

/-- One more glyph. -/
def next (separators : Text) (c : Cutter) (g : Glyph) : Cutter :=
  match g with
  | .cut => { c.finish with skips := false }
  | .seam => { c with skips := false, afterBlank := false }
  | .gap => c.separate g true
  | .mark => c.keep g
  | .char x _ cuts =>
    if cuts ∧ separators.contains x then c.separate g (x = ' ' || x = '\t' || x = '\n')
    else c.keep g

/-- The fields when all is read. A last one of nothing is none. -/
def done (c : Cutter) : List (List Glyph) :=
  let last := c.kept.getD c.current
  (if last.isEmpty then c.fields else last.reverse :: c.fields).reverse

end Cutter

/-- The fields of glyphs, at most so many of them. -/
def fields (separators : Text) (most : Option Nat) (gs : List Glyph) : List (List Glyph) :=
  (gs.foldl (Cutter.next separators) { left := most }).done

end Quire.Shell
