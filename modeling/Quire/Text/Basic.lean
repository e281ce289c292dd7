/-!
Texts as lists of characters, and the cuts that every format of the library is made of: fields
between separators, lines, given heads and tails, and the first place where one text stands in
another.
-/

namespace Quire

/-- A text is the list of its characters, so that a law about texts is a law about lists. -/
abbrev Text := List Char

namespace Text

/-- The decimal digits of a number. -/
def ofNat (n : Nat) : Text := Nat.toDigits 10 n

/-- The stretches between the separators: one more than there are separators, so a text without
any is its own single field. -/
def fields (sep : Char) : Text → List Text
  | [] => [[]]
  | c :: rest =>
    match fields sep rest with
    | [] => [[c]]
    | f :: fs => if c = sep then [] :: f :: fs else (c :: f) :: fs

/-- The lines, each with the newline that ends it; only the last may lack one. -/
def wholeLines : Text → List Text
  | [] => []
  | c :: rest =>
    if c = '\n' then [c] :: wholeLines rest
    else
      match wholeLines rest with
      | [] => [[c]]
      | l :: ls => (c :: l) :: ls

/-- What stands before `tail`, if the text ends in it. -/
def cutEnd? (tail t : Text) : Option Text :=
  if tail.isSuffixOf t then some (t.take (t.length - tail.length)) else none

/-- A line without its ending: a newline, with the carriage return before it if there is one.
A carriage return that no newline follows is kept. -/
def dropLineEnd (line : Text) : Text :=
  match cutEnd? ['\n'] line with
  | some body => (cutEnd? ['\r'] body).getD body
  | none => line

/-- The lines without their endings. -/
def lines (t : Text) : List Text := (wholeLines t).map dropLineEnd

/-- The text around the first place where `needle` stands. -/
def cutFirst (needle : Text) : Text → Option (Text × Text)
  | [] => if needle = [] then some ([], []) else none
  | c :: rest =>
    match needle.isPrefixOf? (c :: rest) with
    | some after => some ([], after)
    | none => (cutFirst needle rest).map fun (before, after) => (c :: before, after)

theorem eq_append_of_isPrefixOf? {head t rest : Text} (h : head.isPrefixOf? t = some rest) :
    t = head ++ rest := by
  induction head generalizing t with
  | nil => exact Option.some.inj h
  | cons c head ih =>
    cases t with
    | nil => exact nomatch (show none = some rest from h)
    | cons d t =>
      have h : (if c == d then head.isPrefixOf? t else none) = some rest := h
      split at h
      · next hcd => rw [beq_iff_eq.1 hcd, ih h, List.cons_append]
      · cases h

theorem eq_append_of_cutFirst {needle t a b : Text} (h : cutFirst needle t = some (a, b)) :
    t = a ++ needle ++ b := by
  induction t generalizing a b with
  | nil =>
    simp only [cutFirst] at h
    split at h
    · next hn => simp only [Option.some.injEq, Prod.mk.injEq] at h; simp [hn, ← h.1, ← h.2]
    · exact absurd h (by simp)
  | cons c rest ih =>
    simp only [cutFirst] at h
    split at h
    · next after hp =>
      simp only [Option.some.injEq, Prod.mk.injEq] at h
      rw [eq_append_of_isPrefixOf? hp, ← h.1, ← h.2]
      rfl
    · obtain ⟨⟨i, j⟩, hi, he⟩ := Option.map_eq_some_iff.1 h
      simp only [Prod.mk.injEq] at he
      rw [← he.1, ← he.2, ih hi]
      rfl

/-- The text around the last `c`. -/
def cutLast (c : Char) : Text → Option (Text × Text)
  | [] => none
  | x :: rest =>
    match cutLast c rest with
    | some (before, after) => some (x :: before, after)
    | none => if x = c then some ([], rest) else none

/-- The size in UTF-8. -/
def byteSize (t : Text) : Nat := t.foldr (fun c size => c.utf8Size + size) 0

/-- The longest beginning that needs at most `size` bytes in UTF-8. -/
def takeBytes (size : Nat) : Text → Text
  | [] => []
  | c :: rest => if c.utf8Size ≤ size then c :: takeBytes (size - c.utf8Size) rest else []

/-- The UTF-8 bytes. -/
def toBytes (t : Text) : ByteArray := (String.ofList t).toUTF8

/-- The text that the bytes spell in UTF-8, if they do. -/
def ofBytes? (bytes : ByteArray) : Option Text := (String.fromUTF8? bytes).map String.toList

/-- Whether one text stands before another in the order of their code points, which is also the
order of their bytes in UTF-8. -/
def before (a b : Text) : Bool := a < b

end Text

end Quire
