import Quire.Template.Braces
import Quire.Template.Header

/-!
The body of a template as pieces: literal text, expressions, and uses of imported components. A
body is read from its front; the line of every fault is the line of what the fault is about.
-/

namespace Quire.Template

/-- What an attribute of a component carries. -/
inductive AttributeValue
  | text (t : Text)
  | expr (e : Text)
  | flag
deriving DecidableEq

/-- A named attribute of a component. -/
structure Attribute where
  name : Text
  value : AttributeValue
deriving DecidableEq

/-- One piece of a body. An expression is escaped where it is shown and a raw one is not; a
component is rendered on the server, or left to the browser as an island. -/
inductive Piece
  | text (t : Text)
  | expr (e : Text)
  | raw (e : Text)
  | component (name : Text) (attributes : List Attribute) (client : Bool)
deriving DecidableEq

/-- The bare attribute that makes a component an island. -/
def clientMark : Attribute := ⟨"client".toList, .flag⟩

/-- What an expression starts with that is not to be escaped. -/
def rawMark : Text := "@html".toList

/-- The number of line ends in a text. -/
def lineEnds (t : Text) : Nat := t.count '\n'

/-- A character of a component or attribute name. -/
def isTagChar (c : Char) : Bool := c.isAlphanum || c = '_' || c = '-'

/-- The piece that a text between braces stands for, unless nothing is there. The mark of a raw
expression counts only with a blank after it. -/
def Piece.ofBraces? (inner : Text) : Option Piece :=
  let e := inner.trim
  match rawMark.isPrefixOf? e with
  | some (c :: rest) =>
    if Text.isBlank c then
      let raw := Text.trim (c :: rest)
      if raw = [] then none else some (.raw raw)
    else some (.expr e)
  | _ => if e = [] then none else some (.expr e)

/-- Puts one character in front of the pieces, into the text piece that comes first. -/
def consText (c : Char) : List Piece → List Piece
  | .text t :: rest => .text (c :: t) :: rest
  | pieces => .text [c] :: pieces

/-- A part of a template that has been read, with the line the reader stands on and what it has
yet to read. -/
structure Read (α : Type) where
  value : α
  line : Nat
  rest : Text

/-- Reads the value after the equals sign of an attribute. -/
def attributeValue (tag : Text) (line : Nat) : Text → Except Fault (Read AttributeValue)
  | '{' :: rest =>
    match closing .code 0 rest with
    | none => .error ⟨line, .unterminatedBrace⟩
    | some (inner, after) => .ok ⟨.expr inner.trim, line + lineEnds inner, after⟩
  | '"' :: rest =>
    match Text.cutFirst ['"'] rest with
    | none => .error ⟨line, .unterminatedAttribute tag⟩
    | some (t, after) => .ok ⟨.text t, line + lineEnds t, after⟩
  | _ => .error ⟨line, .malformedAttribute tag⟩

/-- Reads one attribute, whose name begins the text. -/
def oneAttribute (tag : Text) (line : Nat) (t : Text) : Except Fault (Read Attribute) :=
  let name := t.takeWhile isTagChar
  match t.dropWhile isTagChar with
  | '=' :: rest =>
    (attributeValue tag line rest).map fun v => ⟨⟨name, v.value⟩, v.line, v.rest⟩
  | rest => .ok ⟨⟨name, .flag⟩, line, rest⟩

theorem length_le_of_attributeValue {tag : Text} {line : Nat} {t : Text}
    {v : Read AttributeValue} (h : attributeValue tag line t = .ok v) :
    v.rest.length ≤ t.length := by
  unfold attributeValue at h
  split at h
  · split at h
    · cases h
    · next hc =>
      cases h
      have := length_lt_of_closing hc
      simp only [List.length_cons]
      omega
  · split at h
    · cases h
    · next hc =>
      cases h
      have := congrArg List.length (Text.eq_append_of_cutFirst hc)
      simp only [List.length_append, List.length_cons, List.length_nil] at this ⊢
      omega
  · cases h

theorem length_lt_of_oneAttribute {tag : Text} {line : Nat} {c : Char} {t : Text}
    {a : Read Attribute} (hc : isTagChar c = true) (h : oneAttribute tag line (c :: t) = .ok a) :
    a.rest.length < (c :: t).length := by
  have hd : ((c :: t).dropWhile isTagChar).length ≤ t.length := by
    rw [List.dropWhile_cons_of_pos hc]
    exact (List.dropWhile_suffix _).length_le
  unfold oneAttribute at h
  split at h
  · next rest hr =>
    rw [hr] at hd
    cases hv : attributeValue tag line rest with
    | error e => rw [hv] at h; cases h
    | ok v =>
      rw [hv] at h
      cases h
      have := length_le_of_attributeValue hv
      simp only [List.length_cons] at hd ⊢
      omega
  · cases h
    simp only [List.length_cons]
    omega

/-- A character that an attribute name may begin with. -/
def startsAttribute (c : Char) : Bool := c.isAlpha || c = '_'

theorem isTagChar_of_startsAttribute {c : Char} (h : startsAttribute c = true) :
    isTagChar c = true := by
  simp only [startsAttribute, isTagChar, Char.isAlphanum, Bool.or_eq_true,
    decide_eq_true_eq] at h ⊢
  rcases h with h | h <;> simp [h]

/-- Reads the attributes of `tag` up to the end of the tag, which begins on line `start`. -/
def attributes (tag : Text) (start line : Nat) (t : Text) :
    Except Fault (Read (List Attribute)) :=
  let here := line + lineEnds (t.takeWhile Text.isBlank)
  match _ht : t.trimStart with
  | [] => .error ⟨start, .unterminatedTag tag⟩
  | c :: rest =>
    if c = '/' ∧ rest.head? = some '>' then .ok ⟨[], here, rest.tail⟩
    else if c = '>' then .error ⟨start, .notSelfClosing tag⟩
    else if _hc : startsAttribute c = true then
      match _ha : oneAttribute tag here (c :: rest) with
      | .error e => .error e
      | .ok a =>
        (attributes tag start a.line a.rest).map fun more =>
          { more with value := a.value :: more.value }
    else .error ⟨here, .malformedAttribute tag⟩
termination_by t.length
decreasing_by
  have h1 := length_lt_of_oneAttribute (isTagChar_of_startsAttribute _hc) _ha
  have h2 : (c :: rest).length ≤ t.length := by
    rw [← _ht]
    exact (List.dropWhile_suffix _).length_le
  omega

/-- Reads a use of a component, from its name on; `line` is the line of the angle bracket. -/
def component (imports : List Import) (line : Nat) (t : Text) : Except Fault (Read Piece) :=
  let name := t.takeWhile isTagChar
  if imports.any (·.name = name) then
    (attributes name line line (t.dropWhile isTagChar)).map fun as =>
      { as with value :=
        .component name (as.value.filter (· ≠ clientMark)) (as.value.contains clientMark) }
  else .error ⟨line, .unknownComponent name⟩

theorem length_le_of_attributes {tag : Text} {start line : Nat} {t : Text}
    {as : Read (List Attribute)} (h : attributes tag start line t = .ok as) :
    as.rest.length ≤ t.length := by
  induction hn : t.length using Nat.strongRecOn generalizing line t as with
  | _ n ih =>
    have hle : t.trimStart.length ≤ t.length := (List.dropWhile_suffix _).length_le
    unfold attributes at h
    split at h
    · cases h
    · next c rest ht =>
      rw [ht] at hle
      split at h
      · cases h
        simp only [List.length_cons, List.length_tail] at hle ⊢
        omega
      · split at h
        · cases h
        · split at h
          · next hc =>
            dsimp only at h
            split at h
            · cases h
            · next a ha =>
              have hlt := length_lt_of_oneAttribute (isTagChar_of_startsAttribute hc) ha
              cases hm : attributes tag start a.line a.rest with
              | error e => rw [hm] at h; cases h
              | ok more =>
                rw [hm] at h
                cases h
                have := ih a.rest.length (by omega) hm rfl
                simp only at this ⊢
                omega
          · cases h

theorem length_le_of_component {imports : List Import} {line : Nat} {t : Text} {p : Read Piece}
    (h : component imports line t = .ok p) : p.rest.length ≤ t.length := by
  have hd : (t.dropWhile isTagChar).length ≤ t.length := (List.dropWhile_suffix _).length_le
  simp only [component] at h
  split at h
  · cases ha : attributes (t.takeWhile isTagChar) line line (t.dropWhile isTagChar) with
    | error e => simp only [ha] at h; cases h
    | ok as =>
      simp only [ha] at h
      cases h
      have := length_le_of_attributes ha
      simp only at this ⊢
      omega
  · cases h

/-- Reads a body into pieces. -/
def pieces (imports : List Import) (line : Nat) : Text → Except Fault (List Piece)
  | [] => .ok []
  | c :: rest =>
    if c = '{' then
      match _hc : closing .code 0 rest with
      | none => .error ⟨line, .unterminatedBrace⟩
      | some (inner, after) =>
        match Piece.ofBraces? inner with
        | none => .error ⟨line, .emptyExpression⟩
        | some piece => (pieces imports (line + lineEnds inner) after).map (piece :: ·)
    else if c = '<' ∧ rest.head?.any Char.isUpper then
      match _hp : component imports line rest with
      | .error e => .error e
      | .ok p => (pieces imports p.line p.rest).map (p.value :: ·)
    else
      (pieces imports (if c = '\n' then line + 1 else line) rest).map (consText c)
termination_by t => t.length
decreasing_by
  · have := length_lt_of_closing _hc
    simp only [List.length_cons]
    omega
  · have := length_le_of_component _hp
    simp only [List.length_cons]
    omega
  · simp

end Quire.Template
