import Quire.Shell.Escapes
import Quire.Shell.Real

/-!
Formats: texts with places for values. A format is used again as long as values are left.
-/

namespace Quire.Shell.Format

/-- How a value is put into a place: signs that say so, the least width, and how much of it. -/
structure Place where
  signs : List Char
  width : Nat
  places : Option Nat
  letter : Char

/-- Whether a sign is given. -/
def Place.has (p : Place) (c : Char) : Bool := p.signs.contains c

/-- A text filled up to the width of its place. -/
def Place.filled (p : Place) (t : Text) : Text :=
  let gap := List.replicate (p.width - t.length) ' '
  if p.has '-' then t ++ gap else gap ++ t

/-- A number filled up to the width of its place, with zeros behind its sign if that is wanted. -/
def Place.filledNumber (p : Place) (zeros : Bool) (sign digits : Text) : Text :=
  if zeros && p.has '0' && !p.has '-' then
    sign ++ List.replicate (p.width - sign.length - digits.length) '0' ++ digits
  else p.filled (sign ++ digits)

/-- The sign of a number. -/
def Place.signOf (p : Place) (negative : Bool) : Text :=
  if negative then ['-'] else if p.has '+' then ['+'] else if p.has ' ' then [' '] else []

/-- Digits, as many as there have to be at least. A zero can have none. -/
def Place.digits (p : Place) (t : Text) : Text :=
  match p.places with
  | some 0 => if t = ['0'] then [] else t
  | some n => List.replicate (n - t.length) '0' ++ t
  | none => t

/-- A text in capitals. -/
def capitals (t : Text) : Text := t.map Char.toUpper

/-- A whole number in its place. -/
def Place.whole (p : Place) (n : Int) : Text :=
  p.filledNumber p.places.isNone (p.signOf (n < 0)) (p.digits (Text.ofNat n.natAbs))

/-- A number without a sign in its place, to the base that its letter says. -/
def Place.unsigned (p : Place) (n : Nat) : Text :=
  let filled := p.filledNumber p.places.isNone
  match p.letter with
  | 'o' =>
    let ds := p.digits (Nat.toDigits 8 n)
    filled [] (if p.has '#' ∧ ds.head? ≠ some '0' then '0' :: ds else ds)
  | 'x' => filled (if p.has '#' ∧ n ≠ 0 then lit "0x" else []) (p.digits (Nat.toDigits 16 n))
  | 'X' =>
    filled (if p.has '#' ∧ n ≠ 0 then lit "0X" else []) (capitals (p.digits (Nat.toDigits 16 n)))
  | _ => filled [] (p.digits (Text.ofNat n))

/-- A number with a point in its place. -/
def Place.real (p : Place) (r : Real) : Text :=
  let t := r.text p.letter (p.has '#') p.places
  let shown := if p.letter.isUpper then capitals t else t
  p.filledNumber (r matches .finite ..) (p.signOf r.isNegative) shown

/-- A text in its place, cut off where it is too long. -/
def Place.text (p : Place) (t : Text) : Text :=
  p.filled (match p.places with
    | some n => t.take n
    | none => t)

/-- What was written with a format, what is left of the values, and what was complained about. An
end comes early by an escape, or by a mistake in the format. -/
structure Work where
  values : List Text
  written : Text := []
  complaints : List Text := []
  ended : Bool := false
  mistake : Option Text := none

/-- Writing with a format. -/
abbrev Writes := StateM Work

/-- Writes a text. -/
def write (t : Text) : Writes Unit := modify fun w => { w with written := w.written ++ t }

/-- Complains about a value. -/
def complain (value : Text) (why : String) : Writes Unit :=
  modify fun w => { w with complaints := w.complaints ++ [value ++ lit ": " ++ lit why] }

/-- The next value, if one is left. -/
def value? : Writes (Option Text) := do
  let w ← get
  set { w with values := w.values.tail }
  return w.values.head?

/-- Complains if a value is not all used up by reading it. -/
def check (value rest : Text) (inRange : Bool) : Writes Unit := do
  if rest ≠ [] then
    complain value (if rest = value then "expected numeric value" else "not completely converted")
  else if ¬ inRange then complain value "Numerical result out of range"

/-- The number of the character behind a quote. -/
def quoted? (value : Text) : Option Nat :=
  match value with
  | c :: rest => if c = '"' ∨ c = '\'' then some ((rest.headD '\x00').toNat) else none
  | [] => none

/-- The next value as a whole number. -/
def whole : Writes Int := do
  match ← value? with
  | none => return 0
  | some v =>
    match quoted? v with
    | some n => return n
    | none =>
      let (n, rest) := Sum.integer v
      check v rest (n = Sum.clamped n)
      return Sum.clamped n

/-- The next value as a number without a sign. -/
def unsigned : Writes Nat := do
  match ← value? with
  | none => return 0
  | some v =>
    match quoted? v with
    | some n => return n
    | none =>
      let (n, rest) := Sum.integer v
      check v rest (n.natAbs < Nat.pow 2 64)
      return if n.natAbs < Nat.pow 2 64 then (n % Nat.pow 2 64).toNat else Nat.pow 2 64 - 1

/-- The next value as a number with a point. -/
def real : Writes Real := do
  match ← value? with
  | none => return .finite false ⟨0, 0⟩
  | some v =>
    match quoted? v with
    | some n => return .finite false ⟨n, 0⟩
    | none =>
      match Real.read v with
      | some (r, rest) =>
        let isWord := !v.any fun c => c.isDigit
        check v rest (isWord || !(r matches .infinite _))
        return r
      | none =>
        check v v true
        return .finite false ⟨0, 0⟩

/-- The width or the places of a value: a number, or the next value. -/
def size? (t : Text) : Writes (Option Int × Text) := do
  match t with
  | '*' :: rest => return (some (← whole), rest)
  | _ =>
    let ds := t.takeWhile fun c => c.isDigit || c = '*'
    return ((digits? (ds.takeWhile Char.isDigit)).map Int.ofNat, t.drop ds.length)

/-- Puts the next value into a place. -/
def put (p : Place) (spelled : Text) : Writes Unit := do
  if p.letter = 'b' then
    let v := (← value?).getD []
    let (t, ends) := Escapes.all v v
    write (p.text t)
    if ends then modify fun w => { w with ended := true }
  else if p.letter = 'c' then write (p.filled [((← value?).getD []).headD '\x00'])
  else if p.letter = 's' then write (p.text ((← value?).getD []))
  else if p.letter = 'd' ∨ p.letter = 'i' then write (p.whole (← whole))
  else if "ouxX".toList.contains p.letter then write (p.unsigned (← unsigned))
  else if "aAeEfFgG".toList.contains p.letter then write (p.real (← real))
  else modify fun w => { w with mistake := some (spelled ++ lit ": invalid directive") }

/-- Puts the next value into the place whose percent sign was read. Gives what follows it. -/
def place (t : Text) : Writes Text := do
  let signs := t.takeWhile fun c => "#-+ 0".toList.contains c
  let (width, rest) ← size? (t.drop signs.length)
  let (places, rest) ←
    match rest with
    | '.' :: rest => do
      let (places, rest) ← size? rest
      pure (some (places.getD 0), rest)
    | _ => pure (none, rest)
  match rest with
  | [] =>
    modify fun w => { w with mistake := some (lit "missing format character") }
    return []
  | letter :: rest =>
    let width := width.getD 0
    let p : Place :=
      { signs := if width < 0 then '-' :: signs else signs
        width := width.natAbs
        places := places.bind fun n => if n < 0 then none else some n.toNat
        letter }
    put p ('%' :: t.take (t.length - rest.length))
    return rest

/-- Writes a format once. -/
def once : (steps : Text) → Text → Writes Unit
  | [], _ => return
  | _, [] => return
  | _ :: steps, c :: rest => do
    let w ← get
    if w.ended || w.mistake.isSome then return
    if c = '\\' then
      write [(Escapes.one rest).1]
      once steps (Escapes.one rest).2
    else if c = '%' then
      match rest with
      | '%' :: rest =>
        write ['%']
        once steps rest
      | _ => once steps (← place rest)
    else
      write [c]
      once steps rest

/-- Writes a format as often as there are values for it. -/
def all (format : Text) : (times : List Text) → Writes Unit
  | [] => once format format
  | _ :: times => do
    let before := (← get).values.length
    once format format
    let w ← get
    let used := before - w.values.length
    if w.ended || w.mistake.isSome || w.values.isEmpty || used = 0 then return
    all format times

/-- What comes of a format with values. -/
def work (format : Text) (values : List Text) : Work := ((all format values).run { values }).2

end Quire.Shell.Format
