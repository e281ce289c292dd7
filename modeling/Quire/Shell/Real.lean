import Quire.Decimal.Binary64
import Quire.Shell.Sum

/-!
Numbers with a point, as a shell reads and writes them: with 53 binary digits, so that what is
written is the exact value of the nearest such number.
-/

namespace Quire.Shell

open Decimal (Binary64 roundDiv power)

/-- A number with a sign, or none. -/
inductive Real
  | finite (negative : Bool) (value : Binary64)
  | infinite (negative : Bool)
  | notNumber (negative : Bool)

namespace Real

/-- The digits around a point, how many of them are behind it, and what follows. -/
def around (isDigit : Char → Bool) (t : Text) : Text × Nat × Text :=
  let front := t.takeWhile isDigit
  match t.drop front.length with
  | '.' :: rest =>
    let back := rest.takeWhile isDigit
    (front ++ back, back.length, rest.drop back.length)
  | rest => (front, 0, rest)

/-- The exponent behind one of two letters, and what follows it. -/
def exponent (small capital : Char) (t : Text) : Int × Text :=
  match t with
  | c :: rest =>
    if c = small ∨ c = capital then
      let (negative, ds) :=
        match rest with
        | '-' :: ds => (true, ds)
        | '+' :: ds => (false, ds)
        | ds => (false, ds)
      match digits? (ds.takeWhile Char.isDigit) with
      | some n => (if negative then -(n : Int) else n, ds.dropWhile Char.isDigit)
      | none => (0, t)
    else (0, t)
  | [] => (0, t)

/-- The fraction with the given digits to a base and an exponent. -/
def fraction (digits base : Nat) (e : Int) : Nat × Nat :=
  let (p, r) := power base e
  (digits * p, r)

/-- The number that a text without a sign begins with, and what follows it. -/
def unsigned (negative : Bool) (t : Text) : Option (Real × Text) :=
  let lowered := t.map Char.toLower
  match t with
  | '0' :: x :: rest =>
    let (ds, places, after) := around (fun c => (Sum.digit? 16 c).isSome) rest
    if (x = 'x' ∨ x = 'X') ∧ ds ≠ [] then
      let (e, after) := exponent 'p' 'P' after
      let (num, den) := fraction (Sum.digits 16 ds).1 2 (e - 4 * places)
      some (.finite negative (if num = 0 then ⟨0, 0⟩ else Decimal.nearestTo num den), after)
    else decimal
  | _ =>
    match (lit "infinity").isPrefixOf? lowered, (lit "inf").isPrefixOf? lowered,
        (lit "nan").isPrefixOf? lowered with
    | some _, _, _ => some (.infinite negative, t.drop 8)
    | _, some _, _ => some (.infinite negative, t.drop 3)
    | _, _, some _ => some (.notNumber negative, t.drop 3)
    | _, _, _ => decimal
where
  /-- A number to the base ten. -/
  decimal : Option (Real × Text) :=
    let (ds, places, after) := around Char.isDigit t
    if ds = [] then none
    else
      let (e, after) := exponent 'e' 'E' after
      let scaled : Decimal.Scaled := ⟨(Sum.digits 10 ds).1, e - places⟩
      match scaled.nearest? with
      | some b => some (.finite negative b, after)
      | none => some (.infinite negative, after)

/-- The number that a text begins with, behind blanks and with a sign, and what follows it. -/
def read (t : Text) : Option (Real × Text) :=
  match t.dropWhile Sum.isGap with
  | '-' :: rest => unsigned true rest
  | '+' :: rest => unsigned false rest
  | rest => unsigned false rest

/-- Whether a number is below zero, or would be. -/
def isNegative : Real → Bool
  | .finite n _ => n
  | .infinite n => n
  | .notNumber n => n

/-- A value as a fraction. -/
def parts (b : Binary64) : Nat × Nat := fraction b.significand 2 b.exponent

/-- Digits with the given count of them behind the point. -/
def pointed (always : Bool) (places : Nat) (n : Nat) : Text :=
  let ds := Text.ofNat n
  let padded := List.replicate (places + 1 - ds.length) '0' ++ ds
  let front := padded.take (padded.length - places)
  let back := padded.drop (padded.length - places)
  if places = 0 then (if always then front ++ ['.'] else front) else front ++ '.' :: back

/-- A value with a fixed count of places. -/
def fixed (always : Bool) (places : Nat) (b : Binary64) : Text :=
  let (num, den) := parts b
  pointed always places (roundDiv (num * Nat.pow 10 places) den)

/-- The digits and the exponent of a value with one digit before the point. -/
def scientific (places : Nat) (b : Binary64) : Nat × Int :=
  let (num, den) := parts b
  if num = 0 then (0, 0)
  else
    let digitsAt (e : Int) : Nat :=
      let (p, r) := power 10 (places - e)
      roundDiv (num * p) (den * r)
    let guess : Int := ((Text.ofNat num).length : Int) - (Text.ofNat den).length
    let (p, r) := power 10 guess
    let e := if num * r < den * p then guess - 1 else guess
    if digitsAt e < Nat.pow 10 (places + 1) then (digitsAt e, e) else (digitsAt (e + 1), e + 1)

/-- An exponent of at least two digits, with its sign. -/
def exponentText (e : Int) : Text :=
  let ds := Text.ofNat e.natAbs
  (if e < 0 then '-' else '+') :: (if ds.length < 2 then '0' :: ds else ds)

/-- A value with one digit before the point and an exponent. -/
def withExponent (always : Bool) (places : Nat) (b : Binary64) : Text :=
  let (n, e) := scientific places b
  pointed always places n ++ 'e' :: exponentText e

/-- A text without the zeros at the end of what is behind its point. -/
def withoutZeros (t : Text) : Text :=
  if t.contains '.' then
    let kept := (t.reverse.dropWhile (· = '0')).reverse
    if kept.getLast? = some '.' then kept.dropLast else kept
  else t

/-- A value with so many digits that count, in the shorter way. -/
def general (always : Bool) (count : Nat) (b : Binary64) : Text :=
  let count := max count 1
  let (n, e) := scientific (count - 1) b
  let tidy (t : Text) : Text := if always then t else withoutZeros t
  if -4 ≤ e ∧ e < count then tidy (fixed always (count - 1 - e).toNat b)
  else tidy (pointed always (count - 1) n) ++ 'e' :: exponentText e

/-- The digits of a number to the base sixteen. -/
def hexText (n : Nat) : Text := Nat.toDigits 16 n

/-- A value to the base sixteen with a binary exponent. -/
def hexadecimal (b : Binary64) : Text :=
  if b.significand = 0 then lit "0x0p+0"
  else
    let size := Nat.log2 b.significand
    let behind := hexText (b.significand * Nat.pow 2 (52 - size) % Nat.pow 2 52)
    let padded := List.replicate (13 - behind.length) '0' ++ behind
    let kept := (padded.reverse.dropWhile (· = '0')).reverse
    let e := b.exponent + size
    lit "0x1" ++ (if kept = [] then [] else '.' :: kept) ++ 'p' :: (if e < 0 then '-' else '+') ::
      Text.ofNat e.natAbs

/-- The text of a number without its sign, by the letter of a conversion. -/
def text (letter : Char) (always : Bool) (places : Option Nat) : Real → Text
  | .infinite _ => lit "inf"
  | .notNumber _ => lit "nan"
  | .finite _ b =>
    match letter.toLower with
    | 'f' => fixed always (places.getD 6) b
    | 'e' => withExponent always (places.getD 6) b
    | 'g' => general always (places.getD 6) b
    | _ => hexadecimal b

end Real

end Quire.Shell
