import Quire.Text.Basic

/-!
Numbers with 53 binary digits: the one nearest to a decimal, and the decimal with the fewest digits
that is nearest to it. All is done in exact arithmetic on natural numbers.
-/

namespace Quire.Decimal

/-- The number `significand * 2 ^ exponent`. -/
structure Binary64 where
  significand : Nat
  exponent : Int
deriving DecidableEq

/-- The number `digits * 10 ^ exponent`. -/
structure Scaled where
  digits : Nat
  exponent : Int
deriving DecidableEq

/-- The least exponent of a number with 53 binary digits. -/
def leastExponent : Int := -1074

/-- A power as a fraction: its numerator and its denominator. -/
def power (base : Nat) (e : Int) : Nat × Nat :=
  if e < 0 then (1, Nat.pow base (-e).toNat) else (Nat.pow base e.toNat, 1)

/-- The quotient rounded to the nearest number, a half going to the even one. -/
def roundDiv (num den : Nat) : Nat :=
  let q := num / den
  let r := 2 * (num % den)
  if r < den ∨ (r = den ∧ q % 2 = 0) then q else q + 1

/-- The nearest multiple of `2 ^ q` to a fraction. -/
def roundAt (num den : Nat) (q : Int) : Nat :=
  let (p, r) := power 2 q
  roundDiv (num * r) (den * p)

/-- The number nearest to a positive fraction. -/
def nearestTo (num den : Nat) : Binary64 :=
  let guess : Int := (Nat.log2 num : Int) - (Nat.log2 den : Int) - 53
  let q := max guess leastExponent
  if roundAt num den q < Nat.pow 2 53 then ⟨roundAt num den q, q⟩
  else ⟨roundAt num den (q + 1), q + 1⟩

/-- Whether a number is too large to be written with 11 bits of exponent. -/
def Binary64.overflows (b : Binary64) : Bool :=
  let (p, r) := power 2 b.exponent
  Nat.pow 2 1024 * r ≤ b.significand * p

/-- The number nearest to a decimal. There is none where the decimal is too large. Decimals far
outside the range of these numbers are told by their size alone. -/
def Scaled.nearest? (s : Scaled) : Option Binary64 :=
  let size : Int := (Text.ofNat s.digits).length + s.exponent
  if s.digits = 0 ∨ size < -400 then some ⟨0, leastExponent⟩
  else if 400 < size then none
  else
    let (p, r) := power 10 s.exponent
    let b := nearestTo (s.digits * p) r
    if b.overflows then none else some b

/-- The multiple of `10 ^ g` that reads back as the number and is nearest to it, if one does. In
units of a quarter of the last binary digit, the decimals that read back lie between two below and
two above; only one below where the number is the least of its exponent. -/
def onGrid (b : Binary64) (g : Int) : Option Scaled :=
  let m := b.significand
  let value := 4 * m
  let low := if m = Nat.pow 2 52 ∧ leastExponent < b.exponent then value - 1 else value - 2
  let high := value + 2
  let (p, r) := power 10 g
  let (t, s) := power 2 (b.exponent - 2)
  let step := p * s
  let unit := r * t
  let reads (n : Nat) : Bool :=
    (low * unit < n * step && n * step < high * unit) ||
      (m % 2 = 0 && (n * step = low * unit || n * step = high * unit))
  let below := value * unit / step
  let above := below + 1
  match reads below, reads above with
  | true, true =>
    if value * unit - below * step ≤ above * step - value * unit then some ⟨below, g⟩
    else some ⟨above, g⟩
  | true, false => some ⟨below, g⟩
  | false, true => some ⟨above, g⟩
  | false, false => none

/-- The decimal with the fewest digits that reads back as the number. -/
def Binary64.shortest (b : Binary64) : Scaled :=
  if b.significand = 0 then ⟨0, 0⟩
  else ((List.range 640).findSome? fun (i : Nat) => onGrid b (310 - (i : Int))).getD ⟨0, 0⟩

/-- The digits of a decimal around a point, which always has a digit on each side. -/
def Scaled.positional (s : Scaled) : Text :=
  let digits := Text.ofNat s.digits
  match s.exponent with
  | .ofNat e => digits ++ List.replicate e '0' ++ ['.', '0']
  | .negSucc e =>
    let places := e + 1
    let padded := List.replicate (places + 1 - digits.length) '0' ++ digits
    padded.take (padded.length - places) ++ '.' :: padded.drop (padded.length - places)

end Quire.Decimal
