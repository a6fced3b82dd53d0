/-!
# Single-precision numbers

A number of the binary32 format, held by its encoding, and its decimal text. The text has the
fewest digits that read back to the same number, and is always positional.
-/
namespace StyleFamily

/-- A binary32 number: a sign, an exponent of 8 bits and a fraction of 23. -/
structure Single where
  bits : UInt32
deriving DecidableEq

namespace Single

def isNegative (x : Single) : Bool := x.bits.toNat / Nat.pow 2 31 == 1
def exponentField (x : Single) : Nat := x.bits.toNat / Nat.pow 2 23 % 256
def fraction (x : Single) : Nat := x.bits.toNat % Nat.pow 2 23

def isNaN (x : Single) : Bool := x.exponentField == 255 && x.fraction != 0
def isInfinite (x : Single) : Bool := x.exponentField == 255 && x.fraction == 0
def isZero (x : Single) : Bool := x.exponentField == 0 && x.fraction == 0

/-- Equality of numbers: a NaN equals nothing, and the two zeros are one. -/
def same (x y : Single) : Bool :=
  !x.isNaN && !y.isNaN && (x == y || x.isZero && y.isZero)

/-- The magnitude of a finite number is `significand * 2 ^ power`. -/
def significand (x : Single) : Nat :=
  if x.exponentField = 0 then x.fraction else x.fraction + Nat.pow 2 23

def power (x : Single) : Int := max x.exponentField 1 - 150

/-- How far the reals that round to the number reach below it, in quarters of its last place. -/
def reachBelow (x : Single) : Nat :=
  if x.fraction = 0 && 1 < x.exponentField then 1 else 2

/-- A quarter of the last place over `10 ^ p`, as numerator and denominator. -/
def quarterOver (x : Single) (p : Int) : Nat × Nat :=
  let q := x.power - 2
  (Nat.pow 2 q.toNat * Nat.pow 10 (-p).toNat, Nat.pow 2 (-q).toNat * Nat.pow 10 p.toNat)

/-- Whether `c * 10 ^ p` rounds to the magnitude of the number; the ends of the interval belong to
it when the significand is even. -/
def readsBack (x : Single) (p : Int) (c : Nat) : Bool :=
  let (n, d) := x.quarterOver p
  let low := (4 * x.significand - x.reachBelow) * n
  let high := (4 * x.significand + 2) * n
  if x.significand % 2 = 0 then low ≤ c * d && c * d ≤ high
  else low < c * d && c * d < high

/-- The multiple of `10 ^ p` nearest to the magnitude among its two neighbours that read back; the
upper one if both are equally near. -/
def pointOn? (x : Single) (p : Int) : Option Nat :=
  let (n, d) := x.quarterOver p
  let c := 4 * x.significand * n / d
  match x.readsBack p c, x.readsBack p (c + 1) with
  | true, true => some (if (2 * c + 1) * d ≤ 8 * x.significand * n then c + 1 else c)
  | true, false => some c
  | false, true => some (c + 1)
  | false, false => none

/-- Digits and power of ten of the shortest decimal: its point on the coarsest grid of decimals
that has one, from `10 ^ 39` down. -/
def shortest (x : Single) : Nat × Int :=
  ((List.range 100).findSome? fun (i : Nat) =>
    let p : Int := 39 - i
    (x.pointOn? p).map (·, p)).getD (0, 0)

/-- `c * 10 ^ p` written with a point and without an exponent. -/
def positional (c : Nat) (p : Int) : String :=
  let digits := toString c
  if 0 ≤ p then digits ++ String.ofList (List.replicate p.toNat '0')
  else
    let places := (-p).toNat
    let padded := List.replicate (places + 1 - digits.length) '0' ++ digits.toList
    let whole := padded.length - places
    String.ofList (padded.take whole) ++ "." ++ String.ofList (padded.drop whole)

/-- The decimal text of the number. -/
def text (x : Single) : String :=
  if x.isNaN then "NaN"
  else
    let sign := if x.isNegative then "-" else ""
    if x.isInfinite then sign ++ "inf"
    else if x.isZero then sign ++ "0"
    else
      let (c, p) := x.shortest
      sign ++ positional c p

/-- One half. -/
def half : Single := ⟨0x3F000000⟩

/-- Eight. -/
def eight : Single := ⟨0x41000000⟩

end Single
end StyleFamily
