/-!
# Double-precision numbers

A number is kept as the bits of its IEEE 754 double, so that every value, the not-a-numbers
included, stays what it is. Arithmetic happens on exact naturals: `Binary64.ofRatio` rounds a
quotient once, to the nearest double and a tie to the even one.
-/

namespace ReactiveTemplate

/-- The integer nearest to `num / den`, the even one of two equally near. -/
def roundRatio (num den : Nat) : Nat :=
  let floor := num / den
  let rest := 2 * (num % den)
  if rest < den then floor else if den < rest then floor + 1 else floor + floor % 2

/-- The weight of the leading bit of a significand, which a normal number does not store. -/
def hiddenBit : Nat :=
  0x10000000000000

/-- The natural nearest to `n` among those with at most 53 significant bits, a tie going to the one
with an even significand. -/
def roundNat (n : Nat) : Nat :=
  if n < 2 * hiddenBit then n
  else
    let unit := 1 <<< (n.log2 - 52)
    roundRatio n unit * unit

/-- A double-precision number, as its bits. -/
structure Binary64 where
  bits : UInt64
deriving DecidableEq, Inhabited

namespace Binary64

/-- The bits of the positive infinity; those of every positive finite number are below. -/
def infinityBits : Nat :=
  0x7FF * hiddenBit

/-- The positive infinity. -/
def infinity : Binary64 :=
  ⟨infinityBits.toUInt64⟩

/-- What the bits of a number stand for. -/
inductive Meaning where
  /-- The number `significand * 2 ^ exponent`, or its negative. -/
  | finite (negative : Bool) (significand : Nat) (exponent : Int)
  | infinite (negative : Bool)
  | notANumber

/-- What a number stands for. -/
def meaning (x : Binary64) : Meaning :=
  let bits := x.bits.toNat
  let negative : Bool := 0x800 * hiddenBit ≤ bits
  let exponent := bits / hiddenBit % 0x800
  let fraction := bits % hiddenBit
  if exponent = 0x7FF then
    if fraction = 0 then .infinite negative else .notANumber
  else if exponent = 0 then .finite negative fraction (-1074)
  else .finite negative (hiddenBit + fraction) (exponent - 1075)

/-- The integer part of the binary logarithm of `num / den`. -/
def log2Ratio (num den : Nat) : Int :=
  let guess : Int := num.log2 - den.log2
  if den <<< guess.toNat ≤ num <<< (-guess).toNat then guess else guess - 1

/-- The double nearest to `num / den`, infinity when that is out of range. Its significand has 53
bits, or fewer where the exponent is the least one; adding the significand to the exponent field
puts a significand that is rounded up to the next power of two in its place. -/
def ofRatio (num den : Nat) : Binary64 :=
  if num = 0 then ⟨0⟩
  else
    let exponent := max (log2Ratio num den - 52) (-1074)
    let significand := roundRatio (num <<< (-exponent).toNat) (den <<< exponent.toNat)
    let bits := (exponent + 1074).toNat * hiddenBit + significand
    if bits < infinityBits then ⟨bits.toUInt64⟩ else infinity

/-- The double nearest to a natural number. -/
def ofNat (n : Nat) : Binary64 :=
  ofRatio n 1

/-- The double nearest to `coefficient * 10 ^ exponent`. -/
def ofScientific (coefficient : Nat) (exponent : Int) : Binary64 :=
  ofRatio (coefficient * Nat.pow 10 exponent.toNat) (Nat.pow 10 (-exponent).toNat)

end Binary64

end ReactiveTemplate
