import ReactiveTemplate.Number.Binary64

/-!
# Shortest decimals

Every finite number is written with the fewest digits that read back as the same number. Of two
decimals with that many digits the nearer one is taken; which one when both are equally near is a
choice of the format.
-/

namespace ReactiveTemplate

/-- Which of two equally near decimals is taken. -/
inductive Tie where
  | up
  | even

/-- The decimal `0.d₁d₂…dₙ * 10 ^ exponent`. -/
structure Decimal where
  digits : List Char
  exponent : Int

namespace Decimal

/-- The decimal digits of a natural number. -/
def digitsOf (n : Nat) : List Char :=
  Nat.toDigits 10 n

/-- The least `k` with `num / den < 10 ^ k`, for a positive quotient. -/
def magnitude (num den : Nat) : Int :=
  if den ≤ num then (digitsOf (num / den)).length
  else 1 - ((digitsOf ((den - 1) / num)).length : Int)

/-- The numbers that round to one double: those from `low / den` to `high / den`, around the double
`middle / den` itself. -/
structure Interval where
  low : Nat
  middle : Nat
  high : Nat
  den : Nat
  /-- Whether the two ends belong to it. -/
  closed : Bool

/-- The numbers that round to `significand * 2 ^ exponent`. Below a power of two the doubles lie
closer together. -/
def Interval.around (significand : Nat) (exponent : Int) : Interval :=
  let below := if significand = hiddenBit ∧ -1074 < exponent then 1 else 2
  { low := (4 * significand - below) <<< exponent.toNat
    middle := (4 * significand) <<< exponent.toNat
    high := (4 * significand + 2) <<< exponent.toNat
    den := 4 <<< (-exponent).toNat
    closed := significand % 2 == 0 }

/-- Whether `n` units of `unit / den` lie in an interval, all three scaled by `scale`. -/
def Interval.holds (i : Interval) (scale unit n : Nat) : Bool :=
  let x := n * unit
  if i.closed then i.low * scale ≤ x && x ≤ i.high * scale
  else i.low * scale < x && x < i.high * scale

/-- The decimal of at most `count` digits in an interval that is nearest to its middle, if there is
one; `exponent` is the magnitude of the middle. -/
def nearest? (tie : Tie) (i : Interval) (exponent : Int) (count : Nat) : Option Nat :=
  let scale := Nat.pow 10 (count - exponent).toNat
  let unit := i.den * Nat.pow 10 (exponent - count).toNat
  let floor := i.middle * scale / unit
  match i.holds scale unit floor, i.holds scale unit (floor + 1) with
  | false, false => none
  | true, false => some floor
  | false, true => some (floor + 1)
  | true, true =>
      let middle := 2 * i.middle * scale
      let between := (2 * floor + 1) * unit
      if middle < between then some floor
      else if between < middle then some (floor + 1)
      else
        match tie with
        | .up => some (floor + 1)
        | .even => some (floor + floor % 2)

/-- A decimal of `count` digits and the given magnitude, or the power of ten above all of these,
without the zeros at its end. -/
def ofCoefficient (coefficient count : Nat) (exponent : Int) : Decimal :=
  let digits := digitsOf coefficient
  ⟨(digits.reverse.dropWhile (· == '0')).reverse, exponent + (digits.length - count)⟩

/-- The shortest decimal that reads back as `significand * 2 ^ exponent`: 17 digits tell any two
doubles apart. -/
def shortest (tie : Tie) (significand : Nat) (exponent : Int) : Decimal :=
  if significand = 0 then ⟨['0'], 1⟩
  else
    let i := Interval.around significand exponent
    let k := magnitude i.middle i.den
    match (List.range 17).findSome? fun n => (nearest? tie i k (n + 1)).map (·, n + 1) with
    | some (coefficient, count) => ofCoefficient coefficient count k
    | none => ofCoefficient i.middle 17 k

end Decimal

end ReactiveTemplate
