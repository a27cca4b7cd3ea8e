import ReactiveTemplate.Number.Shortest

/-!
# Layouts of decimals

A decimal is written positionally or with an exponent. A `Layout` records the choices of one format;
the library writes values for people and numbers in JSON, each with a layout of its own.
-/

namespace ReactiveTemplate

/-- The choices of a format for decimals. -/
structure Layout where
  /-- Which of two equally near decimals is written. -/
  tie : Tie
  /-- Whether a decimal `d.ddd * 10 ^ n` is written without an exponent. -/
  isPositional : Int → Bool
  /-- Whether an integer written without an exponent ends in `.0`. -/
  keepsFraction : Bool

namespace Layout

/-- A run of zeros. -/
def zeros (n : Nat) : List Char :=
  List.replicate n '0'

/-- A decimal without an exponent. -/
def positional (keepsFraction : Bool) (d : Decimal) : List Char :=
  let count := d.digits.length
  if d.exponent ≤ 0 then '0' :: '.' :: zeros (-d.exponent).toNat ++ d.digits
  else
    let whole := d.exponent.toNat
    if whole < count then d.digits.take whole ++ '.' :: d.digits.drop whole
    else d.digits ++ zeros (whole - count) ++ if keepsFraction then ['.', '0'] else []

/-- A decimal with one digit before the point and a signed exponent. -/
def scientific (d : Decimal) : List Char :=
  let exponent := d.exponent - 1
  let mantissa :=
    match d.digits with
    | first :: second :: rest => first :: '.' :: second :: rest
    | digits => digits
  let sign := if exponent < 0 then '-' else '+'
  mantissa ++ 'e' :: sign :: Decimal.digitsOf exponent.natAbs

/-- The text of the finite number `significand * 2 ^ exponent`, or of its negative. -/
def finite (layout : Layout) (negative : Bool) (significand : Nat) (exponent : Int) : String :=
  let d := Decimal.shortest layout.tie significand exponent
  let digits :=
    if layout.isPositional (d.exponent - 1) then positional layout.keepsFraction d
    else scientific d
  String.ofList (if negative then '-' :: digits else digits)

/-- Values are shown without an exponent, and an integer without a fraction. -/
def plain : Layout :=
  ⟨.up, fun _ => true, false⟩

/-- In JSON a number is positional from `1e-5` up to, but not including, `1e16`, and an integer
written so keeps a fraction. -/
def json : Layout :=
  ⟨.even, fun exponent => -5 ≤ exponent && exponent < 16, true⟩

end Layout

/-- The text of a number for people. -/
def Binary64.display (x : Binary64) : String :=
  match x.meaning with
  | .finite negative significand exponent => Layout.plain.finite negative significand exponent
  | .infinite negative => if negative then "-inf" else "inf"
  | .notANumber => "NaN"

/-- The text of a number in JSON, where only finite numbers have one. -/
def Binary64.json? (x : Binary64) : Option String :=
  match x.meaning with
  | .finite negative significand exponent => some (Layout.json.finite negative significand exponent)
  | .infinite _ => none
  | .notANumber => none

end ReactiveTemplate
