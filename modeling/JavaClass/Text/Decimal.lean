/-
Binary floating point numbers in decimal. A number is shown with the fewest digits that read
back as the same number, and of the decimals with that many digits the one nearest to it is
taken; one that lies exactly between two neighbours goes to the larger. There is never an
exponent: zeros fill up to the point.

The numbers that read back as a given one form an interval around it, reaching half way to its
neighbours; its ends belong to it exactly if the significand is even. For each count of digits
the two decimals next to the number are tried in exact arithmetic, and the first count at which
one of them lies in the interval wins.
-/

namespace JavaClass.Text.Decimal

/-- The layout of a binary floating point format. -/
structure Format where
  fractionBits : Nat
  exponentBits : Nat

/-- Thirty-two bits: one for the sign, eight for the exponent. -/
def single : Format := ⟨23, 8⟩

/-- Sixty-four bits: one for the sign, eleven for the exponent. -/
def double : Format := ⟨52, 11⟩

/-- What the bits of a number mean. A finite magnitude is `significand * 2 ^ exponent`, and
`tightBelow` tells that its lower neighbour is only half as far away as the upper one. -/
inductive Value
  | nan
  | infinite (negative : Bool)
  | finite (negative : Bool) (significand : Nat) (exponent : Int) (tightBelow : Bool)

/-- Takes the bits of a number apart. -/
def Format.value (format : Format) (bits : Nat) : Value :=
  let fraction := bits % Nat.pow 2 format.fractionBits
  let biased := bits / Nat.pow 2 format.fractionBits % Nat.pow 2 format.exponentBits
  let negative := bits / Nat.pow 2 (format.fractionBits + format.exponentBits) % 2 == 1
  let lowest : Int := 2 - (Nat.pow 2 (format.exponentBits - 1) : Nat) - format.fractionBits
  if biased == Nat.pow 2 format.exponentBits - 1 then
    if fraction == 0 then .infinite negative else .nan
  else if biased == 0 then .finite negative fraction lowest false
  else
    .finite negative (Nat.pow 2 format.fractionBits + fraction) (lowest + (biased - 1 : Nat))
      (fraction == 0 && 1 < biased)

/-- A positive magnitude and the interval of what reads back as it, as numerators over one
denominator. -/
structure Interval where
  lower : Nat
  middle : Nat
  upper : Nat
  denominator : Nat
  closed : Bool

/-- The interval around `significand * 2 ^ exponent`. The numerators count quarters of the last
place. -/
def Interval.around (significand : Nat) (exponent : Int) (tightBelow : Bool) : Interval :=
  let scale := Nat.pow 2 (exponent - 2).toNat
  { lower := (4 * significand - if tightBelow then 1 else 2) * scale
    middle := 4 * significand * scale
    upper := (4 * significand + 2) * scale
    denominator := Nat.pow 2 (2 - exponent).toNat
    closed := significand % 2 == 0 }

/-- Whether `count * 10 ^ power` lies in the interval. -/
def Interval.holds (interval : Interval) (count : Nat) (power : Int) : Bool :=
  let point := count * Nat.pow 10 power.toNat * interval.denominator
  let widen := Nat.pow 10 (-power).toNat
  if interval.closed then
    interval.lower * widen ≤ point && point ≤ interval.upper * widen
  else interval.lower * widen < point && point < interval.upper * widen

/-- How many steps of `10 ^ power` fit below the middle, and whether the next multiple is at
least as near as the last one below. -/
def Interval.below (interval : Interval) (power : Int) : Nat × Bool :=
  let step := Nat.pow 10 power.toNat * interval.denominator
  let middle := interval.middle * Nat.pow 10 (-power).toNat
  (middle / step, step ≤ 2 * (middle % step))

/-- A decimal numeral, `digits * 10 ^ power`. -/
structure Numeral where
  digits : Nat
  power : Int

/-- The multiple of `10 ^ power` next to the middle that lies in the interval, the nearer one if
both neighbours do. -/
def Interval.neighbour? (interval : Interval) (power : Int) : Option Numeral :=
  let (count, upIsNear) := interval.below power
  let down := interval.holds count power
  let up := interval.holds (count + 1) power
  if up && (upIsNear || !down) then some ⟨count + 1, power⟩
  else if down then some ⟨count, power⟩
  else none

/-- The greatest power of ten not above the middle. -/
def Interval.magnitude (interval : Interval) : Int :=
  let whole := interval.middle / interval.denominator
  if 0 < whole then (Nat.toDigits 10 whole).length - 1
  else -(places (Nat.log2 interval.denominator + 1) interval.middle : Nat)
where
  /-- How often a numerator has to be multiplied by ten to reach the denominator. -/
  places : Nat → Nat → Nat
    | 0, _ => 0
    | limit + 1, numerator =>
      if interval.denominator ≤ numerator then 0 else places limit (numerator * 10) + 1

/-- The longest decimal that is ever needed has seventeen digits. -/
def mostDigits : Nat := 17

/-- The shortest decimal of the interval, and the nearest of those. -/
def Interval.shortest (interval : Interval) : Numeral :=
  let magnitude := interval.magnitude
  let powers := (List.range mostDigits).map fun extra : Nat => magnitude - extra
  match powers.findSome? interval.neighbour? with
  | some numeral => numeral
  | none => ⟨(interval.below (magnitude - mostDigits)).1, magnitude - mostDigits⟩

/-- The digits of a numeral with a point where it belongs and no zero at the end behind it. -/
def Numeral.render (numeral : Numeral) : String :=
  let digits := Nat.toDigits 10 numeral.digits
  if 0 ≤ numeral.power then
    String.ofList (digits ++ List.replicate numeral.power.toNat '0')
  else
    let places := (-numeral.power).toNat
    let padded := List.replicate (places + 1 - digits.length) '0' ++ digits
    let whole := padded.take (padded.length - places)
    let fraction := ((padded.drop (padded.length - places)).reverse.dropWhile (· == '0')).reverse
    if fraction.isEmpty then String.ofList whole
    else String.ofList (whole ++ '.' :: fraction)

/-- The text of a number given by its bits. -/
def Format.render (format : Format) (bits : Nat) : String :=
  match format.value bits with
  | .nan => "NaN"
  | .infinite negative => if negative then "-inf" else "inf"
  | .finite negative significand exponent tightBelow =>
    let magnitude :=
      if significand == 0 then "0"
      else (Interval.around significand exponent tightBelow).shortest.render
    if negative then "-" ++ magnitude else magnitude

end JavaClass.Text.Decimal
