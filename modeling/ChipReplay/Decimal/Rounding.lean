/-!
# Fixed decimal places

A quotient is rounded to the nearest number with a given number of decimal places, a half going
to the even neighbour. A binary floating-point number is a quotient of this kind exactly, so its
text is rounded once.
-/

namespace ChipReplay.Decimal

/-- The whole number nearest to `n / d`, the even one of two. -/
def roundQuotient (n d : Nat) : Nat :=
  let q := n / d
  let twice := 2 * (n % d)
  if twice < d ∨ (twice = d ∧ q % 2 = 0) then q else q + 1

/-- Units of the last of `places` decimal places in one. -/
def unitsOf (places : Nat) : Nat := Nat.pow 10 places

/-- `scaled` with its last `places` digits behind the point. -/
def placePoint (places scaled : Nat) : String :=
  let fraction := toString (scaled % unitsOf places)
  toString (scaled / unitsOf places) ++ "." ++ "".pushn '0' (places - fraction.length) ++ fraction

/-- `n / d` with `places` decimal places. -/
def ofQuotient (places n d : Nat) : String :=
  placePoint places (roundQuotient (n * unitsOf places) d)

/-- The quotient that the bits of a finite floating-point number stand for, its sign left
aside. -/
def quotientOfBits (bits : UInt64) : Nat × Nat :=
  let exponent := ((bits >>> 52) &&& 0x7FF).toNat
  let fraction := (bits &&& 0xFFFFFFFFFFFFF).toNat
  let mantissa := if exponent = 0 then fraction else fraction + 0x10000000000000
  let scale := max exponent 1
  if 1075 ≤ scale then (mantissa <<< (scale - 1075), 1) else (mantissa, 1 <<< (1075 - scale))

/-- A finite number that is not negative, with `places` decimal places. -/
def ofFloat (places : Nat) (x : Float) : String :=
  let (n, d) := quotientOfBits x.toBits
  ofQuotient places n d

end ChipReplay.Decimal
