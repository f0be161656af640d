/-!
# Hexadecimal numbers

Numbers are written most significant digit first, without leading zeros unless a least width is
asked for.
-/

namespace ChipReplay.Hex

/-- `n` in upper-case digits. -/
def upper (n : Nat) : String :=
  String.ofList ((Nat.toDigits 16 n).map Char.toUpper)

/-- `n` in lower-case digits. -/
def lower (n : Nat) : String :=
  String.ofList (Nat.toDigits 16 n)

/-- `digits` with zeros in front up to `width` characters. -/
def padTo (width : Nat) (digits : String) : String :=
  "".pushn '0' (width - digits.length) ++ digits

/-- Two lower-case digits for every byte. -/
def ofBytes (bytes : ByteArray) : String :=
  bytes.foldl
    (fun text b =>
      (text.push (Nat.digitChar (b.toNat / 16))).push (Nat.digitChar (b.toNat % 16)))
    ""

/-- Two upper-case digits for every byte, between brackets and separated by commas. -/
def byteList (bytes : List UInt8) : String :=
  "[" ++ String.intercalate ", " (bytes.map fun b => padTo 2 (upper b.toNat)) ++ "]"

end ChipReplay.Hex
