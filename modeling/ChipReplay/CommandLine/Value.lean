import ChipReplay.Chip.Channel
import ChipReplay.Text.Blank
import ChipReplay.Text.Quoted
/-!
# Values on the command line

Integers are decimal with an optional sign; the first thing that is wrong with one is reported.
A channel mask is a list of channels counted from one, or a word for all or none.
-/

namespace ChipReplay.CommandLine

/-- What is wrong with an integer. -/
inductive IntegerFault where
  | empty
  | invalidDigit
  | tooLarge
  | tooSmall
deriving DecidableEq

/-- The wording of a fault. -/
def IntegerFault.message : IntegerFault → String
  | empty => "cannot parse integer from empty string"
  | invalidDigit => "invalid digit found in string"
  | tooLarge => "number too large to fit in target type"
  | tooSmall => "number too small to fit in target type"

/-- Reads digits behind the number `n`; a number above `limit` is the fault `overflow`. -/
def readDigits (limit : Nat) (overflow : IntegerFault) (n : Nat) :
    List Char → Except IntegerFault Nat
  | [] => .ok n
  | c :: rest =>
    if c.isDigit then
      let n := 10 * n + (c.toNat - '0'.toNat)
      if limit < n then .error overflow else readDigits limit overflow n rest
    else .error .invalidDigit

/-- Reads a number between 0 and `limit`, which may have a plus sign. -/
def readNatural (limit : Nat) (text : String) : Except IntegerFault Nat :=
  match text.toList with
  | [] => .error .empty
  | ['+'] => .error .invalidDigit
  | '+' :: digits => readDigits limit .tooLarge 0 digits
  | digits => readDigits limit .tooLarge 0 digits

/-- The largest 64-bit number. -/
def largestLong : Nat := 0xFFFFFFFFFFFFFFFF

/-- The largest 64-bit number with a sign. -/
def largestInteger : Nat := 0x7FFFFFFFFFFFFFFF

/-- Reads a 64-bit number that may have a sign. -/
def readInteger (text : String) : Except IntegerFault Int :=
  match text.toList with
  | ['-'] => .error .invalidDigit
  | '-' :: digits => (readDigits (largestInteger + 1) .tooSmall 0 digits).map fun n => -(n : Int)
  | _ => (readNatural largestInteger text).map Int.ofNat

/-- Reads a 32-bit number. The answer to any other text is what is wrong with it. -/
def readWord (text : String) : Except String UInt32 :=
  match readInteger text with
  | .error e => .error e.message
  | .ok n =>
    if 0 ≤ n ∧ n < 0x100000000 then .ok (UInt32.ofNat n.toNat)
    else .error (toString n ++ " is not in 0..=4294967295")

/-- Reads a 64-bit number that is at least `least`. -/
def readLong (least : Nat) (text : String) : Except String Nat :=
  match readNatural largestLong text with
  | .error e => .error e.message
  | .ok n =>
    if least ≤ n then .ok n
    else .error (toString n ++ " is not in " ++ toString least ++ "..18446744073709551615")

/-- The pieces of `cs` between commas. -/
def splitCommas (cs : List Char) : List (List Char) :=
  cs.foldr
    (fun c pieces =>
      match pieces with
      | piece :: rest => if c = ',' then [] :: piece :: rest else (c :: piece) :: rest
      | [] => [[c]])
    [[]]

/-- The channel that `piece` names, counted from one. -/
def readChannel (piece : List Char) : Except String Nat :=
  match readNatural largestLong (String.ofList (Text.trim piece)) with
  | .error _ => .error ("not a channel number: " ++ Text.quoted (String.ofList piece))
  | .ok n =>
    if 1 ≤ n ∧ n ≤ fmChannelCount then .ok n
    else .error ("channel " ++ toString n ++ " out of range 1-" ++ toString fmChannelCount)

/-- The set of the channels that `pieces` name. -/
def readChannels : List (List Char) → Except String ChannelSet
  | [] => .ok .empty
  | piece :: rest => do
    let n ← readChannel piece
    return (ChannelSet.single (n - 1)).union (← readChannels rest)

/-- Reads a channel mask. -/
def readMask (text : String) : Except String ChannelSet :=
  let word := String.ofList (Text.trim text.toList)
  if word = "all" then .ok .all
  else if word = "none" ∨ word = "" then .ok .empty
  else readChannels (splitCommas text.toList)

end ChipReplay.CommandLine
