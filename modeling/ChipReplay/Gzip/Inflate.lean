import ChipReplay.Bytes.Basic
/-!
# Inflating compressed data

A compressed stream is a run of blocks, read bit by bit from the lowest bit of each byte. A
block is stored as it is or coded by a pair of prefix codes, fixed or sent ahead. Positions here
count bits. Every code has at least one bit, so the number of bits bounds every loop.
-/

namespace ChipReplay.Gzip

/-- Why data cannot be inflated. -/
inductive InflateError where
  /-- The data ends too early. -/
  | truncated
  /-- The data is no compressed stream. -/
  | corrupt
deriving DecidableEq

/-! ## Bits -/

/-- The bit at position `pos`. -/
def bitAt (input : ByteArray) (pos : Nat) : Except InflateError Nat :=
  if pos / 8 < input.size then
    .ok ((Bytes.peek input (pos / 8)).toNat >>> (pos % 8) % 2)
  else .error .truncated

/-- The number made of the `n` bits from `pos` on, lowest first. -/
def bitsAt (input : ByteArray) (pos : Nat) : Nat → Except InflateError Nat
  | 0 => .ok 0
  | n + 1 => do
    let low ← bitAt input pos
    let high ← bitsAt input (pos + 1) n
    return low + 2 * high

/-! ## Prefix codes -/

/-- The longest code word. -/
def maxCodeLength : Nat := 15

/-- A prefix code, given by how many symbols have code words of each length, and the symbols by
length of their code words. -/
structure PrefixCode where
  counts : Array Nat
  symbols : Array Nat

namespace PrefixCode

/-- The code in which symbol `i` has a word of `lengths[i]` bits, and none if that is zero. -/
def ofLengths (lengths : List Nat) : PrefixCode where
  counts := (Array.range (maxCodeLength + 1)).map fun n =>
    if n = 0 then 0 else lengths.countP (· == n)
  symbols := ((List.range maxCodeLength).flatMap fun n =>
    lengths.zipIdx.filterMap fun (length, symbol) =>
      if length = n + 1 then some symbol else none).toArray

/-- Whether the words use up all sequences of bits, so that each begins with exactly one. -/
def isComplete (c : PrefixCode) : Bool :=
  (List.range maxCodeLength).foldl
    (fun sum n => sum + c.counts.getD (n + 1) 0 <<< (maxCodeLength - (n + 1))) 0
    == 1 <<< maxCodeLength

/-- Whether there is one word, of one bit. -/
def isSingle (c : PrefixCode) : Bool := c.symbols.size == 1 && c.counts.getD 1 0 == 1

/-- Whether there are no words. -/
def isEmpty (c : PrefixCode) : Bool := c.symbols.isEmpty

/-- Whether a block may send `c` ahead: a complete code, a single word of one bit, or no words.
A code without words is at fault only once a word of it is to be read. -/
def isUsable (c : PrefixCode) : Bool := c.isComplete || c.isSingle || c.isEmpty

/-- Reads the symbol whose code word is at `pos`, and the position behind it. `code` is the word
so far, `first` the first word of the length reached and `index` that word's symbol. Longer words
follow each other, so a beginning that comes behind as many as are left is none of theirs. -/
def decodeFrom (c : PrefixCode) (input : ByteArray) (pos length code first index : Nat) :
    Nat → Except InflateError (Nat × Nat)
  | 0 => .error .corrupt
  | more + 1 => do
    let code := code + (← bitAt input pos)
    let count := c.counts.getD length 0
    if code < first + count then return (c.symbols.getD (index + (code - first)) 0, pos + 1)
    if c.symbols.size ≤ index + (code - first) then throw .corrupt
    c.decodeFrom input (pos + 1) (length + 1) (2 * code) (2 * (first + count)) (index + count) more

/-- Reads the symbol whose code word is at `pos`, and the position behind it. -/
def decode (c : PrefixCode) (input : ByteArray) (pos : Nat) : Except InflateError (Nat × Nat) :=
  c.decodeFrom input pos 1 0 0 0 maxCodeLength

end PrefixCode

/-! ## Coded blocks -/

/-- The base and the number of extra bits of each length symbol, from 257 on. -/
def lengthSymbols : Array (Nat × Nat) :=
  #[(3, 0), (4, 0), (5, 0), (6, 0), (7, 0), (8, 0), (9, 0), (10, 0), (11, 1), (13, 1), (15, 1),
    (17, 1), (19, 2), (23, 2), (27, 2), (31, 2), (35, 3), (43, 3), (51, 3), (59, 3), (67, 4),
    (83, 4), (99, 4), (115, 4), (131, 5), (163, 5), (195, 5), (227, 5), (258, 0)]

/-- The base and the number of extra bits of each distance symbol. -/
def distanceSymbols : Array (Nat × Nat) :=
  #[(1, 0), (2, 0), (3, 0), (4, 0), (5, 1), (7, 1), (9, 2), (13, 2), (17, 3), (25, 3), (33, 4),
    (49, 4), (65, 5), (97, 5), (129, 6), (193, 6), (257, 7), (385, 7), (513, 8), (769, 8),
    (1025, 9), (1537, 9), (2049, 10), (3073, 10), (4097, 11), (6145, 11), (8193, 12),
    (12289, 12), (16385, 13), (24577, 13)]

/-- The byte `distance` places before the end of `out`; what lies before its start is zero. -/
def lookBack (out : ByteArray) (distance : Nat) : UInt8 :=
  if distance ≤ out.size then Bytes.peek out (out.size - distance) else 0

/-- `length` bytes are copied from `distance` places back, one by one. -/
def copyBack (out : ByteArray) (distance : Nat) : Nat → ByteArray
  | 0 => out
  | length + 1 => copyBack (out.push (lookBack out distance)) distance length

/-- The value of a symbol with extra bits, and the position behind those. -/
def extended (input : ByteArray) (pos : Nat) (symbol : Option (Nat × Nat)) :
    Except InflateError (Nat × Nat) :=
  match symbol with
  | none => .error .corrupt
  | some (base, extra) => do return (base + (← bitsAt input pos extra), pos + extra)

/-- Inflates symbols up to the end of the block. -/
def inflateCoded (input : ByteArray) (literals distances : PrefixCode) (pos : Nat)
    (out : ByteArray) : Nat → Except InflateError (Nat × ByteArray)
  | 0 => .error .truncated
  | more + 1 =>
    match literals.decode input pos with
    | .error e => .error e
    | .ok (symbol, pos) =>
      if symbol < 256 then
        inflateCoded input literals distances pos (out.push (UInt8.ofNat symbol)) more
      else if symbol = 256 then .ok (pos, out)
      else
        match (do
          let (length, pos) ← extended input pos lengthSymbols[symbol - 257]?
          let (symbol, pos) ← distances.decode input pos
          let (distance, pos) ← extended input pos distanceSymbols[symbol]?
          return (length, distance, pos) : Except InflateError (Nat × Nat × Nat)) with
        | .error e => .error e
        | .ok (length, distance, pos) =>
          inflateCoded input literals distances pos (copyBack out distance length) more

/-- The literal code of fixed blocks. -/
def fixedLiterals : List Nat :=
  List.replicate 144 8 ++ List.replicate 112 9 ++ List.replicate 24 7 ++ List.replicate 8 8

/-- The distance code of fixed blocks. -/
def fixedDistances : List Nat := List.replicate 32 5

/-- The order in which the lengths of the code of lengths are sent. -/
def lengthOrder : List Nat := [16, 17, 18, 0, 8, 7, 9, 6, 10, 5, 11, 4, 12, 3, 13, 2, 14, 1, 15]

/-- The three-bit numbers from `pos` on, `n` of them. -/
def smallLengths (input : ByteArray) (pos : Nat) : Nat → Except InflateError (List Nat)
  | 0 => .ok []
  | n + 1 => do
    let length ← bitsAt input pos 3
    return length :: (← smallLengths input (pos + 3) n)

/-- Reads code lengths until there are `total`; `found` holds those read, newest first. -/
def codeLengths (input : ByteArray) (code : PrefixCode) (total pos : Nat) (found : List Nat) :
    Nat → Except InflateError (Nat × List Nat)
  | 0 => .error .truncated
  | more + 1 => do
    if total < found.length then throw .corrupt
    if found.length = total then return (pos, found.reverse)
    let (symbol, pos) ← code.decode input pos
    if symbol < 16 then codeLengths input code total pos (symbol :: found) more
    else if symbol = 16 then
      match found with
      | [] => throw .corrupt
      | last :: _ =>
        let n ← bitsAt input pos 2
        codeLengths input code total (pos + 2) (List.replicate (3 + n) last ++ found) more
    else if symbol = 17 then
      let n ← bitsAt input pos 3
      codeLengths input code total (pos + 3) (List.replicate (3 + n) 0 ++ found) more
    else
      let n ← bitsAt input pos 7
      codeLengths input code total (pos + 7) (List.replicate (11 + n) 0 ++ found) more

/-- Reads the two codes of a block that sends them ahead. -/
def readCodes (input : ByteArray) (pos : Nat) :
    Except InflateError (PrefixCode × PrefixCode × Nat) := do
  let literals := 257 + (← bitsAt input pos 5)
  let distances := 1 + (← bitsAt input (pos + 5) 5)
  let sent := 4 + (← bitsAt input (pos + 10) 4)
  if 286 < literals ∨ 30 < distances then throw .corrupt
  let small ← smallLengths input (pos + 14) sent
  let placed := lengthOrder.zip small
  let code := PrefixCode.ofLengths ((List.range 19).map fun s => (placed.lookup s).getD 0)
  if !code.isComplete then throw .corrupt
  let total := literals + distances
  let (pos, lengths) ← codeLengths input code total (pos + 14 + 3 * sent) [] (total + 1)
  let distanceCode := PrefixCode.ofLengths (lengths.drop literals)
  let literalCode := PrefixCode.ofLengths (lengths.take literals)
  if !(literalCode.isUsable && distanceCode.isUsable) then throw .corrupt
  return (literalCode, distanceCode, pos)

/-! ## Blocks -/

/-- Inflates a stored block whose type ends at `pos`. -/
def inflateStored (input : ByteArray) (pos : Nat) (out : ByteArray) :
    Except InflateError (Nat × ByteArray) :=
  let start := (pos + 7) / 8
  match Bytes.word16At input start, Bytes.word16At input (start + 2) with
  | .ok length, .ok check =>
    if length ^^^ check ≠ 0xFFFF then .error .corrupt
    else
      let stop := start + 4 + length.toNat
      if stop ≤ input.size then .ok (8 * stop, Bytes.appendRange out input (start + 4) stop)
      else .error .truncated
  | _, _ => .error .truncated

/-- The two codes of a coded block of type `type` whose type ends at `pos`, and the position
behind them. -/
def blockCodes (input : ByteArray) (type pos : Nat) :
    Except InflateError (PrefixCode × PrefixCode × Nat) := do
  if type = 1 then
    return (PrefixCode.ofLengths fixedLiterals, PrefixCode.ofLengths fixedDistances, pos)
  else if type = 2 then readCodes input pos
  else throw .corrupt

/-- Inflates the block at `pos`. Answers whether it is the last one. -/
def inflateBlock (input : ByteArray) (pos : Nat) (out : ByteArray) :
    Except InflateError (Bool × Nat × ByteArray) := do
  let last ← bitAt input pos
  let type ← bitsAt input (pos + 1) 2
  if type = 0 then
    let (pos, out) ← inflateStored input (pos + 3) out
    return (last == 1, pos, out)
  else
    let (literals, distances, pos) ← blockCodes input type (pos + 3)
    let (pos, out) ← inflateCoded input literals distances pos out (8 * input.size + 1)
    return (last == 1, pos, out)

/-- Inflates blocks up to the last one, at most `limit` of them. -/
def inflateBlocks (input : ByteArray) (pos : Nat) (out : ByteArray) :
    Nat → Except InflateError (Nat × ByteArray)
  | 0 => .error .truncated
  | limit + 1 =>
    match inflateBlock input pos out with
    | .error e => .error e
    | .ok (true, pos, out) => .ok (pos, out)
    | .ok (false, pos, out) => inflateBlocks input pos out limit

/-- Inflates the stream that begins at byte `start`. Answers the byte behind it and the inflated
data. -/
def inflate (input : ByteArray) (start : Nat) : Except InflateError (Nat × ByteArray) := do
  let (pos, out) ← inflateBlocks input (8 * start) .empty (8 * input.size + 1)
  return ((pos + 7) / 8, out)

end ChipReplay.Gzip
