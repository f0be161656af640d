import ChipReplay.Preparation.Sample
import ChipReplay.SampleMemory
/-!
# Banks of sample memory

Both sample ROMs share one memory, in banks of 64 KiB. Blocks of one kind that share a bank form
a group and keep their places relative to each other; a group gets the next free banks, and the
next 1 MiB segment if it fits into one segment but would not lie in one. Only the bank number of
a sample changes, so a stream is adapted by replacing bank bytes.
-/

namespace ChipReplay

/-- Bytes in a bank. -/
def bankSize : Nat := 0x10000

/-- Banks in a segment, which the ADPCM address counters cannot leave. -/
def banksPerSegment : Nat := 16

/-- Bytes in a segment. -/
def segmentSize : Nat := bankSize * banksPerSegment

/-- The ROM bank of the block's first byte. -/
def SampleBlock.firstBank (b : SampleBlock) : Nat := b.romOffset / bankSize

/-- The ROM bank of the block's last byte. -/
def SampleBlock.lastBank (b : SampleBlock) : Nat := (b.romStop - 1) / bankSize

/-- Blocks of one kind that share banks, by ROM offset. -/
structure BankGroup where
  kind : SampleKind
  /-- ROM offset of the first byte. -/
  romStart : Nat
  /-- End of the group in the ROM. -/
  romStop : Nat
  /-- Bank of the last byte. -/
  lastBank : Nat
  /-- The blocks, newest first. -/
  members : List SampleBlock

namespace BankGroup

/-- The group of `b` alone. -/
def single (b : SampleBlock) : BankGroup where
  kind := b.kind
  romStart := b.romOffset
  romStop := b.romStop
  lastBank := b.lastBank
  members := [b]

/-- `b` joins the group. -/
def add (g : BankGroup) (b : SampleBlock) : BankGroup :=
  { g with
    romStop := max g.romStop b.romStop
    lastBank := max g.lastBank b.lastBank
    members := b :: g.members }

/-- Whether `b`, which does not begin before the group, shares a bank with it. -/
def shares (g : BankGroup) (b : SampleBlock) : Bool :=
  b.kind == g.kind && b.firstBank ≤ g.lastBank

/-- The groups of `g` followed by the given blocks. -/
def collectOnto (g : BankGroup) : List SampleBlock → List BankGroup
  | [] => [g]
  | b :: rest =>
    if g.shares b then collectOnto (g.add b) rest else g :: collectOnto (single b) rest

/-- The groups of blocks sorted by kind and ROM offset. -/
def collect : List SampleBlock → List BankGroup
  | [] => []
  | b :: rest => collectOnto (single b) rest

/-- The bank of the first byte. -/
def firstBank (g : BankGroup) : Nat := g.romStart / bankSize

/-- Where the group begins inside its first bank. -/
def low (g : BankGroup) : Nat := g.romStart % bankSize

/-- Bytes from the first of the group to its last. -/
def length (g : BankGroup) : Nat := g.romStop - g.romStart

/-- Memory offset of the first byte when the group's first bank is `bank`. -/
def startAt (g : BankGroup) (bank : Nat) : Nat := bank * bankSize + g.low

/-- Memory offset of the last byte when the group's first bank is `bank`. -/
def lastAt (g : BankGroup) (bank : Nat) : Nat := g.startAt bank + g.length - 1

/-- The first bank that the group gets when `free` is the next free one. -/
def targetFrom (g : BankGroup) (free : Nat) : Nat :=
  if g.startAt free / segmentSize ≠ g.lastAt free / segmentSize ∧ g.low + g.length ≤ segmentSize
  then (free / banksPerSegment + 1) * banksPerSegment
  else free

/-- The group's blocks, first to last, placed from memory bank `bank` on. -/
def placed (g : BankGroup) (bank : Nat) : List SampleBlock :=
  g.members.reverse.map fun b =>
    { b with offset := bank * bankSize + (b.romOffset - g.firstBank * bankSize) }

end BankGroup

/-- A run of ROM banks of one kind and the memory banks that hold them. -/
structure BankRun where
  kind : SampleKind
  /-- The first ROM bank. -/
  first : Nat
  /-- The last ROM bank. -/
  last : Nat
  /-- The memory bank that holds the first. -/
  target : Nat
deriving DecidableEq

/-- Where the banks of both ROMs went. -/
abbrev BankMap := List BankRun

/-- The memory bank that holds ROM bank `bank` of `kind`, if it holds samples. -/
def BankMap.find? (banks : BankMap) (kind : SampleKind) (bank : Nat) : Option Nat :=
  (List.find? (fun r => r.kind == kind && r.first ≤ bank && bank ≤ r.last) banks).map
    fun r => r.target + (bank - r.first)

/-- The groups are placed one after the other, the first bank that is free being `free`. -/
def placeGroups (free : Nat) :
    List BankGroup → Except PrepareError (List SampleBlock × BankMap)
  | [] => .ok ([], [])
  | g :: rest =>
    let target := g.targetFrom free
    if sampleMemorySize ≤ g.lastAt target then
      .error (.memoryFull (g.lastAt target + 1) sampleMemorySize)
    else do
      let (blocks, banks) ← placeGroups (target + g.lastBank - g.firstBank + 1) rest
      return (g.placed target ++ blocks, ⟨g.kind, g.firstBank, g.lastBank, target⟩ :: banks)

/-- Every block gets its place in sample memory. The blocks are sorted by kind and ROM
offset. -/
def placeBlocks (blocks : List SampleBlock) :
    Except PrepareError (List SampleBlock × BankMap) :=
  placeGroups 0 (BankGroup.collect blocks)

end ChipReplay
