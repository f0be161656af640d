import ChipReplay.Preparation.Bank
import ChipReplay.Preparation.Command
/-!
# Prepared files

The device cannot take data blocks in a stream. `prepare` cuts them out, gives them places in
sample memory, adapts the bank bytes of the register writes, and brings the header up to date:
the loop offset points at the command it pointed at, and what came after the end of the stream
is gone.
-/

namespace ChipReplay

/-- What a walk over the commands of a file counts. -/
structure CommandStats where
  /-- Writes to the first port. -/
  portAWrites : Nat := 0
  /-- Writes to the second port. -/
  portBWrites : Nat := 0
  waits : Nat := 0
  /-- Samples waited in all. -/
  waitSamples : Nat := 0
  dataBlocks : Nat := 0
  /-- Blocks joined to the one before. -/
  mergedBlocks : Nat := 0
  /-- Writes to bank registers. -/
  bankWrites : Nat := 0
  /-- Writes to bank registers whose byte was changed. -/
  remappedBankWrites : Nat := 0
  endOfStream : Bool := false
deriving DecidableEq

/-- A file ready for streaming. -/
structure Prepared where
  /-- Header and commands, without data blocks. -/
  data : ByteArray
  blocks : List SampleBlock
  stats : CommandStats

namespace CommandStats

/-- One more command is counted. -/
def count (s : CommandStats) (c : Command) : CommandStats :=
  let s := match c.bankKind? with
    | some _ => { s with bankWrites := s.bankWrites + 1 }
    | none => s
  match c with
  | .write .a _ _ => { s with portAWrites := s.portAWrites + 1 }
  | .write .b _ _ => { s with portBWrites := s.portBWrites + 1 }
  | .wait _ | .pause _ _ =>
    { s with waits := s.waits + 1, waitSamples := s.waitSamples + c.waitSamples }
  | .endOfStream => { s with endOfStream := true }
  | .block _ => { s with dataBlocks := s.dataBlocks + 1 }

end CommandStats

/-- The command with its bank byte replaced, if it sets a bank that holds samples. -/
def Command.remap (banks : BankMap) (c : Command) : Command :=
  match c with
  | .write port register data =>
    match c.bankKind? with
    | some kind =>
      match banks.find? kind data.toNat with
      | some bank => .write port register (UInt8.ofNat bank)
      | none => c
    | none => c
  | _ => c

/-- Whether replacing its bank byte changes the command. -/
def Command.isRemapped (banks : BankMap) (c : Command) : Bool :=
  match c with
  | .write _ _ data =>
    match c.bankKind? with
    | some kind =>
      match banks.find? kind data.toNat with
      | some bank => UInt8.ofNat bank != data
      | none => false
    | none => false
  | _ => false

namespace Preparation

/-- The samples of the data blocks among `commands`, empty blocks left out, in file order. -/
def sampleBlocks (commands : List Located) : List SampleBlock :=
  (commands.filterMap fun c => c.command.block?).filterMap fun b =>
    if b.bytes.size = 0 then none else some (.ofDataBlock b)

/-- The blocks by kind and ROM offset, joined where one continues another. -/
def mergedBlocks (blocks : List SampleBlock) : List SampleBlock :=
  SampleBlock.merge (blocks.mergeSort SampleBlock.precedes)

/-- `start` and the bytes of `commands` behind each other. -/
def appendAll (start : ByteArray) (commands : List Command) : ByteArray :=
  commands.foldl Command.append start

/-- Where in the prepared stream the command at file offset `loop` goes, if there is one; the
first of the given commands goes to `place`. -/
def loopPlace (loop place : Nat) : List Located → Option Nat
  | [] => none
  | c :: rest =>
    if c.offset = loop then some place
    else loopPlace loop (place + c.command.encodedLength) rest

/-- What goes into the loop field of a stream whose commands begin at `start`: the offset of the
command that stood at file offset `loop`, counted from the field; zero if no command did. -/
def loopField (start loop : Nat) (commands : List Located) : UInt32 :=
  if loop = 0 then 0
  else
    match loopPlace loop start commands with
    | some place => UInt32.ofNat (place - HeaderField.loopOffset.offset)
    | none => 0

/-- `data` with the header field `f` set. -/
def putField (data : ByteArray) (f : HeaderField) (value : UInt32) : ByteArray :=
  (Bytes.put32? data f.offset value).getD data

/-- The stream with its loop field, no tag, and its own length in the header. -/
def sealHeader (data : ByteArray) (loop : UInt32) : ByteArray :=
  let data := putField data .loopOffset loop
  let data := putField data .gd3Offset 0
  putField data .eofOffset (UInt32.ofNat (data.size - HeaderField.eofOffset.offset))

/-- The file offset that header field `f` points at, zero for none. -/
def pointer (file : ByteArray) (f : HeaderField) : Except PrepareError Nat := do
  let relative ← (f.read file).mapError .truncated
  return if relative = 0 then 0 else f.offset + relative.toNat

/-- The file offset of the first command. -/
def startOf (file : ByteArray) : Except PrepareError Nat := do
  let offset ← pointer file .dataOffset
  return if offset = 0 then defaultDataOffset else offset

/-- Refuses a file that is no VGM file. -/
def checkIdent (file : ByteArray) : Except PrepareError Unit := do
  let ident ← (Bytes.slice file HeaderField.ident.offset 4).mapError .truncated
  if ident.toList ≠ vgmIdent then throw (.badIdent ident.toList)

/-- The counts of a file with the given commands, of whose blocks `merged` were joined to
others. -/
def statsOf (commands : List Located) (merged : Nat) (banks : BankMap) : CommandStats :=
  { commands.foldl (fun (s : CommandStats) c => s.count c.command) {} with
    mergedBlocks := merged
    remappedBankWrites := commands.countP fun c => c.command.isRemapped banks }

end Preparation

open Preparation in
/-- Cuts the samples out of `file`. -/
def prepare (file : ByteArray) : Except PrepareError Prepared := do
  checkIdent file
  let start ← startOf file
  let loop ← pointer file .loopOffset
  let header ← (Bytes.slice file 0 start).mapError .truncated
  let commands ← commandsFrom file start
  let found := sampleBlocks commands
  let merged := mergedBlocks found
  let (blocks, banks) ← placeBlocks merged
  let data := appendAll header (commands.map fun c => c.command.remap banks)
  return {
    data := sealHeader data (loopField start loop commands)
    blocks
    stats := statsOf commands (found.length - merged.length) banks }

end ChipReplay
