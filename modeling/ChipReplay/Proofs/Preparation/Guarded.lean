import ChipReplay.Proofs.Preparation.Playable
/-!
# Preparation with every operation guarded

Preparation adds, shifts and subtracts 32-bit words that come from the file, cuts bank numbers down
to bytes, and writes into its output at places it has computed. `Guarded.prepare` does the same, and
breaks off where a sum or a shift does not fit in a word, a difference would be below zero, a bank
number is no byte, a place lies outside the output, or reading does not get on. It never breaks off,
whatever the file (`prepare_guarded`): ROM addresses have 24 bits, the blocks are in order, and each
group that is placed ends inside sample memory.
-/

namespace ChipReplay

open Bytes SampleBlock Preparation

/-- Why a guarded preparation has no result. -/
inductive Halt where
  /-- The file is refused. -/
  | refused (error : PrepareError)
  /-- An operation could not be done. -/
  | broken

namespace Guarded

/-! ## Guarded operations -/

/-- `n`, if it is below `bound`. -/
def below (bound n : Nat) : Except Halt Nat := if n < bound then .ok n else .error .broken

/-- `n` as a 32-bit word. -/
def word (n : Nat) : Except Halt Nat := below 0x100000000 n

/-- `m - n`, which must not be below zero. -/
def minus (m n : Nat) : Except Halt Nat := if n ≤ m then .ok (m - n) else .error .broken

/-- The byte at `i`. -/
def byteAt (bytes : ByteArray) (i : Nat) : Except Halt UInt8 :=
  if i < bytes.size then .ok (peek bytes i) else .error .broken

/-- `bytes` with `x` at `i`. -/
def setByte (bytes : ByteArray) (i : Nat) (x : UInt8) : Except Halt ByteArray :=
  if i < bytes.size then .ok (overwrite bytes i ⟨#[x]⟩) else .error .broken

/-- What may refuse the file, but does not break off. -/
def refusing {α : Type} (x : Except PrepareError α) : Except Halt α := x.mapError .refused

/-! ## Reading -/

/-- The commands of `file` from offset `i` on, behind those of `found`. Each one must end behind the
place where it begins, and there may be at most `fuel` of them. -/
def commandsOnto (file : ByteArray) : Nat → Nat → List Located → Except Halt (List Located)
  | 0, _, _ => .error .broken
  | fuel + 1, i, found =>
    if i < file.size then do
      let c ← refusing (Command.read file i)
      if c.isEnd then return (⟨i, c⟩ :: found).reverse
      let length ← minus (i + c.length) (i + 1)
      commandsOnto file fuel (i + 1 + length) (⟨i, c⟩ :: found)
    else return found.reverse

/-! ## Joining and grouping -/

/-- End of the block in its ROM. -/
def romStop (b : SampleBlock) : Except Halt Nat := do
  let size ← word b.data.size
  word (b.romOffset + size)

/-- The ROM bank of the block's last byte. -/
def lastBank (b : SampleBlock) : Except Halt Nat := do
  let last ← minus (← romStop b) 1
  return last / bankSize

/-- Every block that continues the one before it is joined to that one. -/
def mergeOnto (last : SampleBlock) : List SampleBlock → Except Halt (List SampleBlock)
  | [] => return [last]
  | next :: rest => do
    let stop ← romStop last
    if last.kind = next.kind ∧ stop = next.romOffset then mergeOnto (last.append next) rest
    else return last :: (← mergeOnto next rest)

/-- The blocks by kind and ROM offset, joined where one continues another. -/
def mergedBlocks (found : List SampleBlock) : Except Halt (List SampleBlock) :=
  match found.mergeSort precedes with
  | [] => return []
  | first :: rest => mergeOnto first rest

/-- The group of `b` alone. -/
def single (b : SampleBlock) : Except Halt BankGroup := do
  return ⟨b.kind, b.romOffset, ← romStop b, ← lastBank b, [b]⟩

/-- `b` joins the group. -/
def add (g : BankGroup) (b : SampleBlock) : Except Halt BankGroup := do
  return ⟨g.kind, g.romStart, max g.romStop (← romStop b), max g.lastBank (← lastBank b),
    b :: g.members⟩

/-- The groups of `g` followed by the given blocks. -/
def collectOnto (g : BankGroup) : List SampleBlock → Except Halt (List BankGroup)
  | [] => return [g]
  | b :: rest => do
    if g.shares b then collectOnto (← add g b) rest
    else return g :: (← collectOnto (← single b) rest)

/-- The groups of blocks sorted by kind and ROM offset. -/
def collect : List SampleBlock → Except Halt (List BankGroup)
  | [] => return []
  | b :: rest => do collectOnto (← single b) rest

/-! ## Placing -/

/-- Where the group begins inside its first bank. -/
def low (g : BankGroup) : Except Halt Nat := do
  minus g.romStart (← word (g.firstBank * bankSize))

/-- Bytes from the first of the group to its last. -/
def length (g : BankGroup) : Except Halt Nat := minus g.romStop g.romStart

/-- Memory offsets of the group's first and last byte when its first bank is `bank`. -/
def span (g : BankGroup) (bank : Nat) : Except Halt (Nat × Nat) := do
  let start ← word ((← word (bank * bankSize)) + (← low g))
  let last ← minus (← word (start + (← length g))) 1
  return (start, last)

/-- The first bank that the group gets when `free` is the next free one. -/
def target (g : BankGroup) (free : Nat) : Except Halt Nat := do
  let (start, last) ← span g free
  if start / segmentSize ≠ last / segmentSize ∧ (← low g) + (← length g) ≤ segmentSize then
    word ((← word (free / banksPerSegment + 1)) * banksPerSegment)
  else return free

/-- The block, placed from memory bank `bank` on with the others of its group. -/
def place (g : BankGroup) (bank : Nat) (b : SampleBlock) : Except Halt SampleBlock := do
  let base ← word (g.firstBank * bankSize)
  let offset ← word ((← word (bank * bankSize)) + (← minus b.romOffset base))
  return { b with offset }

/-- Banks of both ROMs, each with the memory bank that holds it. -/
abbrev BankTable := List ((SampleKind × Nat) × UInt8)

/-- The entry for the group's ROM bank `n` when the group's first bank is `bank`. The two are kept
as bytes, and the memory has 128 banks. -/
def bankEntry (g : BankGroup) (bank n : Nat) : Except Halt ((SampleKind × Nat) × UInt8) := do
  let sum ← word (bank + n)
  let moved ← below 128 (← minus sum g.firstBank)
  return ((g.kind, ← below 256 n), UInt8.ofNat moved)

/-- The groups are placed one after the other, the first bank that is free being `free`. -/
def placeGroups (free : Nat) : List BankGroup → Except Halt (List SampleBlock × BankTable)
  | [] => return ([], [])
  | g :: rest => do
    let bank ← target g free
    let (_, last) ← span g bank
    if sampleMemorySize ≤ last then throw (.refused (.memoryFull (last + 1) sampleMemorySize))
    let placed ← g.members.reverse.mapM (place g bank)
    let entries ←
      (List.range' g.firstBank (g.lastBank + 1 - g.firstBank)).mapM (bankEntry g bank)
    let next ← minus (← word (bank + g.lastBank)) g.firstBank
    let (blocks, table) ← placeGroups (← word (next + 1)) rest
    return (placed ++ blocks, entries ++ table)

/-- Every block gets its place in sample memory. -/
def placeBlocks (blocks : List SampleBlock) : Except Halt (List SampleBlock × BankTable) := do
  placeGroups 0 (← collect blocks)

/-! ## Rewriting -/

/-- Where the bank bytes of `commands` are in the output, the first command being at `place`. -/
def bankBytes (place : Nat) : List Located → List (Nat × SampleKind)
  | [] => []
  | c :: rest =>
    match c.command.bankKind? with
    | some kind => (place + 2, kind) :: bankBytes (place + c.command.encodedLength) rest
    | none => bankBytes (place + c.command.encodedLength) rest

/-- The output with its bank bytes replaced where they are those of a bank that holds samples, and
`changed` with the number of bytes that became others. -/
def replaceBanks (table : BankTable) (out : ByteArray) (changed : Nat) :
    List (Nat × SampleKind) → Except Halt (ByteArray × Nat)
  | [] => return (out, changed)
  | (i, kind) :: rest => do
    let bank ← byteAt out i
    match table.lookup (kind, bank.toNat) with
    | some new =>
      if new = bank then replaceBanks table out changed rest
      else replaceBanks table (← setByte out i new) (changed + 1) rest
    | none => replaceBanks table out changed rest

/-- What goes into the loop field. -/
def loopField (start loop : Nat) (commands : List Located) : Except Halt UInt32 :=
  if loop = 0 then return 0
  else
    match loopPlace loop start commands with
    | some place => return UInt32.ofNat (← minus place HeaderField.loopOffset.offset)
    | none => return 0

/-- `data` with the header field `f` set. -/
def putField (data : ByteArray) (f : HeaderField) (value : UInt32) : Except Halt ByteArray :=
  match put32? data f.offset value with
  | some data => return data
  | none => .error .broken

/-- The stream with its loop field, no tag, and its own length in the header. -/
def sealHeader (data : ByteArray) (loop : UInt32) : Except Halt ByteArray := do
  let data ← putField data .loopOffset loop
  let data ← putField data .gd3Offset 0
  putField data .eofOffset (UInt32.ofNat (← minus data.size HeaderField.eofOffset.offset))

/-- Cuts the samples out of `file`, every operation guarded. A command takes at least a byte, so
there are no more of them than bytes. -/
def prepare (file : ByteArray) : Except Halt Prepared := do
  refusing (checkIdent file)
  let start ← refusing (startOf file)
  let loop ← refusing (pointer file .loopOffset)
  let header ← refusing ((slice file 0 start).mapError .truncated)
  let commands ← commandsOnto file (file.size + 1) start []
  let found := sampleBlocks commands
  let merged ← mergedBlocks found
  let (blocks, table) ← placeBlocks merged
  let (data, changed) ← replaceBanks table (appendAll header (commands.map (·.command))) 0
    (bankBytes header.size commands)
  let data ← sealHeader data (← loopField start loop commands)
  let stats := statsOf commands (found.length - merged.length) []
  return { data, blocks, stats := { stats with remappedBankWrites := changed } }

/-! ## Guards that hold -/

section

variable {α β : Type} {m n bound : Nat} {bytes : ByteArray} {i : Nat} {x : UInt8}

theorem below_eq (h : n < bound) : below bound n = .ok n := if_pos h

theorem word_eq (h : n < 0x100000000) : word n = .ok n := if_pos h

theorem minus_eq (h : n ≤ m) : minus m n = .ok (m - n) := if_pos h

theorem byteAt_eq (h : i < bytes.size) : byteAt bytes i = .ok (peek bytes i) := if_pos h

theorem setByte_eq (h : i < bytes.size) : setByte bytes i x = .ok (overwrite bytes i ⟨#[x]⟩) :=
  if_pos h

theorem ok_bind (a : α) (f : α → Except Halt β) : Except.ok a >>= f = f a := rfl

theorem mapM_eq {f : α → Except Halt β} {g : α → β} {l : List α} (h : ∀ a ∈ l, f a = .ok (g a)) :
    l.mapM f = .ok (l.map g) := by
  induction l with
  | nil => rfl
  | cons a rest ih =>
    obtain ⟨ha, hrest⟩ := List.forall_mem_cons.mp h
    rw [List.mapM_cons, ha, ih hrest]
    rfl

/-- Guarded steps can be compared one by one, each behind those that came out well. -/
theorem refusing_bind {x : Except PrepareError α} {f : α → Except PrepareError β}
    {g : α → Except Halt β} (h : ∀ a, x = .ok a → g a = refusing (f a)) :
    refusing x >>= g = refusing (x >>= f) := by
  cases x with
  | error e => rfl
  | ok a => exact h a rfl

end

/-! ## Reading -/

/-- Reading gets on with every command, so it never runs out of fuel. -/
theorem commandsOnto_eq (file : ByteArray) {fuel i : Nat} (found : List Located)
    (h : file.size - i < fuel) :
    commandsOnto file fuel i found = refusing (ChipReplay.commandsOnto file i found) := by
  induction fuel generalizing i found with
  | zero => exact absurd h (Nat.not_lt_zero _)
  | succ fuel ih =>
    rw [commandsOnto, ChipReplay.commandsOnto]
    by_cases hi : i < file.size
    · rw [if_pos hi, if_pos hi]
      cases Command.read file i with
      | error e => rfl
      | ok c =>
        have hpos := c.length_pos
        have hnext : i + 1 + (i + c.length - (i + 1)) = i + c.length := by omega
        simp only [refusing, Except.mapError, bind, Except.bind, pure, Except.pure]
        -- a command has at least a byte, so it ends behind the place where it begins
        rw [minus_eq (by omega)]
        by_cases hend : c.isEnd = true
        · rw [if_pos hend, if_pos hend]
        · rw [if_neg hend, if_neg hend]
          dsimp only
          rw [hnext, ih _ (by omega)]
          rfl
    · rw [if_neg hi, if_neg hi]
      rfl

/-! ## Joining and grouping -/

/-- The block ends where ROM addresses do, or before. -/
def InRom (b : SampleBlock) : Prop := b.romStop ≤ Command.addressLimit

/-- The end of the block in its ROM is a 32-bit word. -/
def InWord (b : SampleBlock) : Prop := b.romStop < 0x100000000

variable {b c last : SampleBlock} {bs rest found : List SampleBlock} {g : BankGroup}

theorem InRom.inWord (h : InRom b) : InWord b := Nat.lt_of_le_of_lt h (by decide)

/-- Joined blocks end where the second does. -/
theorem romStop_append_of_continues (h : b.continues c = true) :
    (b.append c).romStop = c.romStop := by
  obtain ⟨-, hstop⟩ := continues_iff.mp h
  rw [romStop_append, hstop, SampleBlock.romStop]

theorem InWord.append (h : b.continues c = true) (hc : InWord c) : InWord (b.append c) :=
  Nat.lt_of_le_of_lt (Nat.le_of_eq (romStop_append_of_continues h)) hc

theorem InRom.append (h : b.continues c = true) (hc : InRom c) : InRom (b.append c) :=
  Nat.le_trans (Nat.le_of_eq (romStop_append_of_continues h)) hc

theorem romStop_eq (h : InWord b) : romStop b = .ok b.romStop := by
  have h : b.romOffset + b.data.size < 0x100000000 := h
  unfold romStop
  rw [word_eq (by omega)]
  exact word_eq (by omega)

theorem lastBank_eq (h : InRom b) (hfilled : b.Filled) : lastBank b = .ok b.lastBank := by
  have hfilled : b.romOffset < b.romStop := hfilled
  unfold lastBank
  rw [romStop_eq h.inWord]
  simp only [bind, Except.bind, minus_eq (show 1 ≤ b.romStop by omega)]
  rfl

theorem mergeOnto_eq (hlast : InWord last) (hrest : ∀ b ∈ rest, InWord b) :
    mergeOnto last rest = .ok (SampleBlock.mergeOnto last rest) := by
  induction rest generalizing last with
  | nil => rfl
  | cons next rest ih =>
    obtain ⟨hnext, hrest⟩ := List.forall_mem_cons.mp hrest
    rw [mergeOnto, romStop_eq hlast]
    simp only [bind, Except.bind, ← continues_iff]
    by_cases hjoin : last.continues next = true
    · rw [if_pos hjoin, ih (hnext.append hjoin) hrest, mergeOnto_of_continues hjoin]
    · rw [if_neg hjoin, ih hnext hrest, mergeOnto_of_apart hjoin]
      rfl

theorem mergedBlocks_eq (h : ∀ b ∈ found, InRom b) :
    mergedBlocks found = .ok (Preparation.mergedBlocks found) := by
  have hsorted : ∀ b ∈ found.mergeSort precedes, InRom b :=
    fun b hb => h b (List.mem_mergeSort.mp hb)
  unfold mergedBlocks Preparation.mergedBlocks
  cases hblocks : found.mergeSort precedes with
  | nil => rfl
  | cons first rest =>
    rw [hblocks] at hsorted
    obtain ⟨hfirst, hrest⟩ := List.forall_mem_cons.mp hsorted
    exact mergeOnto_eq hfirst.inWord fun b hb => (hrest b hb).inWord

theorem single_eq (h : InRom b) (hfilled : b.Filled) : single b = .ok (.single b) := by
  unfold single
  rw [romStop_eq h.inWord, lastBank_eq h hfilled]
  rfl

theorem add_eq (h : InRom b) (hfilled : b.Filled) : add g b = .ok (g.add b) := by
  unfold add
  rw [romStop_eq h.inWord, lastBank_eq h hfilled]
  rfl

theorem collectOnto_eq (h : ∀ b ∈ bs, InRom b ∧ b.Filled) :
    collectOnto g bs = .ok (BankGroup.collectOnto g bs) := by
  induction bs generalizing g with
  | nil => rfl
  | cons b rest ih =>
    obtain ⟨⟨hb, hfilled⟩, hrest⟩ := List.forall_mem_cons.mp h
    rw [collectOnto, single_eq hb hfilled, add_eq hb hfilled]
    simp only [bind, Except.bind]
    by_cases hshare : g.shares b = true
    · rw [if_pos hshare, ih hrest, BankGroup.collectOnto_of_shares hshare]
    · rw [if_neg hshare, ih hrest, BankGroup.collectOnto_of_apart hshare]
      rfl

theorem collect_eq (h : ∀ b ∈ bs, InRom b ∧ b.Filled) :
    collect bs = .ok (BankGroup.collect bs) := by
  cases bs with
  | nil => rfl
  | cons b rest =>
    obtain ⟨⟨hb, hfilled⟩, hrest⟩ := List.forall_mem_cons.mp h
    rw [collect, single_eq hb hfilled]
    exact collectOnto_eq hrest

/-! ## Placing -/

/-- What there is to know of a group that is placed: its fields are right, and it ends where ROM
addresses do, or before. -/
structure Placeable (g : BankGroup) : Prop where
  sound : g.Sound
  inRom : g.romStop ≤ Command.addressLimit

variable {groups : List BankGroup} {free bank n : Nat}

theorem Placeable.lastBank_lt (hg : Placeable g) : g.lastBank < 256 := by
  have hinRom : g.romStop ≤ 0x1000000 := hg.inRom
  have hfilled := hg.sound.filled
  rw [hg.sound.lastBank]
  unfold bankSize
  omega

theorem low_eq (hg : Placeable g) : low g = .ok g.low := by
  have hinRom : g.romStop ≤ 0x1000000 := hg.inRom
  have hfilled := hg.sound.filled
  have hbase : g.firstBank * bankSize ≤ g.romStart := Nat.div_mul_le_self _ _
  have hlow : g.romStart - g.firstBank * bankSize = g.low := by
    unfold BankGroup.low BankGroup.firstBank bankSize
    omega
  unfold low
  rw [word_eq (by omega), ok_bind, minus_eq hbase, hlow]

theorem length_eq (hg : Placeable g) : length g = .ok g.length :=
  minus_eq (Nat.le_of_lt hg.sound.filled)

/-- The words that a span is computed with are far from the largest one. -/
theorem span_eq (hg : Placeable g) (hbank : bank ≤ 256) :
    span g bank = .ok (g.startAt bank, g.lastAt bank) := by
  have hinRom : g.romStop ≤ 0x1000000 := hg.inRom
  have hfilled := hg.sound.filled
  have hlow : g.low < 0x10000 := Nat.mod_lt _ (by decide)
  have hlength : g.length = g.romStop - g.romStart := rfl
  have hbase : bank * bankSize ≤ 0x1000000 := by
    unfold bankSize
    omega
  have hstart : bank * bankSize + g.low = g.startAt bank := rfl
  have hlast : g.startAt bank + g.length - 1 = g.lastAt bank := rfl
  unfold span
  rw [low_eq hg, length_eq hg, word_eq (show bank * bankSize < 0x100000000 by omega), ok_bind,
    ok_bind, hstart, word_eq (show g.startAt bank < 0x100000000 by omega), ok_bind, ok_bind,
    word_eq (show g.startAt bank + g.length < 0x100000000 by omega), ok_bind,
    minus_eq (show 1 ≤ g.startAt bank + g.length by omega), ok_bind, hlast]
  rfl

theorem target_eq (hg : Placeable g) (hfree : free ≤ 128) :
    target g free = .ok (g.targetFrom free) ∧ g.targetFrom free ≤ 256 := by
  constructor
  · have hnext : free / banksPerSegment + 1 < 0x100000000 := by
      unfold banksPerSegment
      omega
    have htarget : (free / banksPerSegment + 1) * banksPerSegment < 0x100000000 := by
      unfold banksPerSegment
      omega
    unfold target BankGroup.targetFrom
    rw [span_eq hg (by omega), low_eq hg, length_eq hg, ok_bind]
    dsimp only
    rw [ok_bind, ok_bind]
    split
    · rw [word_eq hnext, ok_bind, word_eq htarget]
    · rfl
  · -- a group can be sent behind the memory, but no further than to the next segment
    unfold BankGroup.targetFrom banksPerSegment
    split <;> omega

theorem place_eq (hg : Placeable g) (hbank : bank ≤ 256) (hb : b ∈ g.members) :
    place g bank b =
      .ok { b with offset := bank * bankSize + (b.romOffset - g.firstBank * bankSize) } := by
  have hinRom : g.romStop ≤ 0x1000000 := hg.inRom
  have hfilled := hg.sound.filled
  have hstart := hg.sound.start b hb
  have hstop : b.romOffset + b.data.size ≤ g.romStop := hg.sound.stop b hb
  have hbase : g.firstBank * bankSize ≤ g.romStart := Nat.div_mul_le_self _ _
  have hhigh : bank * bankSize ≤ 0x1000000 := by unfold bankSize; omega
  unfold place
  rw [word_eq (show g.firstBank * bankSize < 0x100000000 by omega), ok_bind,
    word_eq (show bank * bankSize < 0x100000000 by omega), ok_bind, minus_eq (by omega), ok_bind,
    word_eq (by omega), ok_bind]
  rfl

/-- The last bank of a group that fits is one of the memory. -/
theorem Placeable.top_lt (hg : Placeable g) (hfits : g.lastAt bank < sampleMemorySize) :
    bank + (g.lastBank - g.firstBank) < 128 := by
  have hfilled := hg.sound.filled
  have hlast := hg.sound.lastBank
  unfold BankGroup.lastAt BankGroup.startAt BankGroup.low BankGroup.length sampleMemorySize at hfits
  unfold BankGroup.firstBank
  unfold bankSize at hlast hfits ⊢
  omega

/-- The entry for ROM bank `n` of the run. -/
def entry (r : BankRun) (n : Nat) : (SampleKind × Nat) × UInt8 :=
  ((r.kind, n), UInt8.ofNat (r.target + (n - r.first)))

/-- The entries for the banks of a run. -/
def entries (r : BankRun) : BankTable :=
  (List.range' r.first (r.last + 1 - r.first)).map (entry r)

/-- The entries for the banks of all runs. -/
def tableOf (banks : BankMap) : BankTable := banks.flatMap entries

theorem bankEntry_eq (hg : Placeable g) (hbank : bank ≤ 256)
    (hfits : g.lastAt bank < sampleMemorySize) (hlow : g.firstBank ≤ n) (hhigh : n ≤ g.lastBank) :
    bankEntry g bank n = .ok (entry (g.run bank) n) := by
  have htop := hg.top_lt hfits
  have hlast := hg.lastBank_lt
  have hmoved : bank + n - g.firstBank = bank + (n - g.firstBank) := by omega
  unfold bankEntry
  rw [word_eq (show bank + n < 0x100000000 by omega), ok_bind,
    minus_eq (show g.firstBank ≤ bank + n by omega), hmoved, ok_bind,
    below_eq (show bank + (n - g.firstBank) < 128 by omega), ok_bind,
    below_eq (show n < 256 by omega)]
  rfl

/-- Blocks and their banks, the banks as a table. -/
def tabled (placed : List SampleBlock × BankMap) : List SampleBlock × BankTable :=
  (placed.1, tableOf placed.2)

theorem placeGroups_eq (hgroups : ∀ g ∈ groups, Placeable g) (hfree : free ≤ 128) :
    placeGroups free groups = refusing ((ChipReplay.placeGroups free groups).map tabled) := by
  induction groups generalizing free with
  | nil => rfl
  | cons g rest ih =>
    obtain ⟨hg, hrest⟩ := List.forall_mem_cons.mp hgroups
    obtain ⟨htarget, hbank⟩ := target_eq hg hfree
    rw [placeGroups, ChipReplay.placeGroups, htarget, ok_bind, span_eq hg hbank, ok_bind]
    dsimp only
    by_cases hfull : sampleMemorySize ≤ g.lastAt (g.targetFrom free)
    · rw [if_pos hfull, if_pos hfull]
      rfl
    · -- what the group leaves free is inside the memory, since the group fits
      have hfits := Nat.not_le.mp hfull
      have htop := hg.top_lt hfits
      have hle := hg.sound.firstBank_le
      have hlast := hg.lastBank_lt
      have hplaced : g.members.reverse.mapM (place g (g.targetFrom free)) =
          .ok (g.placed (g.targetFrom free)) :=
        mapM_eq fun b hb => place_eq hg hbank (List.mem_reverse.mp hb)
      have hentries : (List.range' g.firstBank (g.lastBank + 1 - g.firstBank)).mapM
          (bankEntry g (g.targetFrom free)) = .ok (entries (g.run (g.targetFrom free))) := by
        refine mapM_eq fun n hn => ?_
        obtain ⟨hlow, hhigh⟩ := List.mem_range'_1.mp hn
        exact bankEntry_eq hg hbank hfits hlow (by omega)
      rw [if_neg hfull, if_neg hfull, hplaced, ok_bind, hentries, ok_bind,
        word_eq (show g.targetFrom free + g.lastBank < 0x100000000 by omega), ok_bind,
        minus_eq (show g.firstBank ≤ g.targetFrom free + g.lastBank by omega), ok_bind,
        word_eq (show g.targetFrom free + g.lastBank - g.firstBank + 1 < 0x100000000 by omega),
        ok_bind, ih hrest (by omega)]
      cases ChipReplay.placeGroups (g.targetFrom free + g.lastBank - g.firstBank + 1) rest with
      | error e => rfl
      | ok placed => rfl

/-! ## Rewriting -/

variable {banks : BankMap} {k : SampleKind}

theorem lookup_entries (r : BankRun) (first count : Nat) :
    ((List.range' first count).map (entry r)).lookup (k, n) =
      if r.kind = k ∧ first ≤ n ∧ n < first + count
      then some (UInt8.ofNat (r.target + (n - r.first))) else none := by
  induction count generalizing first with
  | zero =>
    rw [if_neg (by omega)]
    rfl
  | succ count ih =>
    -- the first entry is for its own bank, and the others are for the banks behind it
    rw [List.range'_succ, List.map_cons, List.lookup_cons, ih]
    by_cases hfirst : ((k, n) == (entry r first).1) = true
    · have hkey : (k, n) = (r.kind, first) := eq_of_beq hfirst
      obtain ⟨hk, hn⟩ := Prod.mk.inj hkey
      rw [hfirst, if_pos (show r.kind = k ∧ first ≤ n ∧ n < first + (count + 1) from
        ⟨hk.symm, by omega, by omega⟩), hn]
      rfl
    · have hother : ¬ (r.kind = k ∧ first = n) := by
        rintro ⟨rfl, rfl⟩
        exact hfirst (beq_self_eq_true _)
      rw [Bool.not_eq_true] at hfirst
      rw [hfirst]
      dsimp only
      split_ifs with hin hin' hin'
      · rfl
      · exact absurd ⟨hin.1, by omega, by omega⟩ hin'
      · have hne : first ≠ n := fun heq => hother ⟨hin'.1, heq⟩
        exact absurd ⟨hin'.1, by omega, by omega⟩ hin
      · rfl

/-- The table answers as the bank map does. -/
theorem lookup_tableOf (banks : BankMap) (k : SampleKind) (n : Nat) :
    (tableOf banks).lookup (k, n) = (banks.find? k n).map UInt8.ofNat := by
  induction banks with
  | nil => rfl
  | cons r rest ih =>
    have hentries := lookup_entries (k := k) (n := n) r r.first (r.last + 1 - r.first)
    rw [tableOf, List.flatMap_cons, List.lookup_append, ← tableOf, ih, entries, hentries,
      BankMap.find?, BankMap.find?, List.find?_cons]
    by_cases hin : r.kind = k ∧ r.first ≤ n ∧ n ≤ r.last
    · obtain ⟨hkind, hlow, hhigh⟩ := hin
      rw [if_pos ⟨hkind, hlow, by omega⟩]
      simp [hkind, hlow, hhigh]
    · rw [if_neg (fun h => hin ⟨h.1, h.2.1, by omega⟩)]
      have hnot : (r.kind == k && decide (r.first ≤ n) && decide (n ≤ r.last)) = false := by
        simpa [and_assoc] using hin
      rw [hnot]
      rfl

/-- Changing the last byte of a write changes nothing around it. -/
theorem overwrite_write (out tail : ByteArray) (x y z new : UInt8) :
    overwrite (((out.push x).push y).push z ++ tail) (out.size + 2) ⟨#[new]⟩ =
      ((out.push x).push y).push new ++ tail := by
  have hsize (z : UInt8) :
      (((out.push x).push y).push z ++ tail).size = out.size + 3 + tail.size := by
    simp [ByteArray.size_append, ByteArray.size_push]
  have hone : (⟨#[new]⟩ : ByteArray).size = 1 := rfl
  have hfits : out.size + 2 + (⟨#[new]⟩ : ByteArray).size ≤
      (((out.push x).push y).push z ++ tail).size := by
    rw [hsize, hone]
    omega
  have hthree (z : UInt8) : (((out.push x).push y).push z).size = out.size + 3 := by
    simp [ByteArray.size_push]
  have hlast (z : UInt8) (i : Nat) : peek (((out.push x).push y).push z) i =
      if i = out.size + 2 then z else peek ((out.push x).push y) i := by
    rw [peek_push]
    simp [ByteArray.size_push]
  apply ext_peek
  · rw [size_overwrite hfits, hsize, hsize]
  · intro i _
    rw [peek_overwrite hfits, hone, peek_append, peek_append, hthree, hthree, hlast, hlast]
    by_cases hi : i = out.size + 2
    · rw [if_pos (by omega), if_pos (by omega), if_pos hi, hi, Nat.sub_self]
      rfl
    · rw [if_neg (by omega), if_neg hi, if_neg hi]

theorem remap_of_none {c : Command} (h : c.bankKind? = none) (banks : BankMap) :
    c.remap banks = c ∧ c.isRemapped banks = false := by
  cases c with
  | write port register data =>
    constructor
    · simp only [Command.remap, h]
    · simp only [Command.isRemapped, h]
  | wait | pause | endOfStream | block => exact ⟨rfl, rfl⟩

/-- The place noted for the bank byte of a write has that byte, and replacing it there is replacing
it in the write. -/
theorem replaceBanks_write (banks : BankMap) (out : ByteArray) (changed : Nat) {port : Port}
    {register data : UInt8} (hkind : (Command.write port register data).bankKind? = some k)
    (rest : List Command) (places : List (Nat × SampleKind)) :
    replaceBanks (tableOf banks) (appendAll out (.write port register data :: rest)) changed
        ((out.size + 2, k) :: places) =
      replaceBanks (tableOf banks)
        (appendAll out ((Command.write port register data).remap banks :: rest))
        (if (Command.write port register data).isRemapped banks then changed + 1 else changed)
        places := by
  have hput (data : UInt8) : appendAll out (.write port register data :: rest) =
      ((out.push (Command.writeCode port)).push register).push data ++ appendAll .empty rest :=
    appendAll_eq (((out.push (Command.writeCode port)).push register).push data) rest
  obtain ⟨-, -, hdata, hfits⟩ :=
    Command.peek_pushed out (appendAll .empty rest) (Command.writeCode port) register data
  rw [← hput] at hdata hfits
  rw [replaceBanks, byteAt_eq (Nat.lt_of_succ_le hfits), hdata]
  simp only [bind, Except.bind, lookup_tableOf, Command.remap, Command.isRemapped, hkind]
  cases banks.find? k data.toNat with
  | none => rfl
  | some new =>
    by_cases hsame : UInt8.ofNat new = data
    · simp [hsame]
    · have hset : setByte (appendAll out (.write port register data :: rest)) (out.size + 2)
          (UInt8.ofNat new) =
            .ok (appendAll out (.write port register (UInt8.ofNat new) :: rest)) := by
        rw [setByte_eq (Nat.lt_of_succ_le hfits), hput, overwrite_write, ← hput]
      simp [hsame, hset]

/-- Replacing the bytes at all places that were noted is replacing them in the commands. -/
theorem replaceBanks_eq (banks : BankMap) (out : ByteArray) (changed : Nat)
    (commands : List Located) :
    replaceBanks (tableOf banks) (appendAll out (commands.map (·.command))) changed
        (bankBytes out.size commands) =
      .ok (appendAll out (commands.map fun c => c.command.remap banks),
        changed + commands.countP fun c => c.command.isRemapped banks) := by
  induction commands generalizing out changed with
  | nil => rfl
  | cons c rest ih =>
    have hsize := c.command.size_append out
    rw [List.map_cons, List.map_cons, List.countP_cons, bankBytes, ← hsize]
    cases hkind : c.command.bankKind? with
    | none =>
      obtain ⟨hsame, hnot⟩ := remap_of_none hkind banks
      rw [hsame, hnot]
      exact ih (c.command.append out) changed
    | some kind =>
      cases hcommand : c.command with
      | wait | pause | endOfStream | block =>
        rw [hcommand] at hkind
        cases hkind
      | write port register data =>
        rw [hcommand] at hkind
        have hlength : (Command.append out (.write port register data)).size =
            (Command.append out ((Command.write port register data).remap banks)).size := by
          rw [Command.size_append, Command.size_append, Command.encodedLength_remap]
        dsimp only
        rw [replaceBanks_write banks out changed hkind, hlength]
        refine (ih _ _).trans ?_
        have hcount (m n : Nat) (changes : Bool) : (if changes = true then m + 1 else m) + n =
            m + (n + if changes = true then 1 else 0) := by
          cases changes
          · rfl
          · exact Nat.add_right_comm m 1 n
        rw [hcount]
        rfl

theorem loopField_eq {start : Nat} (hstart : 0x34 ≤ start) (loop : Nat) (commands : List Located) :
    loopField start loop commands = .ok (Preparation.loopField start loop commands) := by
  unfold loopField Preparation.loopField
  by_cases hloop : loop = 0
  · rw [if_pos hloop, if_pos hloop]
    rfl
  · rw [if_neg hloop, if_neg hloop]
    cases hplace : loopPlace loop start commands with
    | none => rfl
    | some place =>
      have hle := le_of_loopPlace hplace
      have hfield : HeaderField.loopOffset.offset = 0x1C := rfl
      dsimp only
      rw [minus_eq (by omega)]
      rfl

theorem putField_eq {data : ByteArray} {f : HeaderField} (hfits : f.offset + 4 ≤ data.size)
    (value : UInt32) : putField data f value = .ok (Preparation.putField data f value) ∧
      (Preparation.putField data f value).size = data.size := by
  have hput : put32? data f.offset value = some (overwrite data f.offset (le32 value)) :=
    if_pos hfits
  unfold putField Preparation.putField
  rw [hput]
  exact ⟨rfl, size_overwrite hfits⟩

theorem sealHeader_eq {data : ByteArray} (hsize : 0x34 ≤ data.size) (loop : UInt32) :
    sealHeader data loop = .ok (Preparation.sealHeader data loop) := by
  obtain ⟨hloop, hloopSize⟩ :=
    putField_eq
      (show HeaderField.loopOffset.offset + 4 ≤ data.size from Nat.le_trans (by decide) hsize) loop
  obtain ⟨htag, htagSize⟩ := putField_eq (f := .gd3Offset)
    (hloopSize.symm ▸ Nat.le_trans (show 0x18 ≤ 0x34 by decide) hsize) 0
  rw [hloopSize] at htagSize
  unfold sealHeader Preparation.sealHeader
  rw [hloop]
  simp only [bind, Except.bind]
  rw [htag]
  dsimp only
  rw [minus_eq (htagSize.symm ▸ Nat.le_trans (show 4 ≤ 0x34 by decide) hsize)]
  exact (putField_eq (f := .eofOffset)
    (htagSize.symm ▸ Nat.le_trans (show 8 ≤ 0x34 by decide) hsize) _).1

/-! ## The whole preparation -/

theorem inRom_sampleBlocks {file : ByteArray} {start : Nat} {commands : List Located}
    (h : ChipReplay.commandsFrom file start = .ok commands) :
    ∀ b ∈ sampleBlocks commands, InRom b := by
  intro b hb
  obtain ⟨c, hc, block, hblock, hfull, rfl⟩ := mem_sampleBlocks.mp hb
  have hat := (walk_of_commandsFrom h).at c hc
  rw [hblock] at hat
  cases hat with
  | block b hcode hat =>
    have hinRom := hat.inRom hfull
    show block.romOffset.toNat + (SampleBlock.ofDataBlock block).data.size ≤ Command.addressLimit
    rwa [size_ofDataBlock]

/-- What is found in a file can be placed. -/
theorem placeBlocks_eq {file : ByteArray} {start : Nat} {commands : List Located}
    (h : ChipReplay.commandsFrom file start = .ok commands) :
    mergedBlocks (sampleBlocks commands) =
        .ok (Preparation.mergedBlocks (sampleBlocks commands)) ∧
      placeBlocks (Preparation.mergedBlocks (sampleBlocks commands)) =
        refusing ((ChipReplay.placeBlocks
          (Preparation.mergedBlocks (sampleBlocks commands))).map tabled) := by
  have hfound := inRom_sampleBlocks h
  have hmerged : ∀ b ∈ Preparation.mergedBlocks (sampleBlocks commands), InRom b :=
    forall_mergedBlocks (fun b c hjoin _ hc => hc.append hjoin) hfound
  have hsound : ∀ g ∈ BankGroup.collect (Preparation.mergedBlocks (sampleBlocks commands)),
      g.Sound := BankGroup.sound_collect (sorted_mergedBlocks _) filled_mergedBlocks
  have hinRom : ∀ g ∈ BankGroup.collect (Preparation.mergedBlocks (sampleBlocks commands)),
      g.romStop ≤ Command.addressLimit :=
    BankGroup.forall_collect (fun b hb => hmerged b hb)
      fun g b hb hg _ => Nat.max_le.mpr ⟨hg, hmerged b hb⟩
  refine ⟨mergedBlocks_eq hfound, ?_⟩
  unfold placeBlocks
  rw [collect_eq fun b hb => ⟨hmerged b hb, filled_mergedBlocks b hb⟩]
  exact placeGroups_eq (fun g hg => ⟨hsound g hg, hinRom g hg⟩) (Nat.zero_le _)

/-- Preparation is safe for every file. It comes to an end, and no operation in it breaks off: with
every operation guarded it gives what it gives without, or refuses the file for the same reason. -/
theorem prepare_guarded (file : ByteArray) : prepare file = refusing (ChipReplay.prepare file) := by
  unfold prepare ChipReplay.prepare
  -- up to the commands both refuse the file in the same places
  refine refusing_bind fun _ _ => ?_
  refine refusing_bind fun start hstart => ?_
  refine refusing_bind fun loop _ => ?_
  refine refusing_bind fun header hheader => ?_
  rw [commandsOnto_eq file [] (show file.size - start < file.size + 1 by omega)]
  refine refusing_bind fun commands hcommands => ?_
  obtain ⟨hmerged, hplaced⟩ := placeBlocks_eq hcommands
  have hlow : 0x34 ≤ start := Stream.start_eq hstart ▸ Stream.le_start file
  have hheaderSize : header.size = start := by
    obtain ⟨hfits, rfl⟩ := slice_ok (ok_of_mapError hheader)
    rw [ByteArray.size_extract]
    omega
  -- behind them only a full memory refuses it
  dsimp only
  rw [hmerged]
  simp only [bind, Except.bind]
  rw [hplaced]
  cases ChipReplay.placeBlocks (Preparation.mergedBlocks (sampleBlocks commands)) with
  | error e => rfl
  | ok placed =>
    obtain ⟨blocks, banks⟩ := placed
    have hsize : 0x34 ≤
        (appendAll header (commands.map fun c => c.command.remap banks)).size := by
      rw [appendAll_eq, ByteArray.size_append]
      omega
    simp only [refusing, tabled, Except.map, Except.mapError]
    rw [replaceBanks_eq banks header 0 commands]
    dsimp only
    rw [loopField_eq hlow]
    dsimp only
    rw [sealHeader_eq hsize, Nat.zero_add]
    rfl

end Guarded
end ChipReplay
