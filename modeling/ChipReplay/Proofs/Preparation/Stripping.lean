import ChipReplay.Proofs.Preparation.Addresses
import ChipReplay.Proofs.Preparation.Output
/-!
# A prepared stream is the file's stream

The stream of a file is described by its bytes alone: where commands begin (`offsetsFrom`), how
long each is (`span`), what it counts as (`countsOf`), and which of its bytes go into a prepared
file (`keptBytes`): none of a data block, and all of any other command, but for the data byte of a
write that sets a bank with samples. A file that is accepted is prepared as these say
(`stream_preserved`).
-/

namespace ChipReplay

open Bytes

/-! ## Banks as the blocks have them -/

/-- The memory bank where the block has its part of ROM bank `n`. The part begins with the bank, or
with the block if that begins inside the bank. -/
def SampleBlock.bankAt (b : SampleBlock) (n : Nat) : Nat :=
  (b.offset + (n * bankSize - b.romOffset)) / bankSize

/-- The memory bank of ROM bank `n` of kind `k`, if a block touches that. -/
def newBank? (blocks : List SampleBlock) (k : SampleKind) (n : Nat) : Option Nat :=
  (blocks.find? fun b => b.kind == k && b.firstBank ≤ n && n ≤ b.lastBank).map
    (SampleBlock.bankAt · n)

theorem BankRun.Holds.bankAt_eq {r : BankRun} {b : SampleBlock} (hold : r.Holds b) {n : Nat}
    (hn : b.firstBank ≤ n) : b.bankAt n = r.target + (n - r.first) := by
  have hfirst : r.first ≤ b.romOffset / bankSize := hold.first
  have hn : b.romOffset / bankSize ≤ n := hn
  rw [SampleBlock.bankAt, hold.offset, BankRun.address]
  unfold bankSize at hfirst hn ⊢
  omega

namespace Placed

variable {blocks : List SampleBlock} {banks : BankMap} {b : SampleBlock} {k : SampleKind} {n : Nat}

/-- The blocks say of a bank what the bank map says. -/
theorem newBank?_eq (h : Placed blocks banks) (k : SampleKind) (n : Nat) :
    newBank? blocks k n = banks.find? k n := by
  unfold newBank?
  cases hfound : blocks.find? fun b => b.kind == k && b.firstBank ≤ n && n ≤ b.lastBank with
  | some b =>
    have hmatch := List.find?_some hfound
    simp only [Bool.and_eq_true, beq_iff_eq, decide_eq_true_eq] at hmatch
    obtain ⟨⟨hkind, hlow⟩, hhigh⟩ := hmatch
    obtain ⟨r, -, hold, hfind⟩ :=
      h.find?_of_touches (List.mem_of_find?_eq_some hfound) ⟨hkind, hlow, hhigh⟩
    rw [hfind, Option.map_some, hold.bankAt_eq hlow]
  | none =>
    cases hfind : banks.find? k n with
    | none => rfl
    | some m =>
      obtain ⟨r, hr, rfl, hfirst, hlast, -⟩ := run_of_find? hfind
      obtain ⟨b, hb, hkind, hlow, hhigh⟩ := h.touched r hr n hfirst hlast
      refine absurd ?_ (List.find?_eq_none.mp hfound b hb)
      simp [hkind, hlow, hhigh]

theorem newBank?_of_touches (h : Placed blocks banks) (hb : b ∈ blocks) (hbfilled : b.Filled)
    (htouch : b.Touches k n) : newBank? blocks k n = some (b.bankAt n) ∧ b.bankAt n < 256 := by
  obtain ⟨r, -, hold, hfind⟩ := h.find?_of_touches hb htouch
  obtain ⟨-, hlow, hhigh⟩ := htouch
  refine ⟨by rw [h.newBank?_eq, hfind, hold.bankAt_eq hlow], ?_⟩
  have hfits : b.offset + b.data.size ≤ sampleMemorySize := h.fits b hb
  have hfilled : b.romOffset < b.romOffset + b.data.size := hbfilled
  have hhigh : n ≤ (b.romOffset + b.data.size - 1) / bankSize := hhigh
  unfold SampleBlock.bankAt
  unfold sampleMemorySize at hfits
  unfold bankSize at hhigh ⊢
  omega

end Placed

/-! ## The stream of a file, byte by byte -/

namespace Stream

/-- Where the commands of `file` begin. -/
def start (file : ByteArray) : Nat :=
  if wordAt file 0x34 = 0 then 0x40 else 0x34 + (wordAt file 0x34).toNat

/-- How long the command at `i` is. The size in a data block counts what follows it. -/
def span (file : ByteArray) (i : Nat) : Nat :=
  let code := peek file i
  if code = 0x58 ∨ code = 0x59 ∨ code = 0x61 then 3
  else if code = 0x67 then 7 + (wordAt file (i + 3)).toNat
  else 1

theorem span_pos (file : ByteArray) (i : Nat) : 0 < span file i := by
  unfold span
  dsimp only
  split_ifs <;> omega

/-- Where commands begin from `i` on: up to and with the first end of the stream, or to the end of
the file. -/
def offsetsFrom (file : ByteArray) (i : Nat) : List Nat :=
  if i < file.size then
    i :: if peek file i = 0x66 then [] else offsetsFrom file (i + span file i)
  else []
termination_by file.size - i
decreasing_by
  have hpos := span_pos file i
  omega

/-- Where the commands of `file` begin. -/
def offsets (file : ByteArray) : List Nat := offsetsFrom file (start file)

/-- The kind whose bank the command at `i` sets: it writes the high byte of a start or end
address. -/
def bankSet? (file : ByteArray) (i : Nat) : Option SampleKind :=
  let register := peek file (i + 1)
  if peek file i = 0x59 ∧
      (0x18 ≤ register ∧ register ≤ 0x1D ∨ 0x28 ≤ register ∧ register ≤ 0x2D) then some .a
  else if peek file i = 0x58 ∧ (register = 0x13 ∨ register = 0x15) then some .b
  else none

/-- What the third byte of the command at `i` becomes. -/
def newData (file : ByteArray) (blocks : List SampleBlock) (i : Nat) : UInt8 :=
  match (bankSet? file i).bind fun k => newBank? blocks k (peek file (i + 2)).toNat with
  | some bank => UInt8.ofNat bank
  | none => peek file (i + 2)

/-- What of the command at `i` goes into the prepared stream. -/
def keptBytes (file : ByteArray) (blocks : List SampleBlock) (i : Nat) : List UInt8 :=
  if peek file i = 0x67 then []
  else (List.range (span file i)).map fun j =>
    if j = 2 then newData file blocks i else peek file (i + j)

/-- Whether the command at `i` waits. -/
def waits (file : ByteArray) (i : Nat) : Bool :=
  let code := peek file i
  code = 0x61 ∨ code = 0x62 ∨ code = 0x63 ∨ 0x70 ≤ code ∧ code ≤ 0x7F

/-- Samples that the command at `i` waits. -/
def waitAt (file : ByteArray) (i : Nat) : Nat :=
  let code := peek file i
  if code = 0x61 then (peek file (i + 1)).toNat + 256 * (peek file (i + 2)).toNat
  else if code = 0x62 then 735
  else if code = 0x63 then 882
  else if 0x70 ≤ code ∧ code ≤ 0x7F then code.toNat % 16 + 1
  else 0

/-- What there is to count in the commands at the given offsets. -/
def countsOf (file : ByteArray) (blocks : List SampleBlock) (merged : Nat) (found : List Nat) :
    CommandStats where
  portAWrites := found.countP fun i => peek file i = 0x58
  portBWrites := found.countP fun i => peek file i = 0x59
  waits := found.countP (waits file)
  waitSamples := (found.map (waitAt file)).sum
  dataBlocks := found.countP fun i => peek file i = 0x67
  mergedBlocks := merged
  bankWrites := found.countP fun i => (bankSet? file i).isSome
  remappedBankWrites := found.countP fun i => newData file blocks i != peek file (i + 2)
  endOfStream := found.any fun i => peek file i = 0x66

variable {file : ByteArray} {i : Nat} {c : Command} {blocks : List SampleBlock} {banks : BankMap}

/-- What holds of the numbers below 256 holds of bytes. -/
theorem forall_byte {P : UInt8 → Prop} (h : ∀ n : Fin 256, P (UInt8.ofNat n.val)) (x : UInt8) :
    P x := by
  have hx := h ⟨x.toNat, x.toNat_lt⟩
  rwa [UInt8.ofNat_toNat] at hx

/-! ## One command -/

theorem pause_byte {byte : UInt8} {samples : UInt32} (h : Opcode.ofByte byte = .pause samples) :
    byte = 0x62 ∧ samples = 735 ∨ byte = 0x63 ∧ samples = 882 ∨
      0x70 ≤ byte ∧ byte ≤ 0x7F ∧ samples.toNat = byte.toNat % 16 + 1 := by
  have hnibble (x : UInt8) : x &&& 0xF0 = 0x70 → 0x70 ≤ x ∧ x ≤ 0x7F ∧
      ((x &&& 0x0F).toUInt32 + 1).toNat = x.toNat % 16 + 1 :=
    forall_byte (P := fun x => x &&& 0xF0 = 0x70 → 0x70 ≤ x ∧ x ≤ 0x7F ∧
      ((x &&& 0x0F).toUInt32 + 1).toNat = x.toNat % 16 + 1) (by decide +kernel) x
  unfold Opcode.ofByte at h
  split_ifs at h with h58 h59 h61 h62 h63 h66 h67 h7n
  · exact .inl ⟨h62, (Opcode.pause.inj h).symm⟩
  · exact .inr (.inl ⟨h63, (Opcode.pause.inj h).symm⟩)
  · obtain rfl := Opcode.pause.inj h
    exact .inr (.inr (hnibble byte h7n))

/-- A pause is no other command. -/
theorem pause_byte_ne {byte x : UInt8} {samples : UInt32} (h : Opcode.ofByte byte = .pause samples)
    (hx : x ∈ [0x58, 0x59, 0x61, 0x66, 0x67]) : byte ≠ x := by
  rintro rfl
  simp only [List.mem_cons, List.not_mem_nil, or_false] at hx
  rcases hx with rfl | rfl | rfl | rfl | rfl <;> cases h

theorem span_eq (h : c.At file i) (hsize : peek file i = 0x67 → 8 ≤ (wordAt file (i + 3)).toNat) :
    span file i = c.length := by
  cases h with
  | write port hcode hfits => cases port <;> simp [span, hcode, Command.writeCode, Command.length]
  | wait hcode hfits => simp [span, hcode, Command.length]
  | pause samples hcode hfits =>
    simp [span, Command.length, pause_byte_ne hcode]
  | endOfStream hcode hfits => simp [span, hcode, Command.length]
  | block b hcode hblock =>
    have hlong := hsize hcode
    have hbytes := hblock.size
    have hspan : span file i = 7 + (wordAt file (i + 3)).toNat := by simp [span, hcode]
    rw [hspan]
    show _ = Command.blockHeaderSize + b.bytes.size
    unfold Command.blockFieldsSize at hbytes
    unfold Command.blockHeaderSize
    omega

theorem bankKind?_eq (h : c.At file i) : c.bankKind? = bankSet? file i := by
  have hregister (x : UInt8) : SampleKind.ofBankRegister? (Port.a.address x) =
      if x = 0x13 ∨ x = 0x15 then some .b else none :=
    forall_byte (P := fun x => SampleKind.ofBankRegister? (Port.a.address x) =
      if x = 0x13 ∨ x = 0x15 then some .b else none) (by decide +kernel) x
  have hregister' (x : UInt8) : SampleKind.ofBankRegister? (Port.b.address x) =
      if 0x18 ≤ x ∧ x ≤ 0x1D ∨ 0x28 ≤ x ∧ x ≤ 0x2D then some .a else none :=
    forall_byte (P := fun x => SampleKind.ofBankRegister? (Port.b.address x) =
      if 0x18 ≤ x ∧ x ≤ 0x1D ∨ 0x28 ≤ x ∧ x ≤ 0x2D then some .a else none) (by decide +kernel) x
  cases h with
  | write port hcode hfits =>
    cases port with
    | a => simp [Command.bankKind?, bankSet?, hcode, hregister, Command.writeCode]
    | b => simp [Command.bankKind?, bankSet?, hcode, hregister', Command.writeCode]
  | wait hcode hfits => simp [Command.bankKind?, bankSet?, hcode]
  | pause samples hcode hfits => simp [Command.bankKind?, bankSet?, pause_byte_ne hcode]
  | endOfStream hcode hfits => simp [Command.bankKind?, bankSet?, hcode]
  | block b hcode hblock => simp [Command.bankKind?, bankSet?, hcode]

theorem toNat_word16 (low high : UInt8) :
    (word16 low high).toNat = low.toNat + 256 * high.toNat := by
  have hlow := low.toNat_lt
  have hhigh := high.toNat_lt
  have hshift : high.toNat <<< 8 % 65536 = high.toNat <<< 8 := by
    rw [Nat.shiftLeft_eq]
    omega
  rw [word16, UInt16.toNat_or, UInt16.toNat_shiftLeft, UInt8.toNat_toUInt16, UInt8.toNat_toUInt16]
  show low.toNat ||| high.toNat <<< 8 % 65536 = _
  rw [hshift, Nat.or_comm, ← Nat.shiftLeft_add_eq_or_of_lt hlow, Nat.shiftLeft_eq]
  omega

theorem waitSamples_eq (h : c.At file i) : c.waitSamples = waitAt file i := by
  cases h with
  | write port hcode hfits =>
    cases port <;> simp [Command.waitSamples, waitAt, hcode, Command.writeCode]
  | wait hcode hfits =>
    rw [Command.waitSamples, toNat_word16, waitAt]
    exact (if_pos hcode).symm
  | pause samples hcode hfits =>
    rcases pause_byte hcode with ⟨hbyte, rfl⟩ | ⟨hbyte, rfl⟩ | ⟨hlow, hhigh, hsamples⟩
    · simp [Command.waitSamples, waitAt, hbyte]
    · simp [Command.waitSamples, waitAt, hbyte]
    · have hne {x : UInt8} (hx : x < 0x70) : peek file i ≠ x := by
        intro heq
        exact UInt8.not_le.mpr hx (heq ▸ hlow)
      rw [Command.waitSamples, waitAt, hsamples]
      simp only [if_neg (hne (x := 0x61) (by decide)), if_neg (hne (x := 0x62) (by decide)),
        if_neg (hne (x := 0x63) (by decide)), if_pos (And.intro hlow hhigh)]
  | endOfStream hcode hfits => simp [Command.waitSamples, waitAt, hcode]
  | block b hcode hblock => simp [Command.waitSamples, waitAt, hcode]

/-- The write at `i` with the data byte that it gets. -/
theorem remap_write (hnew : ∀ k n, newBank? blocks k n = banks.find? k n) {port : Port}
    {register : UInt8} (h : (Command.write port register (peek file (i + 2))).At file i) :
    (Command.write port register (peek file (i + 2))).remap banks =
        .write port register (newData file blocks i) ∧
      (Command.write port register (peek file (i + 2))).isRemapped banks =
        (newData file blocks i != peek file (i + 2)) := by
  have hkind := bankKind?_eq h
  unfold Command.remap Command.isRemapped newData
  simp only [hkind]
  cases bankSet? file i with
  | none => simp
  | some k =>
    rw [Option.bind_some, hnew]
    cases hfind : banks.find? k (peek file (i + 2)).toNat with
    | none => simp [hfind]
    | some bank => simp [hfind]

/-- The count of a wait is written as it was read. -/
theorem bytes_word16 (low high : UInt8) :
    (word16 low high).toUInt8 = low ∧ (word16 low high >>> 8).toUInt8 = high := by
  have hword := toNat_word16 low high
  have hlow := low.toNat_lt
  have hhigh := high.toNat_lt
  constructor
  · apply UInt8.toNat_inj.mp
    rw [UInt16.toNat_toUInt8, hword]
    omega
  · apply UInt8.toNat_inj.mp
    rw [UInt16.toNat_toUInt8, UInt16.toNat_shiftRight, hword, Nat.shiftRight_eq_div_pow]
    show (low.toNat + 256 * high.toNat) / 256 % 256 = high.toNat
    omega

/-- A command goes into the prepared stream as `keptBytes` says. -/
theorem encode_remap (hnew : ∀ k n, newBank? blocks k n = banks.find? k n) (h : c.At file i) :
    (c.remap banks).encode.data.toList = keptBytes file blocks i := by
  have hother (hset : bankSet? file i = none) : newData file blocks i = peek file (i + 2) := by
    rw [newData, hset]
    rfl
  cases h with
  | write port hcode hfits =>
    rw [(remap_write hnew (.write port hcode hfits)).1]
    cases port <;>
      simp [keptBytes, span, hcode, Command.writeCode, Command.encode, Command.append,
        List.range_succ]
  | wait hcode hfits =>
    have hset : bankSet? file i = none := (bankKind?_eq (.wait hcode hfits)).symm
    obtain ⟨hlow, hhigh⟩ := bytes_word16 (peek file (i + 1)) (peek file (i + 2))
    simp [keptBytes, span, hcode, Command.remap, Command.encode, Command.append, List.range_succ,
      hlow, hhigh, hother hset]
  | pause samples hcode hfits =>
    simp [keptBytes, span, pause_byte_ne hcode, Command.remap, Command.encode, Command.append]
  | endOfStream hcode hfits =>
    simp [keptBytes, span, hcode, Command.remap, Command.encode, Command.append]
  | block b hcode hblock => simp [keptBytes, hcode, Command.remap, Command.encode, Command.append]

theorem isRemapped_eq (hnew : ∀ k n, newBank? blocks k n = banks.find? k n) (h : c.At file i) :
    c.isRemapped banks = (newData file blocks i != peek file (i + 2)) := by
  have hother (hset : bankSet? file i = none) :
      (newData file blocks i != peek file (i + 2)) = false := by
    rw [newData, hset]
    exact bne_self_eq_false _
  have hset := bankKind?_eq h
  cases h with
  | write port hcode hfits => exact (remap_write hnew (.write port hcode hfits)).2
  | wait hcode hfits => exact (hother hset.symm).symm
  | pause samples hcode hfits => exact (hother hset.symm).symm
  | endOfStream hcode hfits => exact (hother hset.symm).symm
  | block b hcode hblock => exact (hother hset.symm).symm

/-! ## All commands -/

variable {commands : List Located}

/-- The commands that were read stand where the bytes say. -/
theorem offsetsFrom_eq (h : Walk file i commands)
    (hsize : ∀ j ∈ offsetsFrom file i, peek file j = 0x67 → 8 ≤ (wordAt file (j + 3)).toNat) :
    offsetsFrom file i = commands.map Located.offset := by
  induction h with
  | stop hend => rw [offsetsFrom, if_neg (Nat.not_lt.mpr hend), List.map_nil]
  | @last i c hcommand hend =>
    have hfits := hcommand.fits
    have hpos := c.length_pos
    rw [offsetsFrom, if_pos (by omega), if_pos (hcommand.isEnd_iff.mp hend)]
    rfl
  | @next i c rest hcommand hend hrest ih =>
    have hfits := hcommand.fits
    have hpos := c.length_pos
    have hmore : peek file i ≠ 0x66 := fun heq => by
      rw [hcommand.isEnd_iff.mpr heq] at hend
      cases hend
    have hlist : offsetsFrom file i = i :: offsetsFrom file (i + span file i) := by
      rw [offsetsFrom, if_pos (by omega), if_neg hmore]
    rw [hlist] at hsize ⊢
    obtain ⟨hhead, htail⟩ := List.forall_mem_cons.mp hsize
    rw [span_eq hcommand hhead] at htail ⊢
    rw [ih htail, List.map_cons]

theorem flatMap_keptBytes (hnew : ∀ k n, newBank? blocks k n = banks.find? k n)
    (hat : ∀ c ∈ commands, c.command.At file c.offset) :
    ((commands.map fun c => c.command.remap banks).flatMap fun c => c.encode.data.toList) =
      (commands.map Located.offset).flatMap (keptBytes file blocks) := by
  rw [List.flatMap_map, List.flatMap_map]
  exact List.flatMap_congr fun c hc => encode_remap hnew (hat c hc)

/-! ## Counts -/

/-- What one command adds to the counts, by its bytes. -/
theorem count_at (h : c.At file i) (s : CommandStats) : s.count c =
    { portAWrites := s.portAWrites + if peek file i = 0x58 then 1 else 0
      portBWrites := s.portBWrites + if peek file i = 0x59 then 1 else 0
      waits := s.waits + if waits file i then 1 else 0
      waitSamples := s.waitSamples + waitAt file i
      dataBlocks := s.dataBlocks + if peek file i = 0x67 then 1 else 0
      mergedBlocks := s.mergedBlocks
      bankWrites := s.bankWrites + if (bankSet? file i).isSome then 1 else 0
      remappedBankWrites := s.remappedBankWrites
      endOfStream := s.endOfStream || peek file i = 0x66 } := by
  have hbank := bankKind?_eq h
  have hwait := waitSamples_eq h
  cases h with
  | write port hcode hfits =>
    rw [← hbank, ← hwait]
    unfold CommandStats.count
    cases (Command.write port (peek file (i + 1)) (peek file (i + 2))).bankKind? <;> cases port <;>
      simp [hcode, Command.writeCode, waits, Command.waitSamples]
  | wait hcode hfits =>
    rw [← hbank, ← hwait]
    simp [CommandStats.count, Command.bankKind?, hcode, waits]
  | pause samples hcode hfits =>
    have hwaits : waits file i = true := by
      rcases pause_byte hcode with ⟨hbyte, -⟩ | ⟨hbyte, -⟩ | ⟨hlow, hhigh, -⟩
      · simp [waits, hbyte]
      · simp [waits, hbyte]
      · simp [waits, hlow, hhigh]
    rw [← hbank, ← hwait]
    simp [CommandStats.count, Command.bankKind?, pause_byte_ne hcode, hwaits]
  | endOfStream hcode hfits =>
    rw [← hbank, ← hwait]
    simp [CommandStats.count, Command.bankKind?, Command.waitSamples, hcode, waits]
  | block b hcode hblock =>
    rw [← hbank, ← hwait]
    simp [CommandStats.count, Command.bankKind?, Command.waitSamples, hcode, waits]

/-- What all commands add to the counts. -/
theorem fold_count (hat : ∀ c ∈ commands, c.command.At file c.offset) (s : CommandStats) :
    commands.foldl (fun s c => s.count c.command) s =
      let found := commands.map Located.offset
      { portAWrites := s.portAWrites + found.countP fun i => peek file i = 0x58
        portBWrites := s.portBWrites + found.countP fun i => peek file i = 0x59
        waits := s.waits + found.countP (waits file)
        waitSamples := s.waitSamples + (found.map (waitAt file)).sum
        dataBlocks := s.dataBlocks + found.countP fun i => peek file i = 0x67
        mergedBlocks := s.mergedBlocks
        bankWrites := s.bankWrites + found.countP fun i => (bankSet? file i).isSome
        remappedBankWrites := s.remappedBankWrites
        endOfStream := s.endOfStream || found.any fun i => peek file i = 0x66 } := by
  induction commands generalizing s with
  | nil => simp
  | cons c rest ih =>
    obtain ⟨hc, hrest⟩ := List.forall_mem_cons.mp hat
    rw [List.foldl_cons, ih hrest, count_at hc]
    simp only [List.map_cons, List.countP_cons, List.sum_cons, List.any_cons, decide_eq_true_eq,
      Nat.add_assoc, Nat.add_comm, Bool.or_assoc]

theorem statsOf_eq (hnew : ∀ k n, newBank? blocks k n = banks.find? k n)
    (hat : ∀ c ∈ commands, c.command.At file c.offset) (merged : Nat) :
    Preparation.statsOf commands merged banks =
      countsOf file blocks merged (commands.map Located.offset) := by
  have hremapped : (commands.countP fun c => c.command.isRemapped banks) =
      (commands.map Located.offset).countP fun i => newData file blocks i != peek file (i + 2) := by
    rw [List.countP_map]
    refine List.countP_congr fun c hc => ?_
    rw [isRemapped_eq hnew (hat c hc)]
    rfl
  unfold Preparation.statsOf countsOf
  rw [fold_count hat, hremapped]
  simp only [Nat.zero_add, Bool.false_or]

/-! ## The prepared stream -/

theorem known_at (h : c.At file i) :
    peek file i ∈ [0x58, 0x59, 0x61, 0x62, 0x63, 0x66, 0x67] ∨
      0x70 ≤ peek file i ∧ peek file i ≤ 0x7F := by
  cases h with
  | write port hcode hfits => cases port <;> simp [hcode, Command.writeCode]
  | wait hcode hfits => simp [hcode]
  | pause samples hcode hfits =>
    rcases pause_byte hcode with ⟨hbyte, -⟩ | ⟨hbyte, -⟩ | ⟨hlow, hhigh, -⟩
    · simp [hbyte]
    · simp [hbyte]
    · exact .inr ⟨hlow, hhigh⟩
  | endOfStream hcode hfits => simp [hcode]
  | block b hcode hblock => simp [hcode]

theorem start_eq {first : Nat} (h : Preparation.startOf file = .ok first) : first = start file := by
  obtain ⟨offset, hoffset, h⟩ := ok_of_bind h
  obtain ⟨relative, hrelative, hoffset⟩ := ok_of_bind hoffset
  obtain ⟨-, rfl⟩ := word32At_ok (ok_of_mapError hrelative)
  obtain rfl := Except.ok.inj hoffset
  obtain rfl := Except.ok.inj h
  have hfield : HeaderField.dataOffset.offset = 0x34 := rfl
  rw [hfield, start, defaultDataOffset]
  by_cases hzero : wordAt file 0x34 = 0
  · rw [if_pos hzero, if_pos hzero, if_pos rfl]
  · rw [if_neg hzero, if_neg hzero, if_neg (by omega)]

theorem le_start (file : ByteArray) : 0x34 ≤ start file := by
  unfold start
  split_ifs <;> omega

/-- The prepared stream against the bytes of the file. -/
structure Preserves (file : ByteArray) (p : Prepared) : Prop where
  /-- The file has every command whole. -/
  fits : ∀ i ∈ offsets file, i + span file i ≤ file.size
  /-- Only commands with a length are accepted. -/
  known : ∀ i ∈ offsets file, peek file i ∈ [0x58, 0x59, 0x61, 0x62, 0x63, 0x66, 0x67] ∨
    0x70 ≤ peek file i ∧ peek file i ≤ 0x7F
  /-- The header with three of its words set, and then the commands. -/
  data : ∃ header : ByteArray, header.size = start file ∧ start file ≤ file.size ∧
    (∀ i < start file, ¬ Preparation.InSealed i → peek header i = peek file i) ∧
    p.data.data.toList =
      header.data.toList ++ (offsets file).flatMap (keptBytes file p.blocks)
  /-- All blocks that touch a bank agree on where it is, and a byte holds that. -/
  banks : ∀ b ∈ p.blocks, ∀ k n, b.Touches k n →
    newBank? p.blocks k n = some (b.bankAt n) ∧ b.bankAt n < 256
  eofOffset : wordAt p.data 0x04 = UInt32.ofNat (p.data.size - 4)
  gd3Offset : wordAt p.data 0x14 = 0
  stats : p.stats = countsOf file p.blocks p.stats.mergedBlocks (offsets file)

/-- Preparing a file keeps its stream. A data block too small for its own fields is left out of
this: it is longer than its size says. -/
theorem stream_preserved {p : Prepared} (h : prepare file = .ok p)
    (hsize : ∀ i ∈ offsets file, peek file i = 0x67 → 8 ≤ (wordAt file (i + 3)).toNat) :
    Preserves file p := by
  obtain ⟨first, loop, commands, banks, hmade⟩ := Preparation.made_of_prepare h
  obtain rfl := start_eq hmade.startOf_eq
  have hplaced := hmade.placedBlocks
  have hnew := hplaced.newBank?_eq
  have hwalk := walk_of_commandsFrom hmade.commandsFrom_eq
  have hat := hwalk.at
  have hoffsets : offsets file = commands.map Located.offset := offsetsFrom_eq hwalk hsize
  have hstart := le_start file
  have hheader : (file.extract 0 (start file)).size = start file := by
    have hfits := hmade.fits
    rw [ByteArray.size_extract]
    omega
  obtain ⟨sealed, hsealed, hsealedSize, hkept, heof, hgd3⟩ := Preparation.sealHeader_append
    (show 0x20 ≤ (file.extract 0 (start file)).size by omega)
    (Preparation.appendAll .empty (commands.map fun c => c.command.remap banks))
    (Preparation.loopField (start file) loop commands)
  have hdata := hmade.data_eq
  rw [Preparation.appendAll_eq, hsealed] at hdata
  have hwhole : p.data.size = (file.extract 0 (start file) ++
      Preparation.appendAll .empty (commands.map fun c => c.command.remap banks)).size := by
    rw [hdata, ByteArray.size_append, ByteArray.size_append, hsealedSize]
  refine ⟨?_, ?_, ⟨sealed, ?_, hmade.fits, ?_, ?_⟩, ?_, ?_, ?_, ?_⟩
  · rw [hoffsets] at hsize ⊢
    refine List.forall_mem_map.mpr fun c hc => ?_
    rw [span_eq (hat c hc) (hsize c.offset (List.mem_map_of_mem hc))]
    exact (hat c hc).fits
  · rw [hoffsets]
    exact List.forall_mem_map.mpr fun c hc => known_at (hat c hc)
  · rw [hsealedSize, hheader]
  · intro i hi hopen
    rw [hkept i hopen, peek_extract, Nat.zero_add, if_pos (by have hfits := hmade.fits; omega)]
  · rw [hdata, ByteArray.toList_data_append, Preparation.toList_appendAll,
      flatMap_keptBytes hnew hat, hoffsets]
    rfl
  · exact fun b hb k n htouch => hplaced.newBank?_of_touches hb (hmade.filled b hb) htouch
  · rw [hdata, wordAt_append (by omega), heof, ← hwhole, hdata]
  · rw [hdata, wordAt_append (by omega), hgd3]
  · rw [hmade.stats_eq, hoffsets]
    exact statsOf_eq hnew hat _

theorem stream_preserved_twoRoms : ∃ p, prepare Preparation.twoRoms = .ok p ∧
    (∀ i ∈ offsets Preparation.twoRoms, peek Preparation.twoRoms i = 0x67 →
      8 ≤ (wordAt Preparation.twoRoms (i + 3)).toNat) ∧ Preserves Preparation.twoRoms p := by
  obtain ⟨p, hprepare, -, -⟩ := Preparation.prepare_twoRoms
  have hsize : ∀ i ∈ offsets Preparation.twoRoms, peek Preparation.twoRoms i = 0x67 →
      8 ≤ (wordAt Preparation.twoRoms (i + 3)).toNat := by decide +kernel
  exact ⟨p, hprepare, hsize, stream_preserved hprepare hsize⟩

end Stream
end ChipReplay
