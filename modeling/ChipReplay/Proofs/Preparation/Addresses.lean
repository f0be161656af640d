import ChipReplay.Preparation.Prepared
import ChipReplay.Proofs.Preparation.Grouping
import ChipReplay.Proofs.Preparation.Reading
import Mathlib
/-!
# Where the samples of a file go

A prepared file is `Made` of the commands that were read from the file and of the banks that its
blocks were given. Since no two runs of banks meet, the bank map has one entry for every ROM
address that a block covers, and that entry together with the low sixteen address bits is where
the sample lies (`Placed.bankAddress_eq`). Different samples stay different
(`Placed.bankAddress_inj`), and a bank of memory belongs to one of the two ROMs
(`Placed.kind_of_bank`).
-/

namespace ChipReplay

open SampleBlock

/-- The memory address that a bank byte and the low sixteen bits of `a` give. -/
def bankAddress (bank a : Nat) : Nat := bank <<< 16 ||| a &&& 0xFFFF

theorem bankAddress_eq (bank a : Nat) : bankAddress bank a = bank * bankSize + a % bankSize := by
  have hlow : a &&& 0xFFFF = a % bankSize := Nat.and_two_pow_sub_one_eq_mod a 16
  have hlt : a % bankSize < 2 ^ 16 := Nat.mod_lt a (by decide)
  rw [bankAddress, hlow, ← Nat.shiftLeft_add_eq_or_of_lt hlt, Nat.shiftLeft_eq]
  rfl

theorem shiftRight_eq (a : Nat) : a >>> 16 = a / bankSize := Nat.shiftRight_eq_div_pow a 16

/-- ROM address `a` of kind `k` lies in the data block. -/
def DataBlock.Covers (b : DataBlock) (k : SampleKind) (a : Nat) : Prop :=
  b.kind = k ∧ b.romOffset.toNat ≤ a ∧ a < b.romOffset.toNat + b.bytes.size

/-- A byte of the block lies in memory bank `bank`. -/
def SampleBlock.InBank (b : SampleBlock) (bank : Nat) : Prop :=
  b.offset / bankSize ≤ bank ∧ bank ≤ (b.stop - 1) / bankSize

namespace Placed

variable {blocks : List SampleBlock} {banks : BankMap} {b c : SampleBlock} {r s : BankRun}
variable {k l : SampleKind} {a n m : Nat}

theorem eq_or_apart (h : Placed blocks banks) (hr : r ∈ banks) (hs : s ∈ banks) :
    r = s ∨ r.Apart s ∨ s.Apart r := by
  have hsymm : Std.Symm fun r s : BankRun => r = s ∨ r.Apart s ∨ s.Apart r := by
    refine ⟨?_⟩
    rintro r s (heq | hrs | hsr)
    · exact .inl heq.symm
    · exact .inr (.inr hrs)
    · exact .inr (.inl hsr)
  exact List.Pairwise.forall_of_forall (R := fun r s : BankRun => r = s ∨ r.Apart s ∨ s.Apart r)
    (fun r _ => .inl rfl) (h.apart.imp fun hrs => .inr (.inl hrs)) hr hs

/-! ## The bank map -/

/-- A ROM bank is looked up in the one run that has it. -/
theorem find?_eq (h : Placed blocks banks) (hr : r ∈ banks) (hfirst : r.first ≤ n)
    (hlast : n ≤ r.last) : banks.find? r.kind n = some (r.target + (n - r.first)) := by
  have hmatch : (r.kind == r.kind && decide (r.first ≤ n) && decide (n ≤ r.last)) = true := by
    simp [hfirst, hlast]
  unfold BankMap.find?
  cases hfound : List.find? (fun s => s.kind == r.kind && s.first ≤ n && n ≤ s.last) banks with
  | none => exact absurd hmatch (List.find?_eq_none.mp hfound r hr)
  | some s =>
    have hs := List.mem_of_find?_eq_some hfound
    have hsmatch := List.find?_some hfound
    simp only [Bool.and_eq_true, beq_iff_eq, decide_eq_true_eq] at hsmatch
    obtain ⟨⟨hkind, hsfirst⟩, hslast⟩ := hsmatch
    rcases h.eq_or_apart hr hs with rfl | hapart | hapart
    · rfl
    · have hlt := hapart.rom hkind.symm
      omega
    · have hlt := hapart.rom hkind
      omega

/-- The bank map answers with the run that it found. -/
theorem run_of_find? (hfind : banks.find? k n = some m) :
    ∃ r ∈ banks, r.kind = k ∧ r.first ≤ n ∧ n ≤ r.last ∧ m = r.target + (n - r.first) := by
  unfold BankMap.find? at hfind
  obtain ⟨r, hfound, hm⟩ := Option.map_eq_some_iff.mp hfind
  have hmatch := List.find?_some hfound
  simp only [Bool.and_eq_true, beq_iff_eq, decide_eq_true_eq] at hmatch
  obtain ⟨⟨hkind, hfirst⟩, hlast⟩ := hmatch
  exact ⟨r, List.mem_of_find?_eq_some hfound, hkind, hfirst, hlast, hm.symm⟩

theorem find?_of_touches (h : Placed blocks banks) (hb : b ∈ blocks) (htouch : b.Touches k n) :
    ∃ r ∈ banks, r.Holds b ∧ banks.find? k n = some (r.target + (n - r.first)) := by
  obtain ⟨rfl, hlow, hhigh⟩ := htouch
  obtain ⟨r, hr, hold⟩ := h.held b hb
  refine ⟨r, hr, hold, ?_⟩
  rw [hold.kind]
  exact h.find?_eq hr (Nat.le_trans hold.first hlow) (Nat.le_trans hhigh hold.last)

end Placed

theorem SampleBlock.Covers.touches {b : SampleBlock} {k : SampleKind} {a : Nat}
    (h : b.Covers k a) : b.Touches k (a / bankSize) :=
  ⟨h.1, Nat.div_le_div_right h.2.1, Nat.div_le_div_right (Nat.le_sub_one_of_lt h.2.2)⟩

namespace Placed

variable {blocks : List SampleBlock} {banks : BankMap} {b c : SampleBlock} {r s : BankRun}
variable {k l : SampleKind} {a n m : Nat}

theorem find?_of_covers (h : Placed blocks banks) (hb : b ∈ blocks) (hcov : b.Covers k a) :
    ∃ m, banks.find? k (a / bankSize) = some m := by
  obtain ⟨r, -, -, hfind⟩ := h.find?_of_touches hb hcov.touches
  exact ⟨_, hfind⟩

/-! ## Addresses -/

/-- The bank found for a covered ROM address leads to the sample. -/
theorem bankAddress_eq (h : Placed blocks banks) (hb : b ∈ blocks) (hcov : b.Covers k a)
    (hfind : banks.find? k (a / bankSize) = some m) :
    bankAddress m a = b.offset + (a - b.romOffset) := by
  obtain ⟨r, -, hold, hfound⟩ := h.find?_of_touches hb hcov.touches
  obtain rfl : r.target + (a / bankSize - r.first) = m :=
    Option.some.inj (hfound.symm.trans hfind)
  have hfirst : r.first ≤ b.romOffset / bankSize := hold.first
  have hlow := hcov.2.1
  have hbank : r.first ≤ a / bankSize := Nat.le_trans hfirst (Nat.div_le_div_right hlow)
  rw [ChipReplay.bankAddress_eq, ← BankRun.address_eq hbank, hold.offset, BankRun.address,
    BankRun.address]
  have hstart : r.first * bankSize ≤ b.romOffset :=
    Nat.le_trans (Nat.mul_le_mul_right _ hfirst) (Nat.div_mul_le_self _ _)
  omega

theorem bankAddress_lt (h : Placed blocks banks) (hb : b ∈ blocks) (hcov : b.Covers k a)
    (hfind : banks.find? k (a / bankSize) = some m) : bankAddress m a < sampleMemorySize := by
  have hfits : b.offset + b.data.size ≤ sampleMemorySize := h.fits b hb
  have hhigh : a < b.romOffset + b.data.size := hcov.2.2
  have hlow := hcov.2.1
  rw [h.bankAddress_eq hb hcov hfind]
  omega

/-- Two addresses that come out equal were one sample. The memory bank tells which run it is, and
inside a run whole banks move. -/
theorem bankAddress_inj (h : Placed blocks banks) {n : Nat} {a' : Nat}
    (hfind : banks.find? k (a / bankSize) = some m)
    (hfind' : banks.find? l (a' / bankSize) = some n) (heq : bankAddress m a = bankAddress n a') :
    k = l ∧ a = a' := by
  obtain ⟨r, hr, rfl, hfirst, hlast, hm⟩ := run_of_find? hfind
  obtain ⟨s, hs, rfl, hfirst', hlast', hn⟩ := run_of_find? hfind'
  rw [ChipReplay.bankAddress_eq, ChipReplay.bankAddress_eq] at heq
  obtain ⟨hbank, hlow⟩ : m = n ∧ a % bankSize = a' % bankSize := by
    unfold bankSize at heq ⊢
    omega
  rcases h.eq_or_apart hr hs with rfl | hapart | hapart
  · refine ⟨rfl, ?_⟩
    have hdiv : a / bankSize = a' / bankSize := by omega
    calc a = bankSize * (a / bankSize) + a % bankSize := (Nat.div_add_mod a bankSize).symm
      _ = bankSize * (a' / bankSize) + a' % bankSize := by rw [hdiv, hlow]
      _ = a' := Nat.div_add_mod a' bankSize
  · have hlt := hapart.memory
    unfold BankRun.top at hlt
    omega
  · have hlt := hapart.memory
    unfold BankRun.top at hlt
    omega

/-- A block lies in the memory banks of its run. -/
theorem bank_of_holds (hold : r.Holds b) (hb : b.Filled) (hin : b.InBank n) :
    r.target ≤ n ∧ n ≤ r.top := by
  obtain ⟨hlow, hhigh⟩ := hin
  have hfirst : r.first ≤ b.romOffset / bankSize := hold.first
  have hlast : (b.romOffset + b.data.size - 1) / bankSize ≤ r.last := hold.last
  have hfilled : b.romOffset < b.romOffset + b.data.size := hb
  have hoffset : b.offset = r.target * bankSize + (b.romOffset - r.first * bankSize) := hold.offset
  have hstop : b.stop = b.offset + b.data.size := rfl
  unfold BankRun.top
  unfold bankSize at hlow hhigh hfirst hlast hoffset
  omega

/-- A bank of memory holds blocks of one kind. -/
theorem kind_of_bank (h : Placed blocks banks) (hb : b ∈ blocks) (hc : c ∈ blocks)
    (hbfilled : b.Filled) (hcfilled : c.Filled) (hbin : b.InBank n) (hcin : c.InBank n) :
    b.kind = c.kind := by
  obtain ⟨r, hr, hrb⟩ := h.held b hb
  obtain ⟨s, hs, hsc⟩ := h.held c hc
  have hrn := bank_of_holds hrb hbfilled hbin
  have hsn := bank_of_holds hsc hcfilled hcin
  rcases h.eq_or_apart hr hs with rfl | hapart | hapart
  · rw [hrb.kind, hsc.kind]
  · have hlt := hapart.memory
    omega
  · have hlt := hapart.memory
    omega

end Placed

theorem SampleBlock.Filled.append {b next : SampleBlock} (hb : b.Filled) :
    (b.append next).Filled := by
  have hb : b.romOffset < b.romStop := hb
  have hstop : (b.append next).romStop = b.romStop + next.data.size := romStop_append
  show b.romOffset < (b.append next).romStop
  omega

namespace Preparation

variable {file : ByteArray} {p : Prepared} {commands : List Located} {k : SampleKind} {a : Nat}
variable {blocks : List SampleBlock} {banks : BankMap}

/-! ## What a prepared file is made of -/

/-- The prepared file `p` of `file`: its commands, read from `start` on, and its banks. -/
structure Made (file : ByteArray) (p : Prepared) (start loop : Nat) (commands : List Located)
    (banks : BankMap) : Prop where
  startOf_eq : startOf file = .ok start
  pointer_eq : pointer file .loopOffset = .ok loop
  fits : start ≤ file.size
  commandsFrom_eq : commandsFrom file start = .ok commands
  placed : placeBlocks (mergedBlocks (sampleBlocks commands)) = .ok (p.blocks, banks)
  data_eq : p.data = sealHeader
    (appendAll (file.extract 0 start) (commands.map fun c => c.command.remap banks))
    (loopField start loop commands)
  stats_eq : p.stats = statsOf commands
    ((sampleBlocks commands).length - (mergedBlocks (sampleBlocks commands)).length) banks

theorem made_of_prepare (h : prepare file = .ok p) :
    ∃ start loop commands banks, Made file p start loop commands banks := by
  obtain ⟨-, -, h⟩ := ok_of_bind h
  obtain ⟨start, hstart, h⟩ := ok_of_bind h
  obtain ⟨loop, hloop, h⟩ := ok_of_bind h
  obtain ⟨header, hheader, h⟩ := ok_of_bind h
  obtain ⟨commands, hcommands, h⟩ := ok_of_bind h
  obtain ⟨⟨blocks, banks⟩, hplaced, h⟩ := ok_of_bind h
  obtain ⟨hfits, rfl⟩ := slice_ok (ok_of_mapError hheader)
  obtain rfl := Except.ok.inj h
  rw [Nat.zero_add] at hfits
  exact ⟨start, loop, commands, banks, hstart, hloop, hfits, hcommands, hplaced,
    by rw [Nat.zero_add], rfl⟩

/-- A file is accepted when each of its parts is. -/
theorem prepare_ok {start loop : Nat} (hident : checkIdent file = .ok ())
    (hstart : startOf file = .ok start) (hloop : pointer file .loopOffset = .ok loop)
    (hfits : start ≤ file.size) (hcommands : commandsFrom file start = .ok commands)
    (hplaced : placeBlocks (mergedBlocks (sampleBlocks commands)) = .ok (blocks, banks)) :
    ∃ p, prepare file = .ok p ∧ p.blocks = blocks ∧ Made file p start loop commands banks := by
  have hslice : Bytes.slice file 0 start = .ok (file.extract 0 start) := by
    rw [Bytes.slice, if_pos (by omega), Nat.zero_add]
  refine ⟨⟨_, blocks, _⟩, ?_, rfl, ⟨hstart, hloop, hfits, hcommands, hplaced, rfl, rfl⟩⟩
  unfold prepare
  simp only [hident, hstart, hloop, hslice, hcommands, hplaced, bind, Except.bind, Except.mapError]
  rfl

/-! ## Blocks of the file -/

theorem mem_dataBlocks {block : DataBlock} :
    (block ∈ commands.filterMap fun c => c.command.block?) ↔
      ∃ c ∈ commands, c.command = .block block := by
  have hblock (c : Command) : c.block? = some block ↔ c = .block block := by
    cases c <;> simp [Command.block?]
  simp only [List.mem_filterMap, hblock]

theorem mem_sampleBlocks {b : SampleBlock} :
    b ∈ sampleBlocks commands ↔ ∃ c ∈ commands, ∃ block, c.command = .block block ∧
      block.bytes.size ≠ 0 ∧ b = .ofDataBlock block := by
  unfold sampleBlocks
  rw [List.mem_filterMap]
  simp only [mem_dataBlocks, Option.ite_none_left_eq_some, Option.some.injEq]
  constructor
  · rintro ⟨block, ⟨c, hc, hcommand⟩, hfull, rfl⟩
    exact ⟨c, hc, block, hcommand, hfull, rfl⟩
  · rintro ⟨c, hc, block, hcommand, hfull, rfl⟩
    exact ⟨block, ⟨c, hc, hcommand⟩, hfull, rfl⟩

theorem size_ofDataBlock (block : DataBlock) :
    (SampleBlock.ofDataBlock block).data.size = block.bytes.size :=
  Bytes.size_swapWords block.bytes

theorem covers_ofDataBlock (block : DataBlock) :
    (SampleBlock.ofDataBlock block).Covers k a ↔ block.Covers k a := by
  unfold SampleBlock.Covers romStop
  rw [size_ofDataBlock]
  rfl

theorem filled_sampleBlocks : ∀ b ∈ sampleBlocks commands, b.Filled := by
  intro b hb
  obtain ⟨-, -, block, -, hfull, rfl⟩ := mem_sampleBlocks.mp hb
  unfold Filled romStop
  rw [size_ofDataBlock]
  omega

/-- The samples cover what the data blocks of the file cover. -/
theorem covered_sampleBlocks : Covered (sampleBlocks commands) k a ↔
    ∃ c ∈ commands, ∃ block, c.command = .block block ∧ block.Covers k a := by
  constructor
  · rintro ⟨b, hb, hcov⟩
    obtain ⟨c, hc, block, hcommand, -, rfl⟩ := mem_sampleBlocks.mp hb
    exact ⟨c, hc, block, hcommand, (covers_ofDataBlock block).mp hcov⟩
  · rintro ⟨c, hc, block, hcommand, hcov⟩
    have hfull : block.bytes.size ≠ 0 := by
      have hlow := hcov.2.1
      have hhigh := hcov.2.2
      omega
    exact ⟨_, mem_sampleBlocks.mpr ⟨c, hc, block, hcommand, hfull, rfl⟩,
      (covers_ofDataBlock block).mpr hcov⟩

theorem filled_mergedBlocks : ∀ b ∈ mergedBlocks (sampleBlocks commands), b.Filled :=
  forall_mergedBlocks (fun _ _ _ hb _ => hb.append) filled_sampleBlocks

/-- What can be said of a block without saying where it lies in memory. -/
theorem exists_map_offset {P : SampleBlock → Prop}
    (hmoved : ∀ b : SampleBlock, P { b with offset := 0 } ↔ P b) (bs : List SampleBlock) :
    (∃ b ∈ bs.map fun b => { b with offset := 0 }, P b) ↔ ∃ b ∈ bs, P b := by
  constructor
  · rintro ⟨b, hb, hP⟩
    obtain ⟨c, hc, rfl⟩ := List.mem_map.mp hb
    exact ⟨c, hc, (hmoved c).mp hP⟩
  · rintro ⟨c, hc, hP⟩
    exact ⟨_, List.mem_map_of_mem hc, (hmoved c).mpr hP⟩

/-- What can be said of a block without saying where it lies in memory is said of the same blocks
before and after placing. -/
theorem exists_placed {P : SampleBlock → Prop} {found : List SampleBlock}
    (hmoved : ∀ b : SampleBlock, P { b with offset := 0 } ↔ P b)
    (h : placeBlocks found = .ok (blocks, banks)) : (∃ b ∈ blocks, P b) ↔ ∃ b ∈ found, P b := by
  rw [← exists_map_offset hmoved blocks, placeBlocks_blocks h, exists_map_offset hmoved]

theorem covered_placed {found : List SampleBlock} (h : placeBlocks found = .ok (blocks, banks)) :
    Covered blocks k a ↔ Covered found k a := exists_placed (fun _ => Iff.rfl) h

namespace Made

variable {start loop : Nat}

theorem placedBlocks (h : Made file p start loop commands banks) : Placed p.blocks banks :=
  placed_placeBlocks (sorted_mergedBlocks _) filled_mergedBlocks h.placed

theorem filled (h : Made file p start loop commands banks) : ∀ b ∈ p.blocks, b.Filled := by
  intro b hb
  by_contra hempty
  obtain ⟨c, hc, hempty⟩ :=
    (exists_placed (P := fun b => ¬ b.Filled) (fun _ => Iff.rfl) h.placed).mp ⟨b, hb, hempty⟩
  exact hempty (filled_mergedBlocks c hc)

/-- The blocks cover what the data blocks of the file cover. -/
theorem covered_iff (h : Made file p start loop commands banks) : Covered p.blocks k a ↔
    ∃ c ∈ commands, ∃ block, c.command = .block block ∧ block.Covers k a :=
  (covered_placed h.placed).trans (covered_mergedBlocks.trans covered_sampleBlocks)

end Made

/-! ## The translation of addresses -/

/-- ROM address `a` of kind `k` lies in a data block among `commands`. -/
def InFile (commands : List Located) (k : SampleKind) (a : Nat) : Prop :=
  ∃ c ∈ commands, ∃ block, c.command = .block block ∧ block.Covers k a

/-- How `banks` takes the samples of `commands` to where `blocks` has them. -/
structure Translates (commands : List Located) (blocks : List SampleBlock) (banks : BankMap) :
    Prop where
  /-- Every sample of the file has a bank, and with it the address where the blocks have it. -/
  address : ∀ k a, InFile commands k a → ∃ bank, banks.find? k (a >>> 16) = some bank ∧
    bankAddress bank a < 0x800000 ∧ (∃ b ∈ blocks, b.Covers k a) ∧
    ∀ b ∈ blocks, b.Covers k a → bankAddress bank a = b.offset + (a - b.romOffset)
  /-- Samples that were different stay different. -/
  injective : ∀ k a l c m n, InFile commands k a → InFile commands l c →
    banks.find? k (a >>> 16) = some m → banks.find? l (c >>> 16) = some n →
    bankAddress m a = bankAddress n c → k = l ∧ a = c
  /-- No bank of memory holds blocks of both kinds. -/
  separate : ∀ b ∈ blocks, ∀ c ∈ blocks, ∀ bank, b.InBank bank → c.InBank bank → b.kind = c.kind
  /-- A write that set the bank of a sample sets the bank where it lies now. -/
  write : ∀ c ∈ commands, ∀ port register data k a, c.command = .write port register data →
    c.command.bankKind? = some k → InFile commands k a → a >>> 16 = data.toNat →
    ∃ bank : UInt8, c.command.remap banks = .write port register bank ∧
      ∀ b ∈ blocks, b.Covers k a → bankAddress bank.toNat a = b.offset + (a - b.romOffset)

theorem translates_of_made {start loop : Nat} (h : Made file p start loop commands banks) :
    Translates commands p.blocks banks := by
  have hplaced := h.placedBlocks
  have haddress : ∀ k a, InFile commands k a → ∃ bank, banks.find? k (a >>> 16) = some bank ∧
      bankAddress bank a < 0x800000 ∧ (∃ b ∈ p.blocks, b.Covers k a) ∧
      ∀ b ∈ p.blocks, b.Covers k a → bankAddress bank a = b.offset + (a - b.romOffset) := by
    intro k a hin
    obtain ⟨b, hb, hcov⟩ := h.covered_iff.mpr hin
    obtain ⟨bank, hfind⟩ := hplaced.find?_of_covers hb hcov
    rw [shiftRight_eq]
    exact ⟨bank, hfind, hplaced.bankAddress_lt hb hcov hfind, ⟨b, hb, hcov⟩,
      fun c hc hcov' => hplaced.bankAddress_eq hc hcov' hfind⟩
  refine ⟨haddress, ?_, ?_, ?_⟩
  · intro k a l c m n _ _ hm hn heq
    rw [shiftRight_eq] at hm hn
    exact hplaced.bankAddress_inj hm hn heq
  · intro b hb c hc bank hbin hcin
    exact hplaced.kind_of_bank hb hc (h.filled b hb) (h.filled c hc) hbin hcin
  · intro c hc port register data k a hwrite hkind hin hbank
    obtain ⟨bank, hfind, hlt, -, hat⟩ := haddress k a hin
    -- the bank fits in the byte that the command has for it
    have hbyte : (UInt8.ofNat bank).toNat = bank := by
      rw [bankAddress_eq] at hlt
      rw [UInt8.toNat_ofNat']
      unfold bankSize at hlt
      omega
    refine ⟨UInt8.ofNat bank, ?_, ?_⟩
    · rw [hwrite] at hkind ⊢
      rw [hbank] at hfind
      simp only [Command.remap, hkind, hfind]
    · rwa [hbyte]

/-- Every file that is accepted keeps its samples apart, and its bank bytes lead to them. -/
theorem addresses_translated (h : prepare file = .ok p) :
    ∃ start loop commands banks, Made file p start loop commands banks ∧
      Translates commands p.blocks banks := by
  obtain ⟨start, loop, commands, banks, hmade⟩ := made_of_prepare h
  exact ⟨start, loop, commands, banks, hmade, translates_of_made hmade⟩

deriving instance DecidableEq for DataBlock, SampleBlock, Command, Located

/-- A file with two samples of each ROM, and a write to a bank register of each. -/
def twoRoms : ByteArray :=
  ⟨#[0x56, 0x67, 0x6D, 0x20] ++ Array.replicate 60 0 ++
    #[0x67, 0x66, 0x82, 10, 0, 0, 0, 0, 0, 2, 0, 0x05, 0x00, 0x01, 0, 0x11, 0x22,
      0x67, 0x66, 0x83, 10, 0, 0, 0, 0, 0, 3, 0, 0xFE, 0xFF, 0x02, 0, 0x33, 0x44,
      0x59, 0x18, 0x01, 0x58, 0x13, 0x02, 0x66]⟩

/-- What `twoRoms` holds behind its header. -/
def twoRomsCommands : List Located :=
  [⟨0x40, .block ⟨.a, 0x20000, 0x10005, ⟨#[0x11, 0x22]⟩⟩⟩,
    ⟨0x51, .block ⟨.b, 0x30000, 0x2FFFE, ⟨#[0x33, 0x44]⟩⟩⟩,
    ⟨0x62, .write .b 0x18 0x01⟩, ⟨0x65, .write .a 0x13 0x02⟩, ⟨0x68, .endOfStream⟩]

theorem placed_twoRoms : placeBlocks (mergedBlocks (sampleBlocks twoRomsCommands)) =
    .ok ([⟨.a, 0x00005, 0x10005, 0x20000, ⟨#[0x11, 0x22]⟩⟩,
      ⟨.b, 0x1FFFE, 0x2FFFE, 0x30000, ⟨#[0x33, 0x44]⟩⟩],
      [⟨.a, 1, 1, 0⟩, ⟨.b, 2, 2, 1⟩]) := by
  rw [mergedBlocks_of_sorted (by decide +kernel)]
  decide +kernel

theorem prepare_twoRoms : ∃ p, prepare twoRoms = .ok p ∧
    p.blocks = [⟨.a, 0x00005, 0x10005, 0x20000, ⟨#[0x11, 0x22]⟩⟩,
      ⟨.b, 0x1FFFE, 0x2FFFE, 0x30000, ⟨#[0x33, 0x44]⟩⟩] ∧
    Made twoRoms p 0x40 0 twoRomsCommands [⟨.a, 1, 1, 0⟩, ⟨.b, 2, 2, 1⟩] :=
  prepare_ok (show checkIdent twoRoms = .ok () by decide +kernel)
    (show startOf twoRoms = .ok 0x40 by decide +kernel)
    (show pointer twoRoms .loopOffset = .ok 0 by decide +kernel)
    (show 0x40 ≤ twoRoms.size by decide +kernel)
    (show commandsFrom twoRoms 0x40 = .ok twoRomsCommands by decide +kernel) placed_twoRoms

theorem addresses_translated_twoRoms : ∃ p, prepare twoRoms = .ok p ∧
    ∃ start loop commands banks, Made twoRoms p start loop commands banks ∧
      Translates commands p.blocks banks := by
  obtain ⟨p, hprepare, -, -⟩ := prepare_twoRoms
  exact ⟨p, hprepare, addresses_translated hprepare⟩

end Preparation
end ChipReplay
