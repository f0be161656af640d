import ChipReplay.Proofs.Preparation.Addresses
import ChipReplay.Proofs.Upload.Sequence
/-!
# Samples from a file to sample memory

The words of a sample are reversed twice on its way: in its data block when that is cut out of the
file, and in each packet when that arrives. In between, a block is joined to the one that it
continues, so that both agree on what the words are only if the first of the two has whole words.
`Has` is what a block holds of a ROM once it has arrived. Where blocks do not overlap and every
block that is continued has whole words, all samples arrive as they were (`samples_survive`).
Without the latter they need not (`samples_torn`).
-/

namespace ChipReplay

open Bytes SampleBlock

namespace SampleBlock

variable {b c last next : SampleBlock} {bs rest : List SampleBlock} {k : SampleKind} {a : Nat}
variable {x : UInt8}

/-! ## What blocks hold -/

/-- The block gives ROM address `a` of kind `k` the byte `x`, once it has been uploaded. -/
def Has (b : SampleBlock) (k : SampleKind) (a : Nat) (x : UInt8) : Prop :=
  b.Covers k a ∧ peek (swapWords b.data) (a - b.romOffset) = x

/-- A block that is continued by another has whole words. -/
def Whole (b c : SampleBlock) : Prop := b.continues c = true → 4 ∣ b.data.size

theorem has_ofDataBlock {block : DataBlock} : (SampleBlock.ofDataBlock block).Has k a x ↔
    block.Covers k a ∧ peek block.bytes (a - block.romOffset.toNat) = x := by
  have hcovers : (SampleBlock.ofDataBlock block).Covers k a ↔ block.Covers k a :=
    Preparation.covers_ofDataBlock block
  have hbytes : swapWords (SampleBlock.ofDataBlock block).data = block.bytes :=
    swapWords_swapWords block.bytes
  rw [Has, hcovers, hbytes]
  rfl

/-- Behind whole words, a block that is joined on arrives as it would alone. -/
theorem has_append (hjoin : b.continues next = true) (hwhole : 4 ∣ b.data.size) :
    (b.append next).Has k a x ↔ b.Has k a x ∨ next.Has k a x := by
  obtain ⟨-, hstop⟩ := continues_iff.mp hjoin
  have hstop : b.romOffset + b.data.size = next.romOffset := hstop
  have hbytes : swapWords (b.append next).data = swapWords b.data ++ swapWords next.data :=
    swapWords_append hwhole next.data
  have hoffset : (b.append next).romOffset = b.romOffset := rfl
  have hpeek : peek (swapWords (b.append next).data) (a - (b.append next).romOffset) =
      if a - b.romOffset < b.data.size then peek (swapWords b.data) (a - b.romOffset)
      else peek (swapWords next.data) (a - b.romOffset - b.data.size) := by
    rw [hbytes, hoffset, peek_append, size_swapWords]
  unfold Has
  rw [covers_append hjoin, hpeek, or_and_right]
  refine or_congr (and_congr_right fun hcov => ?_) (and_congr_right fun hcov => ?_)
  · have hhigh : a < b.romOffset + b.data.size := hcov.2.2
    have hlow := hcov.2.1
    rw [if_pos (by omega)]
  · have hlow := hcov.2.1
    rw [if_neg (by omega), Nat.sub_sub, hstop]

theorem whole_append_left (hjoin : b.continues next = true) (hb : b.Whole next)
    (hnext : next.Whole c) : (b.append next).Whole c := by
  intro hcont
  obtain ⟨hkind, hstop⟩ := continues_iff.mp hjoin
  obtain ⟨hkind', hstop'⟩ := continues_iff.mp hcont
  have hnextStop : next.romStop = (b.append next).romStop := by
    rw [romStop_append, hstop, romStop]
  have hcont' : next.continues c = true :=
    continues_iff.mpr ⟨hkind.symm.trans hkind', hnextStop.trans hstop'⟩
  have hsize : (b.append next).data.size = b.data.size + next.data.size := ByteArray.size_append
  rw [hsize]
  exact Nat.dvd_add (hb hjoin) (hnext hcont')

theorem has_mergeOnto (hwhole : (last :: rest).Pairwise Whole) :
    (∃ b ∈ mergeOnto last rest, b.Has k a x) ↔ ∃ b ∈ last :: rest, b.Has k a x := by
  induction rest generalizing last with
  | nil => exact Iff.rfl
  | cons next rest ih =>
    obtain ⟨hlast, hrest⟩ := List.pairwise_cons.mp hwhole
    obtain ⟨hnext, hrest'⟩ := List.pairwise_cons.mp hrest
    by_cases hjoin : last.continues next = true
    · have hjoined : (last.append next :: rest).Pairwise Whole :=
        List.pairwise_cons.mpr ⟨fun c hc =>
          whole_append_left hjoin (hlast next List.mem_cons_self) (hnext c hc), hrest'⟩
      rw [mergeOnto_of_continues hjoin, ih hjoined]
      simp only [List.exists_mem_cons_iff, or_assoc,
        has_append hjoin (hlast next List.mem_cons_self hjoin)]
    · rw [mergeOnto_of_apart hjoin]
      have hcons (bs : List SampleBlock) :
          (∃ b ∈ last :: bs, b.Has k a x) ↔ last.Has k a x ∨ ∃ b ∈ bs, b.Has k a x :=
        List.exists_mem_cons_iff _ _ _
      rw [hcons, hcons, ih hrest]

/-! ## Blocks that do not overlap -/

/-- No ROM address lies in both blocks. -/
def Apart (b c : SampleBlock) : Prop := ∀ k a, b.Covers k a → ¬ c.Covers k a

theorem apart_mergeOnto (hapart : (last :: rest).Pairwise Apart) :
    (mergeOnto last rest).Pairwise Apart := by
  induction rest generalizing last with
  | nil => exact hapart
  | cons next rest ih =>
    obtain ⟨hlast, hrest⟩ := List.pairwise_cons.mp hapart
    obtain ⟨hnext, hrest'⟩ := List.pairwise_cons.mp hrest
    by_cases hjoin : last.continues next = true
    · rw [mergeOnto_of_continues hjoin]
      refine ih (List.pairwise_cons.mpr ⟨fun c hc k a hcov => ?_, hrest'⟩)
      rcases (covers_append hjoin).mp hcov with hcov | hcov
      · exact hlast c (List.mem_cons_of_mem _ hc) k a hcov
      · exact hnext c hc k a hcov
    · rw [mergeOnto_of_apart hjoin]
      refine List.pairwise_cons.mpr ⟨fun c hc k a hcov hcov' => ?_, ih hrest⟩
      rcases covered_mergeOnto.mp ⟨c, hc, hcov'⟩ with hcov' | ⟨d, hd, hcov'⟩
      · exact hlast next List.mem_cons_self k a hcov hcov'
      · exact hlast d (List.mem_cons_of_mem _ hd) k a hcov hcov'

end SampleBlock
namespace Preparation

variable {file : ByteArray} {p : Prepared} {k : SampleKind} {a : Nat} {x : UInt8}

theorem has_mergedBlocks {found : List SampleBlock}
    (hwhole : ∀ b ∈ found, ∀ c ∈ found, b.Whole c) :
    (∃ b ∈ mergedBlocks found, b.Has k a x) ↔ ∃ b ∈ found, b.Has k a x := by
  have hsorted : (∃ b ∈ found.mergeSort precedes, b.Has k a x) ↔ ∃ b ∈ found, b.Has k a x := by
    simp only [List.mem_mergeSort]
  have hpairwise : (found.mergeSort precedes).Pairwise Whole :=
    List.pairwise_of_forall_mem_list fun b hb c hc =>
      hwhole b (List.mem_mergeSort.mp hb) c (List.mem_mergeSort.mp hc)
  rw [← hsorted, mergedBlocks]
  cases hblocks : found.mergeSort precedes with
  | nil => exact Iff.rfl
  | cons first rest =>
    rw [hblocks] at hpairwise
    exact has_mergeOnto hpairwise

theorem apart_mergedBlocks {found : List SampleBlock} (hapart : found.Pairwise SampleBlock.Apart) :
    (mergedBlocks found).Pairwise SampleBlock.Apart := by
  have hsorted : (found.mergeSort precedes).Pairwise SampleBlock.Apart :=
    ((List.mergeSort_perm found precedes).pairwise_iff
      fun hbc k a hcov hcov' => hbc k a hcov' hcov).mpr hapart
  unfold mergedBlocks
  cases hblocks : found.mergeSort precedes with
  | nil => exact List.Pairwise.nil
  | cons first rest =>
    rw [hblocks] at hsorted
    exact apart_mergeOnto hsorted

end Preparation

/-! ## The data blocks of a file -/

namespace DataBlock

/-- No ROM address lies in both blocks. Blocks without bytes do not overlap anything. -/
def Apart (b c : DataBlock) : Prop := ∀ k a, b.Covers k a → ¬ c.Covers k a

/-- `c` has bytes of the same ROM, right behind those of `b`. -/
def ContinuedBy (b c : DataBlock) : Prop :=
  b.bytes.size ≠ 0 ∧ c.bytes.size ≠ 0 ∧ b.kind = c.kind ∧
    b.romOffset.toNat + b.bytes.size = c.romOffset.toNat

instance (b c : DataBlock) : Decidable (b.ContinuedBy c) := inferInstanceAs (Decidable (_ ∧ _))

theorem ContinuedBy.apart {b c : DataBlock} (h : b.ContinuedBy c) : b.Apart c := by
  rintro k a ⟨-, -, hhigh⟩ ⟨-, hlow, -⟩
  have hstop := h.2.2.2
  omega

end DataBlock

namespace Preparation

variable {file : ByteArray} {p : Prepared} {start loop : Nat} {commands : List Located}
variable {banks : BankMap} {k : SampleKind} {a : Nat} {x : UInt8}

/-- The data blocks of a file, in order; none if it cannot be read. -/
def dataBlocks (file : ByteArray) : List DataBlock :=
  match startOf file >>= commandsFrom file with
  | .ok commands => commands.filterMap fun c => c.command.block?
  | .error _ => []

theorem Made.dataBlocks_eq (h : Made file p start loop commands banks) :
    dataBlocks file = commands.filterMap fun c => c.command.block? := by
  have hread : (startOf file >>= commandsFrom file) = .ok commands := by
    rw [h.startOf_eq]
    exact h.commandsFrom_eq
  rw [dataBlocks, hread]

/-- The output blocks cover what the data blocks of the file cover. -/
theorem Made.covered_dataBlocks (h : Made file p start loop commands banks) :
    Covered p.blocks k a ↔ ∃ b ∈ dataBlocks file, b.Covers k a := by
  rw [h.covered_iff, h.dataBlocks_eq]
  constructor
  · rintro ⟨c, hc, block, hblock, hcov⟩
    exact ⟨block, mem_dataBlocks.mpr ⟨c, hc, hblock⟩, hcov⟩
  · rintro ⟨block, hmem, hcov⟩
    obtain ⟨c, hc, hblock⟩ := mem_dataBlocks.mp hmem
    exact ⟨c, hc, block, hblock, hcov⟩

/-- A relation that the data blocks are in, and the samples cut out of them with them. -/
theorem pairwise_sampleBlocks {R : DataBlock → DataBlock → Prop}
    {S : SampleBlock → SampleBlock → Prop}
    (hcut : ∀ b c, R b c → S (.ofDataBlock b) (.ofDataBlock c))
    (h : (commands.filterMap fun c => c.command.block?).Pairwise R) :
    (sampleBlocks commands).Pairwise S := by
  unfold sampleBlocks
  refine List.Pairwise.filterMap _ (fun b c hbc b' hb c' hc => ?_) h
  obtain ⟨-, hb⟩ := Option.ite_none_left_eq_some.mp hb
  obtain ⟨-, hc⟩ := Option.ite_none_left_eq_some.mp hc
  rw [← Option.some.inj hb, ← Option.some.inj hc]
  exact hcut b c hbc

theorem apart_sampleBlocks
    (hapart : (commands.filterMap fun c => c.command.block?).Pairwise DataBlock.Apart) :
    (sampleBlocks commands).Pairwise SampleBlock.Apart :=
  pairwise_sampleBlocks (fun b c hbc k a hcov hcov' =>
    hbc k a ((covers_ofDataBlock b).mp hcov) ((covers_ofDataBlock c).mp hcov')) hapart

theorem whole_sampleBlocks
    (hwords : ∀ b ∈ commands.filterMap (fun c => c.command.block?),
      ∀ c ∈ commands.filterMap (fun c => c.command.block?), b.ContinuedBy c → 4 ∣ b.bytes.size) :
    ∀ b ∈ sampleBlocks commands, ∀ c ∈ sampleBlocks commands, b.Whole c := by
  intro b hb c hc hcont
  obtain ⟨cb, hcb, block, hblock, hfull, rfl⟩ := mem_sampleBlocks.mp hb
  obtain ⟨cc, hcc, block', hblock', hfull', rfl⟩ := mem_sampleBlocks.mp hc
  obtain ⟨hkind, hstop⟩ := continues_iff.mp hcont
  rw [romStop, size_ofDataBlock] at hstop
  rw [size_ofDataBlock]
  exact hwords block (mem_dataBlocks.mpr ⟨cb, hcb, hblock⟩) block'
    (mem_dataBlocks.mpr ⟨cc, hcc, hblock'⟩) ⟨hfull, hfull', hkind, hstop⟩

end Preparation

/-! ## Uploads of blocks -/

/-- The upload of the block. -/
def SampleBlock.upload (b : SampleBlock) : Upload :=
  ⟨b.kind.destination, UInt32.ofNat b.offset, b.data⟩

theorem SampleKind.isSamples_destination (k : SampleKind) : k.destination.isSamples = true := by
  cases k <;> rfl

namespace Placed

variable {blocks : List SampleBlock} {banks : BankMap} {b c : SampleBlock} {t : Destination}
variable {i : Nat}

theorem toNat_offset (h : Placed blocks banks) (hb : b ∈ blocks) :
    b.upload.offset.toNat = b.offset := by
  have hfits : b.offset + b.data.size ≤ 0x800000 := h.fits b hb
  exact UInt32.toNat_ofNat_of_lt' (show b.offset < 2 ^ 32 by omega)

theorem fits_upload (h : Placed blocks banks) (hb : b ∈ blocks) (hfilled : b.Filled) :
    b.upload.Fits where
  pos := by
    have hlt : b.romOffset < b.romOffset + b.data.size := hfilled
    show 0 < b.data.size
    omega
  fits := by
    have hcapacity : b.upload.destination.capacity = sampleMemorySize :=
      if_pos b.kind.isSamples_destination
    rw [h.toNat_offset hb, hcapacity]
    exact h.fits b hb

theorem fills_upload (h : Placed blocks banks) (hb : b ∈ blocks) :
    b.upload.Fills t i ↔ t.isSamples = true ∧ b.offset ≤ i ∧ i < b.offset + b.data.size := by
  rw [Upload.Fills, h.toNat_offset hb, show b.upload.destination = b.kind.destination from rfl,
    b.kind.isSamples_destination]
  rfl

/-- What the upload of a block puts at `i` is a byte of the block's ROM that the bank map takes
there. -/
theorem address_of_fills (h : Placed blocks banks) (hb : b ∈ blocks) (hfills : b.upload.Fills t i) :
    b.Covers b.kind (b.romOffset + (i - b.offset)) ∧
      ∃ m, banks.find? b.kind ((b.romOffset + (i - b.offset)) / bankSize) = some m ∧
        bankAddress m (b.romOffset + (i - b.offset)) = i := by
  obtain ⟨-, hlow, hhigh⟩ := (h.fills_upload hb).mp hfills
  have hcov : b.Covers b.kind (b.romOffset + (i - b.offset)) := by
    refine ⟨rfl, Nat.le_add_right _ _, ?_⟩
    unfold SampleBlock.romStop
    omega
  obtain ⟨m, hfind⟩ := h.find?_of_covers hb hcov
  have haddress := h.bankAddress_eq hb hcov hfind
  exact ⟨hcov, m, hfind, by omega⟩

/-- Blocks that do not overlap in their ROM do not overlap in memory. -/
theorem apart_upload (h : Placed blocks banks) (hb : b ∈ blocks) (hc : c ∈ blocks)
    (hapart : b.Apart c) : b.upload.Apart c.upload := by
  intro t i hbi hci
  obtain ⟨hcov, m, hfind, haddress⟩ := h.address_of_fills hb hbi
  obtain ⟨hcov', n, hfind', haddress'⟩ := h.address_of_fills hc hci
  obtain ⟨hkind, heq⟩ := h.bankAddress_inj hfind hfind' (haddress.trans haddress'.symm)
  rw [← heq, ← hkind] at hcov'
  exact hapart _ _ hcov hcov'

end Placed

namespace Preparation

variable {file : ByteArray} {p : Prepared} {start loop : Nat} {commands : List Located}
variable {banks : BankMap}

/-- The upload of the part of the stream that fills the linear region, if there is one. -/
def linearUploads (p : Prepared) : List Upload :=
  if p.data.size = 0 then [] else [⟨.window, 0, p.data.extract 0 linearEnd⟩]

theorem initialUploads_eq (p : Prepared) :
    (Host.ofPrepared p).initialUploads = p.blocks.map SampleBlock.upload ++ linearUploads p := rfl

theorem mem_linearUploads {u : Upload} (hu : u ∈ linearUploads p) :
    u.Fits ∧ u.destination.isSamples = false := by
  unfold linearUploads at hu
  by_cases hempty : p.data.size = 0
  · rw [if_pos hempty] at hu
    exact absurd hu List.not_mem_nil
  · rw [if_neg hempty] at hu
    obtain rfl := List.mem_singleton.mp hu
    have hsize : (p.data.extract 0 linearEnd).size = min linearEnd p.data.size := by
      rw [ByteArray.size_extract, Nat.sub_zero]
    refine ⟨⟨?_, ?_⟩, rfl⟩
    · show 0 < (p.data.extract 0 linearEnd).size
      unfold linearEnd at hsize ⊢
      omega
    · show 0 + (p.data.extract 0 linearEnd).size ≤ 0x18000
      unfold linearEnd at hsize ⊢
      omega

theorem Made.fits_initialUploads (h : Made file p start loop commands banks) :
    ∀ u ∈ (Host.ofPrepared p).initialUploads, u.Fits := by
  intro u hu
  rw [initialUploads_eq] at hu
  rcases List.mem_append.mp hu with hu | hu
  · obtain ⟨b, hb, rfl⟩ := List.mem_map.mp hu
    exact h.placedBlocks.fits_upload hb (h.filled b hb)
  · exact (mem_linearUploads hu).1

theorem Made.apart_initialUploads (h : Made file p start loop commands banks)
    (hapart : (dataBlocks file).Pairwise DataBlock.Apart) :
    (Host.ofPrepared p).initialUploads.Pairwise Upload.Apart := by
  have hmerged : (mergedBlocks (sampleBlocks commands)).Pairwise SampleBlock.Apart :=
    apart_mergedBlocks (apart_sampleBlocks (h.dataBlocks_eq ▸ hapart))
  have hmoved (bs : List SampleBlock) : bs.Pairwise SampleBlock.Apart ↔
      (bs.map fun b => { b with offset := 0 }).Pairwise SampleBlock.Apart := by
    rw [List.pairwise_map]
    exact Iff.rfl
  have hblocks : p.blocks.Pairwise SampleBlock.Apart := by
    rw [hmoved, placeBlocks_blocks h.placed, ← hmoved]
    exact hmerged
  rw [initialUploads_eq, List.pairwise_append]
  refine ⟨?_, ?_, ?_⟩
  · rw [List.pairwise_map]
    exact hblocks.imp_of_mem fun hb hc hbc => h.placedBlocks.apart_upload hb hc hbc
  · unfold linearUploads
    split
    · exact List.Pairwise.nil
    · exact List.pairwise_singleton _ _
  · rintro u hu v hv t i hui hvi
    obtain ⟨b, hb, rfl⟩ := List.mem_map.mp hu
    have hsamples := ((h.placedBlocks.fills_upload hb).mp hui).1
    rw [hvi.1, (mem_linearUploads hv).2] at hsamples
    exact Bool.false_ne_true hsamples

/-- What sample memory holds once the host has made its uploads: every block, with the words of the
whole block reversed. -/
theorem Made.byte_takesAll (h : Made file p start loop commands banks)
    (hapart : (dataBlocks file).Pairwise DataBlock.Apart) {d d' : Device} (hready : d.Ready)
    (htakes : d.TakesAll (Host.ofPrepared p).initialUploads d') {b : SampleBlock}
    (hb : b ∈ p.blocks) {j : Nat} (hj : j < b.data.size) :
    d'.samples.byte (b.offset + j) = peek (swapWords b.data) j := by
  obtain ⟨-, -, hfilled⟩ :=
    htakes.memory hready h.fits_initialUploads (h.apart_initialUploads hapart)
  have hu : b.upload ∈ (Host.ofPrepared p).initialUploads := by
    rw [initialUploads_eq]
    exact List.mem_append_left _ (List.mem_map_of_mem hb)
  have hin : b.upload.Fills .adpcmA (b.offset + j) :=
    (h.placedBlocks.fills_upload hb).mpr ⟨rfl, Nat.le_add_right _ _, Nat.add_lt_add_left hj _⟩
  have hbyte := hfilled _ hu _ _ hin
  have hstored : b.upload.destination.stored b.upload.data = swapWords b.data :=
    if_pos b.kind.isSamples_destination
  rw [Device.memory_of_samples rfl, h.placedBlocks.toNat_offset hb, Nat.add_sub_cancel_left,
    hstored] at hbyte
  exact hbyte

/-- Some output block has byte `i` of the data block, at the same ROM address. -/
theorem Made.exists_has (h : Made file p start loop commands banks)
    (hwords : ∀ b ∈ dataBlocks file, ∀ c ∈ dataBlocks file, b.ContinuedBy c → 4 ∣ b.bytes.size)
    {b : DataBlock} (hb : b ∈ dataBlocks file) {i : Nat} (hi : i < b.bytes.size) :
    ∃ o ∈ p.blocks, o.Has b.kind (b.romOffset.toNat + i) (peek b.bytes i) := by
  rw [h.dataBlocks_eq] at hb hwords
  obtain ⟨c, hc, hblock⟩ := mem_dataBlocks.mp hb
  have hhas : (SampleBlock.ofDataBlock b).Has b.kind (b.romOffset.toNat + i) (peek b.bytes i) := by
    refine has_ofDataBlock.mpr ⟨⟨rfl, Nat.le_add_right _ _, Nat.add_lt_add_left hi _⟩, ?_⟩
    rw [Nat.add_sub_cancel_left]
  have hfound : SampleBlock.ofDataBlock b ∈ sampleBlocks commands :=
    mem_sampleBlocks.mpr ⟨c, hc, b, hblock, Nat.ne_zero_of_lt hi, rfl⟩
  exact (exists_placed (fun _ => Iff.rfl) h.placed).mpr
    ((has_mergedBlocks (whole_sampleBlocks hwords)).mpr ⟨_, hfound, hhas⟩)

/-- Samples arrive as the file has them. Let the data blocks of a file overlap nowhere, and let each
block that another one continues have whole words. Then a device on whose drained endpoint the host
makes its initial uploads can take them, and however that happens, sample memory has every byte of
every data block where the block that it went into says. -/
theorem samples_survive (config : DeviceConfig) (chip : Recorder) (timer : Timer)
    (before : List Device.Event) (hprepare : prepare file = .ok p)
    (hapart : (dataBlocks file).Pairwise DataBlock.Apart)
    (hwords : ∀ b ∈ dataBlocks file, ∀ c ∈ dataBlocks file, b.ContinuedBy c → 4 ∣ b.bytes.size)
    (hdrained : ((Device.new config chip timer).run before).endpoint.Drained) :
    let old := (Device.new config chip timer).run before
    (∃ d, old.TakesAll (Host.ofPrepared p).initialUploads d) ∧
    ∀ d, old.TakesAll (Host.ofPrepared p).initialUploads d →
      ∀ b ∈ dataBlocks file, ∀ i < b.bytes.size,
        (∃ o ∈ p.blocks, o.Covers b.kind (b.romOffset.toNat + i)) ∧
        ∀ o ∈ p.blocks, o.Covers b.kind (b.romOffset.toNat + i) →
          d.samples.byte (o.offset + (b.romOffset.toNat + i - o.romOffset)) = peek b.bytes i := by
  intro old
  obtain ⟨start, loop, commands, banks, hmade⟩ := made_of_prepare hprepare
  have hready : old.Ready := ⟨Device.inStep_run config chip timer before, hdrained⟩
  refine ⟨Device.exists_takesAll hready hmade.fits_initialUploads, ?_⟩
  intro d htakes b hb i hi
  obtain ⟨o, ho, hcov, hpeek⟩ := hmade.exists_has hwords hb hi
  refine ⟨⟨o, ho, hcov⟩, fun o' ho' hcov' => ?_⟩
  obtain ⟨n, hfind⟩ := hmade.placedBlocks.find?_of_covers ho hcov
  have haddress : o'.offset + (b.romOffset.toNat + i - o'.romOffset) =
      o.offset + (b.romOffset.toNat + i - o.romOffset) :=
    (hmade.placedBlocks.bankAddress_eq ho' hcov' hfind).symm.trans
      (hmade.placedBlocks.bankAddress_eq ho hcov hfind)
  have hin : b.romOffset.toNat + i - o.romOffset < o.data.size := by
    have hlow : o.romOffset ≤ b.romOffset.toNat + i := hcov.2.1
    have hhigh : b.romOffset.toNat + i < o.romOffset + o.data.size := hcov.2.2
    omega
  rw [haddress, hmade.byte_takesAll hapart hready htakes ho hin, hpeek]

/-- A file with two data blocks, of which the second continues the first. -/
def continued (first second : Array UInt8) : ByteArray :=
  ⟨#[0x56, 0x67, 0x6D, 0x20] ++ Array.replicate 60 0 ++
    #[0x67, 0x66, 0x82, 8 + UInt8.ofNat first.size, 0, 0, 0, 0, 0x10, 0, 0, 0, 0, 0, 0] ++ first ++
    #[0x67, 0x66, 0x82, 8 + UInt8.ofNat second.size, 0, 0, 0, 0, 0x10, 0, 0,
      UInt8.ofNat first.size, 0, 0, 0] ++ second ++ #[0x66]⟩

/-- What such a file holds behind its header. -/
def continuedCommands (first second : Array UInt8) : List Located :=
  [⟨0x40, .block ⟨.a, 0x1000, 0, ⟨first⟩⟩⟩,
    ⟨0x4F + first.size, .block ⟨.a, 0x1000, UInt32.ofNat first.size, ⟨second⟩⟩⟩,
    ⟨0x5E + first.size + second.size, .endOfStream⟩]

theorem prepare_wholeWords : ∃ p, prepare (continued #[1, 2, 3, 4] #[5, 6]) = .ok p ∧
    p.blocks = [⟨.a, 0, 0, 0x1000, ⟨#[4, 3, 2, 1, 5, 6]⟩⟩] ∧
    Made (continued #[1, 2, 3, 4] #[5, 6]) p 0x40 0 (continuedCommands #[1, 2, 3, 4] #[5, 6])
      [⟨.a, 0, 0, 0⟩] := by
  have hplaced : placeBlocks (mergedBlocks (sampleBlocks
      (continuedCommands #[1, 2, 3, 4] #[5, 6]))) =
      .ok ([⟨.a, 0, 0, 0x1000, ⟨#[4, 3, 2, 1, 5, 6]⟩⟩], [⟨.a, 0, 0, 0⟩]) := by
    rw [mergedBlocks_of_sorted (by decide +kernel)]
    decide +kernel
  exact prepare_ok (by decide +kernel) (by decide +kernel) (by decide +kernel) (by decide +kernel)
    (by decide +kernel) hplaced

theorem samples_survive_wholeWords :
    let file := continued #[1, 2, 3, 4] #[5, 6]
    let old := (Device.new {} (.fresh (fun _ => true) true) { manual := true }).run [.configure]
    ∃ p d, prepare file = .ok p ∧ (dataBlocks file).Pairwise DataBlock.Apart ∧
      (∀ b ∈ dataBlocks file, ∀ c ∈ dataBlocks file, b.ContinuedBy c → 4 ∣ b.bytes.size) ∧
      old.endpoint.Drained ∧ old.TakesAll (Host.ofPrepared p).initialUploads d ∧
      ∀ i < 6, d.samples.byte i = UInt8.ofNat (i + 1) := by
  intro file old
  obtain ⟨p, hprepare, hblocks, hmade⟩ := prepare_wholeWords
  have hfound : dataBlocks file =
      [⟨.a, 0x1000, 0, ⟨#[1, 2, 3, 4]⟩⟩, ⟨.a, 0x1000, 4, ⟨#[5, 6]⟩⟩] := hmade.dataBlocks_eq
  have hapart : (dataBlocks file).Pairwise DataBlock.Apart := by
    rw [hfound]
    exact List.pairwise_pair.mpr (DataBlock.ContinuedBy.apart (by decide +kernel))
  have hwords : ∀ b ∈ dataBlocks file, ∀ c ∈ dataBlocks file,
      b.ContinuedBy c → 4 ∣ b.bytes.size := by
    rw [hfound]
    decide +kernel
  have hdrained : old.endpoint.Drained := ⟨rfl, rfl, rfl, rfl⟩
  obtain ⟨⟨d, htakes⟩, hall⟩ := samples_survive {} (.fresh (fun _ => true) true) { manual := true }
    [.configure] hprepare hapart hwords hdrained
  refine ⟨p, d, hprepare, hapart, hwords, hdrained, htakes, ?_⟩
  have hbytes := hall d htakes
  rw [hfound, hblocks] at hbytes
  intro i hi
  by_cases hlow : i < 4
  · have hbyte : d.samples.byte (0 + (0 + i - 0)) = peek ⟨#[1, 2, 3, 4]⟩ i :=
      (hbytes _ List.mem_cons_self i hlow).2 _ List.mem_cons_self
        ⟨rfl, Nat.zero_le _, show 0 + i < 6 by omega⟩
    have hpeek : ∀ i < 4, peek ⟨#[1, 2, 3, 4]⟩ i = UInt8.ofNat (i + 1) := by decide
    rw [show 0 + (0 + i - 0) = i by omega, hpeek i hlow] at hbyte
    exact hbyte
  · have hhigh : i - 4 < 2 := by omega
    have hbyte : d.samples.byte (0 + (4 + (i - 4) - 0)) = peek ⟨#[5, 6]⟩ (i - 4) :=
      (hbytes _ (List.mem_cons_of_mem _ List.mem_cons_self) (i - 4) hhigh).2 _ List.mem_cons_self
        ⟨rfl, Nat.zero_le _, show 4 + (i - 4) < 6 by omega⟩
    have hpeek : ∀ j < 2, peek ⟨#[5, 6]⟩ j = UInt8.ofNat (4 + j + 1) := by decide
    rw [hpeek (i - 4) hhigh, show 0 + (4 + (i - 4) - 0) = i by omega,
      show 4 + (i - 4) + 1 = i + 1 by omega] at hbyte
    exact hbyte

theorem prepare_splitWord : ∃ p,
    prepare (continued #[1, 2, 3, 4, 5, 6] #[7, 8, 9, 10, 11, 12]) = .ok p ∧
    p.blocks = [⟨.a, 0, 0, 0x1000, ⟨#[4, 3, 2, 1, 5, 6, 10, 9, 8, 7, 11, 12]⟩⟩] ∧
    Made (continued #[1, 2, 3, 4, 5, 6] #[7, 8, 9, 10, 11, 12]) p 0x40 0
      (continuedCommands #[1, 2, 3, 4, 5, 6] #[7, 8, 9, 10, 11, 12]) [⟨.a, 0, 0, 0⟩] := by
  have hplaced : placeBlocks (mergedBlocks (sampleBlocks
      (continuedCommands #[1, 2, 3, 4, 5, 6] #[7, 8, 9, 10, 11, 12]))) =
      .ok ([⟨.a, 0, 0, 0x1000, ⟨#[4, 3, 2, 1, 5, 6, 10, 9, 8, 7, 11, 12]⟩⟩],
        [⟨.a, 0, 0, 0⟩]) := by
    rw [mergedBlocks_of_sorted (by decide +kernel)]
    decide +kernel
  exact prepare_ok (by decide +kernel) (by decide +kernel) (by decide +kernel) (by decide +kernel)
    (by decide +kernel) hplaced

/-- Behind a block whose last word is cut off, the bytes that continue it change places. The file
has `05` at ROM address 4. -/
theorem samples_torn :
    let file := continued #[1, 2, 3, 4, 5, 6] #[7, 8, 9, 10, 11, 12]
    let old := (Device.new {} (.fresh (fun _ => true) true) { manual := true }).run [.configure]
    ∃ p, prepare file = .ok p ∧ (dataBlocks file).Pairwise DataBlock.Apart ∧
      old.endpoint.Drained ∧
      (∃ d, old.TakesAll (Host.ofPrepared p).initialUploads d) ∧
      ∀ d, old.TakesAll (Host.ofPrepared p).initialUploads d →
        (List.range 12).map d.samples.byte = [1, 2, 3, 4, 9, 10, 6, 5, 12, 11, 7, 8] ∧
        ∃ b ∈ dataBlocks file, ∃ i < b.bytes.size, ∃ o ∈ p.blocks,
          o.Covers b.kind (b.romOffset.toNat + i) ∧
          d.samples.byte (o.offset + (b.romOffset.toNat + i - o.romOffset)) ≠ peek b.bytes i := by
  intro file old
  obtain ⟨p, hprepare, hblocks, hmade⟩ := prepare_splitWord
  have hfound : dataBlocks file = [⟨.a, 0x1000, 0, ⟨#[1, 2, 3, 4, 5, 6]⟩⟩,
      ⟨.a, 0x1000, 6, ⟨#[7, 8, 9, 10, 11, 12]⟩⟩] := hmade.dataBlocks_eq
  have hapart : (dataBlocks file).Pairwise DataBlock.Apart := by
    rw [hfound]
    exact List.pairwise_pair.mpr (DataBlock.ContinuedBy.apart (by decide +kernel))
  have hready : old.Ready := ⟨Device.inStep_run _ _ _ _, ⟨rfl, rfl, rfl, rfl⟩⟩
  refine ⟨p, hprepare, hapart, hready.drained, Device.exists_takesAll hready
    hmade.fits_initialUploads, fun d htakes => ?_⟩
  have hbyte : ∀ i < 12, d.samples.byte (0 + i) =
      peek (swapWords ⟨#[4, 3, 2, 1, 5, 6, 10, 9, 8, 7, 11, 12]⟩) i := fun i hi =>
    hmade.byte_takesAll hapart hready htakes (hblocks ▸ List.mem_cons_self) hi
  constructor
  · have hmap : (List.range 12).map d.samples.byte =
        (List.range 12).map (peek (swapWords ⟨#[4, 3, 2, 1, 5, 6, 10, 9, 8, 7, 11, 12]⟩)) := by
      refine List.map_congr_left fun i hi => ?_
      rw [← hbyte i (List.mem_range.mp hi), Nat.zero_add]
    rw [hmap]
    decide +kernel
  · refine ⟨_, hfound ▸ List.mem_cons_self, 4, by decide, _, hblocks ▸ List.mem_cons_self,
      ⟨rfl, by decide, by decide⟩, ?_⟩
    have hfour : d.samples.byte (0 + 4) = 9 := (hbyte 4 (by decide)).trans (by decide +kernel)
    show d.samples.byte (0 + 4) ≠ 5
    rw [hfour]
    decide

end Preparation
end ChipReplay
