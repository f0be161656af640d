import ChipReplay.Proofs.Preparation.Writing
/-!
# Blocks that overlap

Where data blocks overlap, an address has several bytes, and sample memory can keep only one of
them. Blocks are uploaded in the order of their ROM offsets, and in the file's order where these
are equal. So the byte that stays is that of the block which begins last, and of the last such
block in the file (`greatest_offset_stays`). That need not be the last block in the file
(`later_block_covered`).
-/

namespace ChipReplay

open Bytes SampleBlock

/-! ## The last of several blocks -/

namespace SampleBlock

variable {b c last next : SampleBlock} {bs rest before after found : List SampleBlock}
variable {k : SampleKind} {a : Nat} {x : UInt8}

instance (b : SampleBlock) (k : SampleKind) (a : Nat) : Decidable (b.Covers k a) :=
  inferInstanceAs (Decidable (_ ∧ _ ∧ _))

/-- Storing the blocks one after the other leaves the byte `x` at ROM address `a`. -/
def Leaves (bs : List SampleBlock) (k : SampleKind) (a : Nat) (x : UInt8) : Prop :=
  ∃ before b after, bs = before ++ b :: after ∧ b.Has k a x ∧ ¬ Covered after k a

/-- The first block counts where no later one does. -/
theorem leaves_cons : Leaves (b :: bs) k a x ↔
    Leaves bs k a x ∨ ¬ Covered bs k a ∧ b.Has k a x := by
  constructor
  · rintro ⟨before, c, after, heq, hhas, hnone⟩
    rcases List.cons_eq_append_iff.mp heq with ⟨rfl, heq⟩ | ⟨before', rfl, rfl⟩
    · obtain ⟨rfl, rfl⟩ := List.cons_eq_cons.mp heq
      exact .inr ⟨hnone, hhas⟩
    · exact .inl ⟨before', c, after, rfl, hhas, hnone⟩
  · rintro (⟨before, c, after, rfl, hhas, hnone⟩ | ⟨hnone, hhas⟩)
    · exact ⟨b :: before, c, after, rfl, hhas, hnone⟩
    · exact ⟨[], b, bs, rfl, hhas, hnone⟩

/-- Joining blocks does not change what they leave. -/
theorem leaves_mergeOnto (hwhole : (last :: rest).Pairwise Whole) :
    Leaves (mergeOnto last rest) k a x ↔ Leaves (last :: rest) k a x := by
  induction rest generalizing last with
  | nil => exact Iff.rfl
  | cons next rest ih =>
    obtain ⟨hlast, hrest⟩ := List.pairwise_cons.mp hwhole
    obtain ⟨hnext, hrest'⟩ := List.pairwise_cons.mp hrest
    by_cases hjoin : last.continues next = true
    · have hjoined : (last.append next :: rest).Pairwise Whole :=
        List.pairwise_cons.mpr ⟨fun c hc =>
          whole_append_left hjoin (hlast next List.mem_cons_self) (hnext c hc), hrest'⟩
      -- the second block begins where the first one ends
      have hapart (hhas : last.Has k a x) : ¬ next.Covers k a := by
        intro hcov
        have hstop := (continues_iff.mp hjoin).2
        have hhigh := hhas.1.2.2
        have hlow := hcov.2.1
        omega
      rw [mergeOnto_of_continues hjoin, ih hjoined, leaves_cons, leaves_cons, leaves_cons,
        has_append hjoin (hlast next List.mem_cons_self hjoin), covered_cons]
      tauto
    · rw [mergeOnto_of_apart hjoin, leaves_cons, ih hrest, covered_mergeOnto, ← covered_cons,
        ← leaves_cons]

/-- What blocks leave does not depend on where they lie in memory. -/
theorem leaves_map_offset :
    Leaves (bs.map fun b => { b with offset := 0 }) k a x ↔ Leaves bs k a x := by
  induction bs with
  | nil => exact Iff.rfl
  | cons b rest ih =>
    have hcovered : Covered (rest.map fun b => { b with offset := 0 }) k a ↔ Covered rest k a :=
      Preparation.exists_map_offset (fun _ => Iff.rfl) rest
    have hhas : ({ b with offset := 0 } : SampleBlock).Has k a x ↔ b.Has k a x := Iff.rfl
    rw [List.map_cons, leaves_cons, leaves_cons]
    exact or_congr ih (and_congr (not_congr hcovered) hhas)

/-- The block covers ROM address `a`, and begins at ROM offset `n`. -/
def coversFrom (k : SampleKind) (a n : Nat) (b : SampleBlock) : Bool :=
  decide (b.Covers k a ∧ b.romOffset = n)

/-- Of blocks that cover an address, let one begin last, and be the last such block. Sorting brings
it behind all the others. -/
theorem mergeSort_last (hfound : found = before ++ b :: after) (hcov : b.Covers k a)
    (hbefore : ∀ c ∈ before, c.Covers k a → c.romOffset ≤ b.romOffset)
    (hafter : ∀ c ∈ after, c.Covers k a → c.romOffset < b.romOffset) :
    ∃ before' after', found.mergeSort precedes = before' ++ b :: after' ∧
      ¬ Covered after' k a := by
  have hlevel (c : SampleBlock) :
      coversFrom k a b.romOffset c = true ↔ c.Covers k a ∧ c.romOffset = b.romOffset :=
    decide_eq_true_iff
  have hkept : found.filter (coversFrom k a b.romOffset) =
      before.filter (coversFrom k a b.romOffset) ++ [b] := by
    have hnone : after.filter (coversFrom k a b.romOffset) = [] := by
      rw [List.filter_eq_nil_iff]
      intro c hc hkeep
      obtain ⟨hccov, heq⟩ := (hlevel c).mp hkeep
      exact absurd heq (Nat.ne_of_lt (hafter c hc hccov))
    rw [hfound, List.filter_append, List.filter_cons_of_pos ((hlevel b).mpr ⟨hcov, rfl⟩), hnone]
  -- the blocks that begin where `b` does keep their order
  have hsame : (found.filter (coversFrom k a b.romOffset)).Pairwise
      fun b c => b.precedes c = true := by
    refine List.pairwise_of_forall_mem_list fun c hc d hd => precedes_iff.mpr (.inr ?_)
    obtain ⟨hc, hceq⟩ := (hlevel c).mp (List.mem_filter.mp hc).2
    obtain ⟨hd, hdeq⟩ := (hlevel d).mp (List.mem_filter.mp hd).2
    exact ⟨hc.1.trans hd.1.symm, Nat.le_of_eq (hceq.trans hdeq.symm)⟩
  have hsorted := filter_mergeSort hsame
  rw [hkept] at hsorted
  obtain ⟨first, second, hsplit, -, hsecond⟩ := List.filter_eq_append_iff.mp hsorted
  obtain ⟨between, after', rfl, -, -, hnone⟩ := List.filter_eq_cons_iff.mp hsecond
  have hwhole : found.mergeSort precedes = (first ++ between) ++ b :: after' := by
    rw [hsplit, List.append_assoc]
  refine ⟨first ++ between, after', hwhole, ?_⟩
  -- a later one that covers the address would begin where `b` does, and be left by the filter
  rintro ⟨c, hc, hccov⟩
  have hge : b.romOffset ≤ c.romOffset := by
    have horder := sorted_mergeSort found
    rw [Sorted, List.pairwise_map, hwhole] at horder
    have hbc := (List.pairwise_cons.mp (List.pairwise_append.mp horder).2.1).1 c hc
    rcases hbc with hlt | ⟨-, hle⟩
    · have hlt : b.kind.rank < c.kind.rank := hlt
      rw [hcov.1, hccov.1] at hlt
      exact absurd hlt (Nat.lt_irrefl _)
    · exact hle
  have hle : c.romOffset ≤ b.romOffset := by
    have hmem : c ∈ found := by
      have hsorted : c ∈ found.mergeSort precedes := by
        rw [hwhole]
        exact List.mem_append_right _ (List.mem_cons_of_mem _ hc)
      exact List.mem_mergeSort.mp hsorted
    rw [hfound] at hmem
    rcases List.mem_append.mp hmem with hmem | hmem
    · exact hbefore c hmem hccov
    · rcases List.mem_cons.mp hmem with rfl | hmem
      · exact Nat.le_refl _
      · exact Nat.le_of_lt (hafter c hmem hccov)
  have hkeep : coversFrom k a b.romOffset c = true :=
    (hlevel c).mpr ⟨hccov, Nat.le_antisymm hle hge⟩
  exact absurd hkeep (List.filter_eq_nil_iff.mp hnone c hc)

end SampleBlock

/-! ## Uploads that overlap -/

namespace Device

variable {d d' : Device} {u : Upload} {us before after : List Upload} {t : Destination} {i : Nat}

/-- What no upload fills stays as it is. -/
theorem TakesAll.kept (h : d.TakesAll us d') (hready : d.Ready) (hfits : ∀ u ∈ us, u.Fits)
    (hnone : ∀ u ∈ us, ¬ u.Fills t i) : d'.memory t i = d.memory t i := by
  induction h with
  | none d => rfl
  | @more d d₁ d' u us hfirst hrest ih =>
    obtain ⟨hu, hus⟩ := List.forall_mem_cons.mp hfits
    obtain ⟨hnot, hnone⟩ := List.forall_mem_cons.mp hnone
    obtain ⟨hready₁, hstored⟩ := hfirst.stored hready hu
    rw [ih hready₁ hus hnone, hstored t i]
    exact if_neg hnot

/-- Of the uploads that fill a byte, the last one counts. -/
theorem TakesAll.memory_of_last (h : d.TakesAll us d') (hready : d.Ready)
    (hfits : ∀ u ∈ us, u.Fits) (hus : us = before ++ u :: after) (hfills : u.Fills t i)
    (hnone : ∀ v ∈ after, ¬ v.Fills t i) :
    d'.memory t i = Bytes.peek (u.destination.stored u.data) (i - u.offset.toNat) := by
  induction before generalizing us d with
  | nil =>
    subst hus
    obtain ⟨hu, hafter⟩ := List.forall_mem_cons.mp hfits
    cases h with
    | more hfirst hrest =>
      obtain ⟨hready₁, hstored⟩ := hfirst.stored hready hu
      rw [hrest.kept hready₁ hafter hnone, hstored t i]
      exact if_pos hfills
  | cons v before ih =>
    subst hus
    obtain ⟨hv, hrestFits⟩ := List.forall_mem_cons.mp hfits
    cases h with
    | more hfirst hrest => exact ih hrest (hfirst.stored hready hv).1 hrestFits rfl

end Device

namespace Preparation

variable {file : ByteArray} {p : Prepared} {start loop : Nat} {commands : List Located}
variable {banks : BankMap} {k : SampleKind} {a : Nat} {x : UInt8}

/-- What the host's uploads leave in sample memory where an output block has an address. -/
theorem Made.byte_of_leaves (h : Made file p start loop commands banks) {d d' : Device}
    (hready : d.Ready) (htakes : d.TakesAll (Host.ofPrepared p).initialUploads d')
    (hleaves : Leaves p.blocks k a x) {o : SampleBlock} (ho : o ∈ p.blocks) (hcov : o.Covers k a) :
    d'.samples.byte (o.offset + (a - o.romOffset)) = x := by
  obtain ⟨before, b, after, hblocks, ⟨hbcov, hbyte⟩, hnone⟩ := hleaves
  have hplaced := h.placedBlocks
  have hmem : ∀ c ∈ after, c ∈ p.blocks := fun c hc =>
    hblocks ▸ List.mem_append_right _ (List.mem_cons_of_mem _ hc)
  have hb : b ∈ p.blocks := hblocks ▸ List.mem_append_right _ List.mem_cons_self
  obtain ⟨m, hfind⟩ := hplaced.find?_of_covers hb hbcov
  -- an address has one place, whichever block it is looked up in
  have haddress : o.offset + (a - o.romOffset) = b.offset + (a - b.romOffset) :=
    (hplaced.bankAddress_eq ho hcov hfind).symm.trans (hplaced.bankAddress_eq hb hbcov hfind)
  have hin : a - b.romOffset < b.data.size := by
    have hlow : b.romOffset ≤ a := hbcov.2.1
    have hhigh : a < b.romOffset + b.data.size := hbcov.2.2
    omega
  have hfills : b.upload.Fills .adpcmA (b.offset + (a - b.romOffset)) :=
    (hplaced.fills_upload hb).mpr ⟨rfl, Nat.le_add_right _ _, Nat.add_lt_add_left hin _⟩
  have huploads : (Host.ofPrepared p).initialUploads = before.map SampleBlock.upload ++
      b.upload :: (after.map SampleBlock.upload ++ linearUploads p) := by
    rw [initialUploads_eq, hblocks, List.map_append, List.map_cons, List.append_assoc,
      List.cons_append]
  have hlast : ∀ v ∈ after.map SampleBlock.upload ++ linearUploads p,
      ¬ v.Fills .adpcmA (b.offset + (a - b.romOffset)) := by
    intro v hv hvfills
    rcases List.mem_append.mp hv with hv | hv
    · -- a later block that fills the place covers the address
      obtain ⟨c, hc, rfl⟩ := List.mem_map.mp hv
      obtain ⟨hccov, n, hfind', haddress'⟩ := hplaced.address_of_fills (hmem c hc) hvfills
      have hsame : bankAddress m a = bankAddress n (c.romOffset + (b.offset + (a - b.romOffset) -
          c.offset)) := (hplaced.bankAddress_eq hb hbcov hfind).trans haddress'.symm
      obtain ⟨hkind, heq⟩ := hplaced.bankAddress_inj hfind hfind' hsame
      rw [← heq, ← hkind] at hccov
      exact hnone ⟨c, hc, hccov⟩
    · have hsamples := hvfills.1
      rw [(mem_linearUploads hv).2] at hsamples
      exact Bool.false_ne_true hsamples.symm
  have hmemory := htakes.memory_of_last hready h.fits_initialUploads huploads hfills hlast
  have hstored : b.upload.destination.stored b.upload.data = swapWords b.data :=
    if_pos b.kind.isSamples_destination
  rw [Device.memory_of_samples rfl, hplaced.toNat_offset hb, Nat.add_sub_cancel_left, hstored,
    hbyte] at hmemory
  rw [haddress]
  exact hmemory

end Preparation

/-! ## The data blocks of a file -/

namespace DataBlock

variable {b c : DataBlock} {bs before after : List DataBlock} {k : SampleKind} {a : Nat}

instance (b : DataBlock) (k : SampleKind) (a : Nat) : Decidable (b.Covers k a) :=
  inferInstanceAs (Decidable (_ ∧ _ ∧ _))

/-- Of the blocks that cover ROM address `a`, none begins behind `b`, and none of those that begin
where `b` does comes later. -/
def Prevails (bs : List DataBlock) (k : SampleKind) (a : Nat) (b : DataBlock) : Prop :=
  b.Covers k a ∧ ∃ before after, bs = before ++ b :: after ∧
    (∀ c ∈ before, c.Covers k a → c.romOffset.toNat ≤ b.romOffset.toNat) ∧
    ∀ c ∈ after, c.Covers k a → c.romOffset.toNat < b.romOffset.toNat

theorem exists_prevails (h : ∃ b ∈ bs, b.Covers k a) : ∃ b, Prevails bs k a b := by
  induction bs with
  | nil =>
    obtain ⟨b, hb, -⟩ := h
    exact absurd hb List.not_mem_nil
  | cons c rest ih =>
    by_cases hrest : ∃ b ∈ rest, b.Covers k a
    · obtain ⟨b, hcov, before, after, rfl, hbefore, hafter⟩ := ih hrest
      by_cases hfirst : c.Covers k a → c.romOffset.toNat ≤ b.romOffset.toNat
      · exact ⟨b, hcov, c :: before, after, rfl, List.forall_mem_cons.mpr ⟨hfirst, hbefore⟩, hafter⟩
      · -- what prevails in the rest begins before `c`, and nothing there begins later
        rw [Classical.not_imp] at hfirst
        obtain ⟨hccov, hlt⟩ := hfirst
        refine ⟨c, hccov, [], _, rfl, fun d hd => absurd hd List.not_mem_nil, fun d hd hdcov => ?_⟩
        have hle : d.romOffset.toNat ≤ b.romOffset.toNat := by
          rcases List.mem_append.mp hd with hd | hd
          · exact hbefore d hd hdcov
          · rcases List.mem_cons.mp hd with rfl | hd
            · exact Nat.le_refl _
            · exact Nat.le_of_lt (hafter d hd hdcov)
        omega
    · obtain ⟨b, hb, hcov⟩ := h
      rcases List.mem_cons.mp hb with rfl | hb
      · exact ⟨b, hcov, [], rest, rfl, fun d hd => absurd hd List.not_mem_nil,
          fun d hd hdcov => absurd ⟨d, hd, hdcov⟩ hrest⟩
      · exact absurd ⟨b, hb, hcov⟩ hrest

end DataBlock

namespace Preparation

variable {file : ByteArray} {p : Prepared} {start loop : Nat} {commands : List Located}
variable {banks : BankMap} {k : SampleKind} {a : Nat} {x : UInt8}

theorem leaves_mergedBlocks {found : List SampleBlock}
    (hwhole : ∀ b ∈ found, ∀ c ∈ found, b.Whole c) :
    Leaves (mergedBlocks found) k a x ↔ Leaves (found.mergeSort precedes) k a x := by
  have hpairwise : (found.mergeSort precedes).Pairwise Whole :=
    List.pairwise_of_forall_mem_list fun b hb c hc =>
      hwhole b (List.mem_mergeSort.mp hb) c (List.mem_mergeSort.mp hc)
  unfold mergedBlocks
  cases hblocks : found.mergeSort precedes with
  | nil => exact Iff.rfl
  | cons first rest =>
    rw [hblocks] at hpairwise
    exact leaves_mergeOnto hpairwise

/-- What is cut out of a file for a data block; nothing for an empty one. -/
def sample? (b : DataBlock) : Option SampleBlock :=
  if b.bytes.size = 0 then none else some (.ofDataBlock b)

theorem exists_of_mem_samples {b : SampleBlock} {found : List DataBlock}
    (h : b ∈ found.filterMap sample?) : ∃ c ∈ found, b = .ofDataBlock c := by
  obtain ⟨c, hc, hsome⟩ := List.mem_filterMap.mp h
  exact ⟨c, hc, (Option.some.inj (Option.ite_none_left_eq_some.mp hsome).2).symm⟩

/-- The output blocks leave what the block has that prevails in the file. -/
theorem Made.leaves_of_prevails (h : Made file p start loop commands banks)
    (hwords : ∀ b ∈ dataBlocks file, ∀ c ∈ dataBlocks file, b.ContinuedBy c → 4 ∣ b.bytes.size)
    {b : DataBlock} (hb : DataBlock.Prevails (dataBlocks file) k a b) :
    Leaves p.blocks k a (peek b.bytes (a - b.romOffset.toNat)) := by
  rw [h.dataBlocks_eq] at hb hwords
  obtain ⟨hcov, before, after, hsplit, hbefore, hafter⟩ := hb
  have hfull : ¬ b.bytes.size = 0 := by
    have hlow := hcov.2.1
    have hhigh := hcov.2.2
    omega
  have hfound : sampleBlocks commands =
      before.filterMap sample? ++ .ofDataBlock b :: after.filterMap sample? := by
    have hsample : sample? b = some (.ofDataBlock b) := if_neg hfull
    show List.filterMap sample? _ = _
    rw [hsplit, List.filterMap_append, List.filterMap_cons_some hsample]
  obtain ⟨before', after', hsorted, hnone⟩ := mergeSort_last hfound
    ((covers_ofDataBlock b).mpr hcov) (fun c hc hccov => by
      obtain ⟨d, hd, rfl⟩ := exists_of_mem_samples hc
      exact hbefore d hd ((covers_ofDataBlock d).mp hccov))
    (fun c hc hccov => by
      obtain ⟨d, hd, rfl⟩ := exists_of_mem_samples hc
      exact hafter d hd ((covers_ofDataBlock d).mp hccov))
  have hhas : (SampleBlock.ofDataBlock b).Has k a (peek b.bytes (a - b.romOffset.toNat)) :=
    has_ofDataBlock.mpr ⟨hcov, rfl⟩
  have hmerged := (leaves_mergedBlocks (whole_sampleBlocks hwords)).mpr
    ⟨before', _, after', hsorted, hhas, hnone⟩
  rw [← leaves_map_offset, placeBlocks_blocks h.placed, leaves_map_offset]
  exact hmerged

/-- Where blocks overlap, the one that begins last stays. Let each block that another one continues
have whole words. Then a device on whose drained endpoint the host makes its initial uploads can
take them, and however that happens, sample memory has at every covered address the byte of the
block that prevails there. -/
theorem greatest_offset_stays (config : DeviceConfig) (chip : Recorder) (timer : Timer)
    (before : List Device.Event) (hprepare : prepare file = .ok p)
    (hwords : ∀ b ∈ dataBlocks file, ∀ c ∈ dataBlocks file, b.ContinuedBy c → 4 ∣ b.bytes.size)
    (hdrained : ((Device.new config chip timer).run before).endpoint.Drained) :
    let old := (Device.new config chip timer).run before
    (∃ d, old.TakesAll (Host.ofPrepared p).initialUploads d) ∧
    ∀ d, old.TakesAll (Host.ofPrepared p).initialUploads d →
      ∀ k a, (∃ b ∈ dataBlocks file, b.Covers k a) →
        (∃ b, DataBlock.Prevails (dataBlocks file) k a b) ∧ (∃ o ∈ p.blocks, o.Covers k a) ∧
        ∀ b, DataBlock.Prevails (dataBlocks file) k a b → ∀ o ∈ p.blocks, o.Covers k a →
          d.samples.byte (o.offset + (a - o.romOffset)) =
            peek b.bytes (a - b.romOffset.toNat) := by
  intro old
  obtain ⟨start, loop, commands, banks, hmade⟩ := made_of_prepare hprepare
  have hready : old.Ready := ⟨Device.inStep_run config chip timer before, hdrained⟩
  refine ⟨Device.exists_takesAll hready hmade.fits_initialUploads, ?_⟩
  intro d htakes k a hcovered
  refine ⟨DataBlock.exists_prevails hcovered, hmade.covered_dataBlocks.mpr hcovered, ?_⟩
  intro b hb o ho hcov
  exact hmade.byte_of_leaves hready htakes (hmade.leaves_of_prevails hwords hb) ho hcov

theorem mergeSort_pair {b c : SampleBlock} (h : ¬ b.precedes c = true) :
    [b, c].mergeSort precedes = [c, b] := by
  simp [List.mergeSort, List.MergeSort.Internal.splitInTwo, h]

/-- A block, and one that begins before it and reaches over it. -/
def nestedBlocks : List DataBlock :=
  [⟨.a, 0x1000, 4, ⟨#[1, 2, 3, 4]⟩⟩,
    ⟨.a, 0x1000, 0, ⟨#[0x11, 0x12, 0x13, 0x14, 0x15, 0x16, 0x17, 0x18]⟩⟩]

theorem prepare_nestedBlocks : ∃ p, prepare (fileOf nestedBlocks) = .ok p ∧
    p.blocks = [⟨.a, 0, 0, 0x1000, ⟨#[0x14, 0x13, 0x12, 0x11, 0x18, 0x17, 0x16, 0x15]⟩⟩,
      ⟨.a, 4, 4, 0x1000, ⟨#[4, 3, 2, 1]⟩⟩] ∧
    dataBlocks (fileOf nestedBlocks) = nestedBlocks := by
  have hplaced : placeBlocks (mergedBlocks (sampleBlocks (commandsOf 0x40 nestedBlocks))) = .ok
      ([⟨.a, 0, 0, 0x1000, ⟨#[0x14, 0x13, 0x12, 0x11, 0x18, 0x17, 0x16, 0x15]⟩⟩,
        ⟨.a, 4, 4, 0x1000, ⟨#[4, 3, 2, 1]⟩⟩], [⟨.a, 0, 0, 0⟩]) := by
    have hfound : sampleBlocks (commandsOf 0x40 nestedBlocks) =
        [⟨.a, 4, 4, 0x1000, ⟨#[4, 3, 2, 1]⟩⟩,
          ⟨.a, 0, 0, 0x1000, ⟨#[0x14, 0x13, 0x12, 0x11, 0x18, 0x17, 0x16, 0x15]⟩⟩] := by
      decide +kernel
    rw [hfound, mergedBlocks, mergeSort_pair (by decide +kernel)]
    decide +kernel
  exact prepare_fileOf nestedBlocks _ _ (by decide +kernel) hplaced

theorem greatest_offset_stays_nested :
    let old := (Device.new {} (.fresh (fun _ => true) true) { manual := true }).run [.configure]
    ∃ p d, prepare (fileOf nestedBlocks) = .ok p ∧ old.endpoint.Drained ∧
      old.TakesAll (Host.ofPrepared p).initialUploads d ∧
      d.samples.byte 0 = 0x11 ∧ d.samples.byte 4 = 1 := by
  intro old
  obtain ⟨p, hprepare, hblocks, hfound⟩ := prepare_nestedBlocks
  have hdrained : old.endpoint.Drained := ⟨rfl, rfl, rfl, rfl⟩
  have hwords : ∀ b ∈ dataBlocks (fileOf nestedBlocks), ∀ c ∈ dataBlocks (fileOf nestedBlocks),
      b.ContinuedBy c → 4 ∣ b.bytes.size := by
    rw [hfound]
    decide +kernel
  obtain ⟨⟨d, htakes⟩, hall⟩ := greatest_offset_stays {} (.fresh (fun _ => true) true)
    { manual := true } [.configure] hprepare hwords hdrained
  refine ⟨p, d, hprepare, hdrained, htakes, ?_, ?_⟩
  · have hbyte := hall d htakes .a 0
    rw [hfound, hblocks] at hbyte
    refine (hbyte ⟨_, List.mem_cons_of_mem _ List.mem_cons_self, by decide +kernel⟩).2.2 _
      ⟨by decide +kernel, [_], [], rfl, by decide +kernel, by decide +kernel⟩ _ List.mem_cons_self
      (by decide +kernel)
  · have hbyte := hall d htakes .a 4
    rw [hfound, hblocks] at hbyte
    refine (hbyte ⟨_, List.mem_cons_self, by decide +kernel⟩).2.2 _
      ⟨by decide +kernel, [], [_], rfl, by decide +kernel, by decide +kernel⟩ _
      (List.mem_cons_of_mem _ List.mem_cons_self) (by decide +kernel)

/-- A later block need not stay. At ROM address 4 the last block of the file has `15`, and the block
that begins there has `01`. -/
theorem later_block_covered :
    let file := fileOf nestedBlocks
    let old := (Device.new {} (.fresh (fun _ => true) true) { manual := true }).run [.configure]
    ∃ p, prepare file = .ok p ∧
      (∀ b ∈ dataBlocks file, 4 ∣ b.bytes.size ∧ 4 ∣ b.romOffset.toNat) ∧
      old.endpoint.Drained ∧ (∃ d, old.TakesAll (Host.ofPrepared p).initialUploads d) ∧
      ∀ d, old.TakesAll (Host.ofPrepared p).initialUploads d →
        ∃ before b after, dataBlocks file = before ++ b :: after ∧ b.Covers .a 4 ∧
          (∀ c ∈ after, ¬ c.Covers .a 4) ∧ ∃ o ∈ p.blocks, o.Covers .a 4 ∧
            d.samples.byte (o.offset + (4 - o.romOffset)) ≠
              peek b.bytes (4 - b.romOffset.toNat) := by
  intro file old
  obtain ⟨p, hprepare, hblocks, hfound⟩ := prepare_nestedBlocks
  obtain ⟨start, loop, commands, banks, hmade⟩ := made_of_prepare hprepare
  have hready : old.Ready := ⟨Device.inStep_run _ _ _ _, ⟨rfl, rfl, rfl, rfl⟩⟩
  refine ⟨p, hprepare, ?_, hready.drained,
    Device.exists_takesAll hready hmade.fits_initialUploads, fun d htakes => ?_⟩
  · rw [hfound]
    decide +kernel
  · have hleaves : Leaves p.blocks .a 4 1 := by
      rw [hblocks]
      exact ⟨[_], _, [], rfl, ⟨by decide +kernel, by decide +kernel⟩,
        fun ⟨c, hc, _⟩ => absurd hc List.not_mem_nil⟩
    have hmem : (⟨.a, 4, 4, 0x1000, ⟨#[4, 3, 2, 1]⟩⟩ : SampleBlock) ∈ p.blocks :=
      hblocks ▸ List.mem_cons_of_mem _ List.mem_cons_self
    have hbyte := hmade.byte_of_leaves hready htakes hleaves hmem (by decide +kernel)
    refine ⟨[_], _, [], hfound, by decide +kernel, fun c hc => absurd hc List.not_mem_nil,
      _, hmem, by decide +kernel, ?_⟩
    rw [hbyte]
    decide +kernel

end Preparation
end ChipReplay
