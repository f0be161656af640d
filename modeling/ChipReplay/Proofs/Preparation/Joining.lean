import Mathlib.Data.List.Chain
import ChipReplay.Proofs.Preparation.Addresses
import ChipReplay.Proofs.Preparation.Guarded
/-!
# What joining blocks keeps

Joining takes the list of blocks apart at other places and does nothing else (`merge_joins`): in the
same order there are the same bytes, each at its address in its ROM. It joins wherever it can, and
every join takes one block away, which is what a prepared file counts (`mergedBlocks_eq_joins`).
All of it is said along `mergeOnto`, whose last block grows while the next ones are compared with
it; what carries the proofs is that a block that grows still begins where it did.
-/

namespace ChipReplay

open Bytes Preparation

namespace SampleBlock

variable {last next : SampleBlock} {bs rest : List SampleBlock}

/-- The bytes of a block in order, each with its ROM and its address there. -/
def romBytes (b : SampleBlock) : List (SampleKind × Nat × UInt8) :=
  (List.range b.data.size).map fun i => (b.kind, b.romOffset + i, peek b.data i)

/-- How many of the blocks are joined to the one before; `last` is the block before those of the
list. -/
def joinsOnto (last : SampleBlock) : List SampleBlock → Nat
  | [] => 0
  | next :: rest =>
    if last.continues next then joinsOnto (last.append next) rest + 1 else joinsOnto next rest

/-- How many of the blocks are joined to the one before. -/
def joins : List SampleBlock → Nat
  | [] => 0
  | first :: rest => joinsOnto first rest

/-! ## Bytes -/

/-- The bytes of a block that continues another follow on those of the other. -/
theorem romBytes_append (h : last.continues next = true) :
    (last.append next).romBytes = last.romBytes ++ next.romBytes := by
  obtain ⟨hkind, hstop⟩ := continues_iff.mp h
  have hsize : (last.append next).data.size = last.data.size + next.data.size :=
    ByteArray.size_append
  unfold romBytes
  rw [hsize, List.range_add, List.map_append, List.map_map]
  congr 1
  · refine List.map_congr_left fun i hi => ?_
    have hbyte : peek (last.append next).data i = peek last.data i := by
      rw [show (last.append next).data = last.data ++ next.data from rfl, peek_append,
        if_pos (List.mem_range.mp hi)]
    rw [hbyte]
    rfl
  · refine List.map_congr_left fun i _ => ?_
    have hbyte : peek (last.append next).data (last.data.size + i) = peek next.data i := by
      rw [show (last.append next).data = last.data ++ next.data from rfl, peek_append,
        if_neg (by omega), Nat.add_sub_cancel_left]
    have haddress : last.romOffset + (last.data.size + i) = next.romOffset + i := by
      rw [← hstop, romStop, Nat.add_assoc]
    rw [← hkind, ← haddress, ← hbyte]
    rfl

theorem romBytes_mergeOnto :
    (mergeOnto last rest).flatMap romBytes = (last :: rest).flatMap romBytes := by
  induction rest generalizing last with
  | nil => rfl
  | cons next rest ih =>
    by_cases hjoin : last.continues next = true
    · rw [mergeOnto_of_continues hjoin, ih, List.flatMap_cons, romBytes_append hjoin,
        List.flatMap_cons, List.flatMap_cons, List.append_assoc]
    · rw [mergeOnto_of_apart hjoin, List.flatMap_cons, ih]
      rfl

/-! ## Counting -/

/-- Every join takes one block away. -/
theorem length_mergeOnto :
    (mergeOnto last rest).length + joinsOnto last rest = (last :: rest).length := by
  induction rest generalizing last with
  | nil => rfl
  | cons next rest ih =>
    by_cases hjoin : last.continues next = true
    · have hrest : (mergeOnto (last.append next) rest).length + joinsOnto (last.append next) rest =
          (last.append next :: rest).length := ih
      rw [mergeOnto_of_continues hjoin, joinsOnto, if_pos hjoin, ← Nat.add_assoc, hrest]
      rfl
    · have hrest : (mergeOnto next rest).length + joinsOnto next rest = (next :: rest).length := ih
      rw [mergeOnto_of_apart hjoin, joinsOnto, if_neg hjoin, List.length_cons, List.length_cons]
      omega

/-! ## Blocks that are left apart -/

/-- The first block begins where `last` does, however many were joined to it. -/
theorem head_mergeOnto (last : SampleBlock) (rest : List SampleBlock) :
    ∃ first others, mergeOnto last rest = first :: others ∧ first.place = last.place := by
  induction rest generalizing last with
  | nil => exact ⟨last, [], rfl, rfl⟩
  | cons next rest ih =>
    by_cases hjoin : last.continues next = true
    · rw [mergeOnto_of_continues hjoin]
      exact ih (last.append next)
    · rw [mergeOnto_of_apart hjoin]
      exact ⟨last, _, rfl, rfl⟩

/-- Whether a block continues another depends on where it begins. -/
theorem continues_congr {b c d : SampleBlock} (h : c.place = d.place) :
    b.continues c = b.continues d := by
  have hkind : c.kind = d.kind := congrArg Prod.fst h
  have hoffset : c.romOffset = d.romOffset := congrArg Prod.snd h
  rw [continues, continues, hkind, hoffset]

theorem isChain_mergeOnto :
    (mergeOnto last rest).IsChain fun b c => ¬ b.continues c = true := by
  induction rest generalizing last with
  | nil => exact List.isChain_singleton _
  | cons next rest ih =>
    by_cases hjoin : last.continues next = true
    · rw [mergeOnto_of_continues hjoin]
      exact ih
    · have hchain : (mergeOnto next rest).IsChain fun b c => ¬ b.continues c = true := ih
      obtain ⟨first, others, hmerged, hplace⟩ := head_mergeOnto next rest
      rw [mergeOnto_of_apart hjoin, hmerged]
      rw [hmerged] at hchain
      refine List.isChain_cons_cons.mpr ⟨?_, hchain⟩
      rwa [continues_congr hplace]

end SampleBlock

open SampleBlock

/-- The blocks of `bs` joined as `merge` joins them, with the end of a block computed in 32-bit
words. -/
def Guarded.merge : List SampleBlock → Except Halt (List SampleBlock)
  | [] => return []
  | first :: rest => Guarded.mergeOnto first rest

/-- What a prepared file counts as joined are the joins that were made. -/
theorem mergedBlocks_eq_joins {file : ByteArray} {p : Prepared} (h : prepare file = .ok p) :
    ∃ start commands, startOf file = .ok start ∧ commandsFrom file start = .ok commands ∧
      p.stats.mergedBlocks = joins ((sampleBlocks commands).mergeSort precedes) := by
  obtain ⟨start, loop, commands, banks, hmade⟩ := made_of_prepare h
  refine ⟨start, commands, hmade.startOf_eq, hmade.commandsFrom_eq, ?_⟩
  have hlength : ((sampleBlocks commands).mergeSort precedes).length =
      (sampleBlocks commands).length := List.length_mergeSort _
  rw [hmade.stats_eq]
  show (sampleBlocks commands).length - (mergedBlocks (sampleBlocks commands)).length = _
  rw [← hlength, mergedBlocks]
  cases (sampleBlocks commands).mergeSort precedes with
  | nil => rfl
  | cons first rest =>
    have hjoined : (SampleBlock.mergeOnto first rest).length + joinsOnto first rest =
        (first :: rest).length := length_mergeOnto
    show (first :: rest).length - (SampleBlock.mergeOnto first rest).length = joinsOnto first rest
    omega

/-- Joining blocks keeps the sequence of their bytes with their addresses, takes away one block with
every join, leaves no two neighbours of which one continues the other, and keeps blocks in order.
The ends that it compares are 32-bit words all along. -/
theorem merge_joins {bs : List SampleBlock} (h : ∀ b ∈ bs, b.romOffset + b.data.size < 2 ^ 32) :
    (merge bs).flatMap romBytes = bs.flatMap romBytes ∧
    (merge bs).length + joins bs = bs.length ∧
    ((merge bs).IsChain fun b c => ¬ (b.kind = c.kind ∧ b.romOffset + b.data.size = c.romOffset)) ∧
    (Sorted bs → Sorted (merge bs)) ∧
    Guarded.merge bs = .ok (merge bs) := by
  cases bs with
  | nil => exact ⟨rfl, rfl, List.isChain_nil, fun hsorted => hsorted, rfl⟩
  | cons first rest =>
    obtain ⟨hfirst, hrest⟩ := List.forall_mem_cons.mp h
    refine ⟨romBytes_mergeOnto, length_mergeOnto, ?_, List.Pairwise.sublist place_mergeOnto,
      Guarded.mergeOnto_eq hfirst hrest⟩
    exact isChain_mergeOnto.imp fun b c hapart hjoin => hapart (continues_iff.mpr hjoin)

/-- A block, one that continues it, one that begins inside that, two that begin together, and one of
the other kind. -/
def mixedBlocks : List SampleBlock :=
  [⟨.a, 0, 0, 0x100, ⟨#[1, 2]⟩⟩, ⟨.a, 2, 2, 0x100, ⟨#[3, 4, 5]⟩⟩, ⟨.a, 4, 4, 0x100, ⟨#[6]⟩⟩,
    ⟨.a, 5, 5, 0x100, ⟨#[7]⟩⟩, ⟨.a, 5, 5, 0x100, ⟨#[8]⟩⟩, ⟨.b, 6, 6, 0x100, ⟨#[9]⟩⟩]

theorem merge_joins_mixedBlocks :
    (∀ b ∈ mixedBlocks, b.romOffset + b.data.size < 2 ^ 32) ∧ Sorted mixedBlocks ∧
    merge mixedBlocks = [⟨.a, 0, 0, 0x100, ⟨#[1, 2, 3, 4, 5]⟩⟩, ⟨.a, 4, 4, 0x100, ⟨#[6, 7]⟩⟩,
      ⟨.a, 5, 5, 0x100, ⟨#[8]⟩⟩, ⟨.b, 6, 6, 0x100, ⟨#[9]⟩⟩] ∧
    (merge mixedBlocks).flatMap romBytes = mixedBlocks.flatMap romBytes ∧
    (merge mixedBlocks).length + joins mixedBlocks = mixedBlocks.length ∧
    ((merge mixedBlocks).IsChain
      fun b c => ¬ (b.kind = c.kind ∧ b.romOffset + b.data.size = c.romOffset)) ∧
    Sorted (merge mixedBlocks) ∧ Guarded.merge mixedBlocks = .ok (merge mixedBlocks) := by
  have hword : ∀ b ∈ mixedBlocks, b.romOffset + b.data.size < 2 ^ 32 := by decide +kernel
  have hsorted : Sorted mixedBlocks := by decide +kernel
  obtain ⟨hbytes, hlength, hapart, hkeep, hguarded⟩ := merge_joins hword
  exact ⟨hword, hsorted, by decide +kernel, hbytes, hlength, hapart, hkeep hsorted, hguarded⟩

end ChipReplay
