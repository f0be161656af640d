import ChipReplay.Proofs.Preparation.Passes
/-!
# What the walk over a file passes

The commands of a file stand behind each other: what is in front of one ends where it begins or
before that, and what is behind it begins where it ends (`Walk.around`). For a data block this says
how much is passed over: all that its size field counts, and at least the two ROM fields
(`blocks_skipped`). A size too small for the fields is therefore not followed, and the walk goes on
inside the commands behind the block (`small_block_overrun`).
-/

namespace ChipReplay

open Bytes

variable {file : ByteArray} {i : Nat} {commands : List Located}

namespace Walk

/-- A walk begins with the command at its offset, or is over at the end of the file. -/
theorem begins (h : Walk file i commands) :
    commands.head?.map Located.offset = some i ∧ i < file.size ∨
      commands = [] ∧ file.size ≤ i := by
  cases h with
  | stop hend => exact .inr ⟨rfl, hend⟩
  | last hcommand hend => exact .inl ⟨rfl, hcommand.lt_size⟩
  | next hcommand hend hrest => exact .inl ⟨rfl, hcommand.lt_size⟩

theorem le_offset (h : Walk file i commands) : ∀ c ∈ commands, i ≤ c.offset := by
  induction h with
  | stop hend => exact fun c hc => absurd hc List.not_mem_nil
  | last hcommand hend => exact List.forall_mem_singleton.mpr (Nat.le_refl _)
  | next hcommand hend hrest ih =>
    refine List.forall_mem_cons.mpr ⟨Nat.le_refl _, fun c hc => ?_⟩
    exact Nat.le_of_add_right_le (ih c hc)

/-- The first command of a walk stands at its offset, and the rest is the walk from where it ends,
or nothing if it ends the stream. -/
theorem uncons {c : Located} (h : Walk file i (c :: commands)) :
    c.offset = i ∧ c.command.At file i ∧
      (if c.command.isEnd then commands = [] else Walk file (i + c.command.length) commands) := by
  cases h with
  | last hcommand hend => exact ⟨rfl, hcommand, if_pos hend ▸ rfl⟩
  | next hcommand hend hrest => exact ⟨rfl, hcommand, by rwa [if_neg (by simp [hend])]⟩

/-- The commands before one of a walk end where it begins or earlier. Those behind it are the walk
from where it ends, or none if it ends the stream. -/
theorem around {before after : List Located} {c : Located}
    (h : Walk file i (before ++ c :: after)) :
    (∀ b ∈ before, b.offset + b.command.length ≤ c.offset) ∧
      (if c.command.isEnd then after = []
        else Walk file (c.offset + c.command.length) after) := by
  induction before generalizing i with
  | nil =>
    obtain ⟨rfl, -, hafter⟩ := h.uncons
    exact ⟨fun b hb => absurd hb List.not_mem_nil, hafter⟩
  | cons b rest ih =>
    obtain ⟨rfl, -, hrest⟩ := h.uncons
    split at hrest
    · exact absurd hrest (List.append_ne_nil_of_right_ne_nil _ (List.cons_ne_nil _ _))
    · obtain ⟨hbefore, hafter⟩ := ih hrest
      have hle := hrest.le_offset c (List.mem_append_right rest List.mem_cons_self)
      exact ⟨List.forall_mem_cons.mpr ⟨hle, hbefore⟩, hafter⟩

end Walk

/-- How long the data block at `i` is for the walk. A size too small for the two ROM fields counts
as theirs. -/
theorem DataBlock.At.length_eq {b : DataBlock} (h : b.At file i) :
    (Command.block b).length =
      if 8 ≤ (wordAt file (i + 3)).toNat then 7 + (wordAt file (i + 3)).toNat else 15 := by
  have hsize := h.size
  unfold Command.blockFieldsSize at hsize
  show Command.blockHeaderSize + b.bytes.size = _
  unfold Command.blockHeaderSize
  split_ifs <;> omega

/-- Only a data block begins with a data block's first byte. -/
theorem Command.At.exists_block {c : Command} (h : c.At file i) (hcode : peek file i = 0x67) :
    ∃ b, c = .block b ∧ b.At file i := by
  cases h with
  | write port hother hfits =>
    rw [hother] at hcode
    cases port <;> exact absurd hcode (by decide)
  | wait hother hfits => exact absurd (hother.symm.trans hcode) (by decide)
  | pause samples hother hfits => exact absurd hcode (Stream.pause_byte_ne hother (by simp))
  | endOfStream hother hfits => exact absurd (hother.symm.trans hcode) (by decide)
  | block b hother hblock => exact ⟨b, rfl, hblock⟩

namespace Preparation

variable {p : Prepared} {banks : BankMap}

/-- A prepared stream is a header with the file's commands behind it, as they are kept, whatever the
sizes of the data blocks say. -/
theorem kept_of_made {first loop : Nat} (h : Made file p first loop commands banks) :
    ∃ header : ByteArray, header.size = Stream.start file ∧
      p.data.data.toList = header.data.toList ++
        (commands.map Located.offset).flatMap (Stream.keptBytes file p.blocks) ∧
      wordAt p.data 0x1C = loopField (Stream.start file) loop commands := by
  obtain rfl := Stream.start_eq h.startOf_eq
  have hstart := Stream.le_start file
  have hfits := h.fits
  have hheader : (file.extract 0 (Stream.start file)).size = Stream.start file := by
    rw [ByteArray.size_extract]
    omega
  obtain ⟨header, hsealed, hsize, -⟩ := sealHeader_append
    (show 0x20 ≤ (file.extract 0 (Stream.start file)).size by omega)
    (appendAll .empty (commands.map fun c => c.command.remap banks))
    (loopField (Stream.start file) loop commands)
  have hat := (walk_of_commandsFrom h.commandsFrom_eq).at
  have hdata := h.data_eq
  rw [appendAll_eq] at hdata
  refine ⟨header, hsize.trans hheader, ?_, ?_⟩
  · rw [hdata, hsealed, ByteArray.toList_data_append, toList_appendAll,
      Stream.flatMap_keptBytes h.placedBlocks.newBank?_eq hat]
    rfl
  · rw [hdata]
    refine wordAt_sealHeader ?_ _
    rw [ByteArray.size_append]
    omega

/-- How the walk over a file passes its data blocks. The commands that are read are the ones that
the prepared stream keeps, and for each data block among them, with `size` in its size field:

* if the size has room for the two ROM fields, the block ends `7 + size` bytes behind its first
  byte; otherwise it is taken for 15 bytes long;
* the commands before it end where it begins or earlier, those behind it begin where it ends or
  later, and the next one begins right there, unless that is the end of the file;
* what lies behind its fields, up to its end, are its samples. -/
theorem blocks_skipped (h : prepare file = .ok p) :
    ∃ commands, commandsFrom file (Stream.start file) = .ok commands ∧
      p.data.data.toList.drop (Stream.start file) =
        (commands.map Located.offset).flatMap (Stream.keptBytes file p.blocks) ∧
      ∀ before c after, commands = before ++ c :: after → peek file c.offset = 0x67 →
        let size := (wordAt file (c.offset + 3)).toNat
        let next := if 8 ≤ size then c.offset + 7 + size else c.offset + 15
        peek file (c.offset + 1) = 0x66 ∧ next ≤ file.size ∧
          (∀ d ∈ before, d.offset + d.command.length ≤ c.offset) ∧
          (∀ d ∈ after, next ≤ d.offset) ∧
          (after.head?.map Located.offset = some next ∨ after = [] ∧ file.size = next) ∧
          ∃ b, c.command = .block b ∧ b.bytes = file.extract (c.offset + 15) next := by
  obtain ⟨first, loop, commands, banks, hmade⟩ := made_of_prepare h
  obtain ⟨header, hsize, hdata, -⟩ := kept_of_made hmade
  have hcommands := hmade.commandsFrom_eq
  obtain rfl := Stream.start_eq hmade.startOf_eq
  refine ⟨commands, hcommands, ?_, ?_⟩
  · rw [hdata]
    exact List.drop_left' hsize
  · intro before c after hsplit hcode size next
    have hwalk := walk_of_commandsFrom hcommands
    have hat := hwalk.at c (hsplit ▸ List.mem_append_right before List.mem_cons_self)
    obtain ⟨b, hblock, hbat⟩ := hat.exists_block hcode
    rw [hsplit] at hwalk
    obtain ⟨hbefore, hafter⟩ := hwalk.around
    have hnext : c.offset + c.command.length = next := by
      rw [hblock, hbat.length_eq]
      show c.offset + (if 8 ≤ size then 7 + size else 15) =
        if 8 ≤ size then c.offset + 7 + size else c.offset + 15
      split_ifs <;> omega
    rw [hnext, hblock] at hafter
    replace hafter : Walk file next after := hafter
    have hfits : next ≤ file.size := hnext ▸ hat.fits
    refine ⟨hbat.marker, hfits, hbefore, hafter.le_offset, ?_, b, hblock, ?_⟩
    · obtain ⟨hhead, -⟩ | ⟨hnone, hend⟩ := hafter.begins
      · exact .inl hhead
      · exact .inr ⟨hnone, Nat.le_antisymm hend hfits⟩
    · have hstop : c.offset + Command.blockHeaderSize + b.bytes.size = next := by
        rw [← hnext, hblock]
        exact Nat.add_assoc _ _ _
      rw [← hstop]
      exact hbat.bytes

/-- Both data blocks have 10 in their size field: the one at `0x40` ends at `0x51`, where the other
one begins, and that one at `0x62`, where the first write is. -/
theorem blocks_skipped_twoRoms : ∃ p, prepare twoRoms = .ok p ∧
    ∃ commands, commandsFrom twoRoms (Stream.start twoRoms) = .ok commands ∧
      commands.map Located.offset = [0x40, 0x51, 0x62, 0x65, 0x68] ∧
      p.data.data.toList.drop 0x40 =
        [0x40, 0x51, 0x62, 0x65, 0x68].flatMap (Stream.keptBytes twoRoms p.blocks) ∧
      ((wordAt twoRoms 0x43).toNat = 10 ∧ peek twoRoms 0x41 = 0x66 ∧
        (∀ d ∈ commands.drop 1, 0x51 ≤ d.offset) ∧
        (commands.drop 1).head?.map Located.offset = some 0x51 ∧
        ∃ b, commands[0]?.map Located.command = some (.block b) ∧
          b.bytes = twoRoms.extract 0x4F 0x51) ∧
      (wordAt twoRoms 0x54).toNat = 10 ∧ peek twoRoms 0x52 = 0x66 ∧
        (∀ d ∈ commands.take 1, d.offset + d.command.length ≤ 0x51) ∧
        (∀ d ∈ commands.drop 2, 0x62 ≤ d.offset) ∧
        (commands.drop 2).head?.map Located.offset = some 0x62 ∧
        ∃ b, commands[1]?.map Located.command = some (.block b) ∧
          b.bytes = twoRoms.extract 0x60 0x62 := by
  obtain ⟨p, hprepare, -, hmade⟩ := prepare_twoRoms
  obtain ⟨commands, hcommands, hkept, hblocks⟩ := blocks_skipped hprepare
  have hstart : 0x40 = Stream.start twoRoms := Stream.start_eq hmade.startOf_eq
  have hread : commandsFrom twoRoms (Stream.start twoRoms) = .ok twoRomsCommands := by
    rw [← hstart]
    exact hmade.commandsFrom_eq
  obtain rfl := Except.ok.inj (hcommands.symm.trans hread)
  rw [← hstart] at hkept
  have hfirst : (wordAt twoRoms 0x43).toNat = 10 := by decide +kernel
  have hsecond : (wordAt twoRoms 0x54).toNat = 10 := by decide +kernel
  obtain ⟨hmarker, -, -, hbehind, hnext, b, hb, hbytes⟩ := hblocks [] _ _ rfl (by decide +kernel)
  obtain ⟨hmarker', -, hbefore, hbehind', hnext', b', hb', hbytes'⟩ :=
    hblocks [_] _ _ rfl (by decide +kernel)
  dsimp only at hbehind hnext hbytes hbefore hbehind' hnext' hbytes'
  rw [hfirst] at hbehind hnext hbytes
  rw [hsecond] at hbehind' hnext' hbytes'
  exact ⟨p, hprepare, twoRomsCommands, hread, rfl, hkept,
    ⟨hfirst, hmarker, hbehind, hnext.resolve_right (nomatch ·.1), b, congrArg some hb,
      hbytes⟩,
    hsecond, hmarker', hbefore, hbehind', hnext'.resolve_right (nomatch ·.1), b',
    congrArg some hb', hbytes'⟩

/-! ## A block that is too small -/

/-- A file with a data block of size zero in front of eight waits. -/
def smallBlockFile : ByteArray :=
  ⟨#[0x56, 0x67, 0x6D, 0x20] ++ Array.replicate 60 0 ++
    #[0x67, 0x66, 0x82, 0, 0, 0, 0, 0x62, 0x62, 0x62, 0x62, 0x62, 0x62, 0x62, 0x62, 0x66]⟩

/-- What `smallBlockFile` is taken to hold behind its header. -/
def smallBlockCommands : List Located :=
  [⟨0x40, .block ⟨.a, 0x62626262, 0x62626262, .empty⟩⟩, ⟨0x4F, .endOfStream⟩]

/-- The waits right behind the block are read as its ROM fields, and the walk goes on behind
them. -/
theorem small_block_overrun : ∃ p, prepare smallBlockFile = .ok p ∧
    peek smallBlockFile 0x40 = 0x67 ∧ (wordAt smallBlockFile 0x43).toNat = 0 ∧
    Command.read smallBlockFile (0x40 + 7 + 0) = .ok (.pause 0x62 735) ∧
    commandsFrom smallBlockFile 0x40 = .ok smallBlockCommands ∧
    smallBlockCommands.map Located.offset = [0x40, 0x4F] ∧ p.stats.waitSamples = 0 := by
  have hcommands : commandsFrom smallBlockFile 0x40 = .ok smallBlockCommands := by decide +kernel
  have hplaced : placeBlocks (mergedBlocks (sampleBlocks smallBlockCommands)) = .ok ([], []) := by
    rw [mergedBlocks_of_sorted (by decide +kernel)]
    decide +kernel
  obtain ⟨p, hprepare, -, hmade⟩ := prepare_ok
    (show checkIdent smallBlockFile = .ok () by decide +kernel)
    (show startOf smallBlockFile = .ok 0x40 by decide +kernel)
    (show pointer smallBlockFile .loopOffset = .ok 0 by decide +kernel)
    (show 0x40 ≤ smallBlockFile.size by decide +kernel) hcommands hplaced
  have hread : Command.read smallBlockFile (0x40 + 7 + 0) = .ok (.pause 0x62 735) := by
    decide +kernel
  have hsamples : p.stats.waitSamples = 0 := by
    rw [hmade.stats_eq]
    rfl
  exact ⟨p, hprepare, by decide +kernel, by decide +kernel, hread, hcommands, rfl, hsamples⟩

end Preparation
end ChipReplay
