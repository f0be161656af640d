import ChipReplay.Proofs.Bytes.LittleEndian
import ChipReplay.Proofs.Preparation.Looping
import ChipReplay.Proofs.Preparation.Unended
/-!
# Preparing a prepared file

A prepared file is a file again, and one that preparation leaves as it is (`prepare_prepared`).
Three things make that so: its commands are read back where they were written, there is no data
block among them and therefore no bank to adapt, and the three words of its header are the ones that
would be written once more. The loop offset is the word to look at: it points at a command now, and
a command that is read at some place stays at that place.
-/

namespace ChipReplay

open Bytes

/-! ## Words that are written back -/

namespace Preparation

/-- A header that has its three words keeps them. -/
theorem sealHeader_eq_self {data : ByteArray} {loop : UInt32} (h : 0x20 ≤ data.size)
    (hloop : wordAt data 0x1C = loop) (hgd3 : wordAt data 0x14 = 0)
    (heof : wordAt data 0x04 = UInt32.ofNat (data.size - 4)) : sealHeader data loop = data := by
  have hput {f : HeaderField} (hfits : f.offset + 4 ≤ data.size) :
      putField data f (wordAt data f.offset) = data := by
    rw [putField, put32?, if_pos hfits, Option.getD_some, overwrite_wordAt hfits]
  have hputLoop : putField data .loopOffset loop = data := by
    rw [← hloop]
    exact hput (f := .loopOffset) (show 0x1C + 4 ≤ data.size by omega)
  have hputGd3 : putField data .gd3Offset 0 = data := by
    rw [← hgd3]
    exact hput (f := .gd3Offset) (show 0x14 + 4 ≤ data.size by omega)
  have hputEof : putField data .eofOffset (UInt32.ofNat (data.size - 4)) = data := by
    rw [← heof]
    exact hput (f := .eofOffset) (show 0x04 + 4 ≤ data.size by omega)
  unfold sealHeader
  dsimp only
  rw [hputLoop, hputGd3]
  exact hputEof

end Preparation

/-! ## Commands that are read back -/

variable {file stream : ByteArray} {i place : Nat} {commands : List Located} {banks : BankMap}

theorem Pass.block?_eq_none (h : Pass stream i commands) :
    ∀ c ∈ commands, c.command.block? = none := by
  induction h with
  | last hcommand => exact List.forall_mem_singleton.mpr rfl
  | next hcommand hend hblock hrest ih => exact List.forall_mem_cons.mpr ⟨hblock, ih⟩

namespace Preparation

/-- In a prepared stream a command is where it is looked for. -/
theorem loopPlace_of_pass (h : Pass stream i commands) (hc : ∃ c ∈ commands, c.offset = place) :
    loopPlace place i commands = some place := by
  induction h with
  | last hcommand =>
    obtain ⟨c, hc, rfl⟩ := hc
    rw [List.mem_singleton.mp hc]
    exact if_pos rfl
  | @next i c rest hcommand hend hblock hrest ih =>
    rw [loopPlace]
    split
    · next heq => exact congrArg some heq
    · next hne =>
      rw [Command.encodedLength_eq hblock]
      apply ih
      obtain ⟨d, hd, hplace⟩ := hc
      rcases List.mem_cons.mp hd with rfl | hd
      · exact absurd hplace hne
      · exact ⟨d, hd, hplace⟩

/-- Data blocks leave no trace, so leaving them out leaves none either. -/
theorem appendAll_relocated (banks : BankMap) (place : Nat) (commands : List Located)
    (out : ByteArray) : appendAll out ((relocated banks place commands).map (·.command)) =
      appendAll out (commands.map fun c => c.command.remap banks) := by
  induction commands generalizing place out with
  | nil => rfl
  | cons c rest ih =>
    cases hblock : c.command.block? with
    | some b =>
      have hkept : (c.command.remap banks).append out = out := by
        cases hcommand : c.command with
        | block b => rfl
        | write | wait | pause | endOfStream =>
          rw [hcommand] at hblock
          cases hblock
      simp only [relocated, hblock]
      rw [ih, List.map_cons, appendAll, appendAll, List.foldl_cons, hkept]
    | none =>
      simp only [relocated, hblock, List.map_cons]
      exact ih _ _

end Preparation

/-! ## No banks -/

/-- Where no bank holds samples no command changes. -/
theorem Command.remap_nil (c : Command) : c.remap [] = c ∧ c.isRemapped [] = false := by
  cases c with
  | write port register data =>
    unfold remap isRemapped
    cases (Command.write port register data).bankKind? with
    | none => exact ⟨rfl, rfl⟩
    | some k => exact ⟨rfl, rfl⟩
  | wait | pause | endOfStream | block => exact ⟨rfl, rfl⟩

namespace CommandStats

/-- A count does not look at the data blocks counted before, and only a data block is one. -/
theorem count_withDataBlocks (s : CommandStats) (n : Nat) {c : Command} (h : c.block? = none) :
    ({ s with dataBlocks := n } : CommandStats).count c =
      { s.count c with dataBlocks := n } := by
  unfold count
  cases c with
  | write port register data =>
    cases (Command.write port register data).bankKind? <;> cases port <;> rfl
  | wait | pause | endOfStream => rfl
  | block b => cases h

/-- A prepared stream counts as its file does, but for the data blocks. -/
theorem foldl_count_relocated (banks : BankMap) (place n : Nat) (commands : List Located)
    (s : CommandStats) :
    (relocated banks place commands).foldl (fun s c => s.count c.command)
        { s with dataBlocks := n } =
      { commands.foldl (fun s c => s.count c.command) s with dataBlocks := n } := by
  induction commands generalizing place s with
  | nil => rfl
  | cons c rest ih =>
    cases hblock : c.command.block? with
    | some b =>
      have hcount : ({ s.count c.command with dataBlocks := n } : CommandStats) =
          { s with dataBlocks := n } := by
        cases hcommand : c.command with
        | block b => rfl
        | write | wait | pause | endOfStream =>
          rw [hcommand] at hblock
          cases hblock
      simp only [relocated, hblock, List.foldl_cons]
      rw [← ih, hcount]
    | none =>
      -- the data byte that remapping changes is not counted
      have hcount (t : CommandStats) : t.count (c.command.remap banks) = t.count c.command :=
        Command.remap_congr (fun port _ _ _ => by cases port <;> rfl) banks c.command
      simp only [relocated, hblock, List.foldl_cons]
      rw [hcount, count_withDataBlocks s n hblock, ih]

end CommandStats

namespace Preparation

variable {p : Prepared} {start loop : Nat}

/-- The counts of a stream without banks, if its commands are those of a file moved together. -/
theorem statsOf_relocated (banks : BankMap) (place merged : Nat) (commands : List Located) :
    statsOf (relocated banks place commands) 0 [] =
      { statsOf commands merged banks with
        dataBlocks := 0, mergedBlocks := 0, remappedBankWrites := 0 } := by
  have hremapped : ((relocated banks place commands).countP fun c => c.command.isRemapped []) = 0 :=
    List.countP_eq_zero.mpr fun c _ => by simp [(Command.remap_nil c.command).2]
  unfold statsOf
  rw [hremapped]
  have hfold := CommandStats.foldl_count_relocated banks place 0 commands {}
  rw [hfold]

/-- A stream without data blocks has no samples. -/
theorem blocks_of_pass (h : Pass stream i commands) :
    sampleBlocks commands = [] ∧ mergedBlocks (sampleBlocks commands) = [] := by
  have hnone : sampleBlocks commands = [] := by
    have hblocks : (commands.filterMap fun c => c.command.block?) = [] :=
      List.filterMap_eq_nil_iff.mpr h.block?_eq_none
    rw [sampleBlocks, hblocks, List.filterMap_nil]
  refine ⟨hnone, ?_⟩
  rw [hnone, mergedBlocks, List.mergeSort_nil]
  rfl

/-- The field that says where the commands begin leads to where they begin. -/
theorem startOf_eq (h : 0x38 ≤ file.size) : startOf file = .ok (Stream.start file) := by
  have hfits : HeaderField.dataOffset.offset + 4 ≤ file.size := h
  have hread : HeaderField.dataOffset.read file = .ok (wordAt file 0x34) := by
    rw [HeaderField.read, word32At, if_pos hfits]
    rfl
  unfold startOf pointer
  rw [hread, Stream.start]
  simp only [Except.mapError, bind, Except.bind, pure, Except.pure]
  by_cases hzero : wordAt file 0x34 = 0
  · rw [if_pos hzero, if_pos hzero]
    rfl
  · rw [if_neg hzero, if_neg hzero, HeaderField.offset, if_neg (by omega)]

/-- The loop word that a prepared stream would get is the one it has. -/
theorem loopField_of_made (h : Made file p start loop commands banks)
    (hend : ∃ c ∈ commands, c.command.isEnd = true)
    (hfirst : Pass p.data start (relocated banks start commands)) :
    loopField start (Stream.loopPoint p.data) (relocated banks start commands) =
      wordAt p.data 0x1C := by
  have hwalk := walk_of_commandsFrom h.commandsFrom_eq
  obtain ⟨-, -, -, hfield⟩ := kept_of_made h
  obtain rfl := Stream.start_eq h.startOf_eq
  obtain rfl := pointer_ok h.pointer_eq
  by_cases hfound : ∃ c ∈ commands, c.offset = Stream.loopPoint file
  · obtain ⟨c, hc, hoffset⟩ := hfound
    obtain ⟨before, after, rfl⟩ := List.append_of_mem hc
    obtain ⟨hpoint, hzero⟩ := loopPoint_of_made h hoffset
    have hne (b : Located) (hb : b ∈ before) : b.offset ≠ Stream.loopPoint file := by
      have hstop := hwalk.around.1 b hb
      have hpos := b.command.length_pos
      omega
    -- the loop of the prepared stream goes to the place of one of its commands
    have hplace : loopPlace (Stream.loopPoint file) (Stream.start file) (before ++ c :: after) =
        some (Stream.start file + (before.map (·.command.encodedLength)).sum) :=
      loopPlace_append hne hoffset
    obtain ⟨header, hheader, hdata, -⟩ := data_of_made h (le_start_of_made h)
    obtain ⟨-, hloops⟩ := pass_of_walk hwalk hend banks header
    rw [← hdata, hheader] at hloops
    obtain ⟨later, hsuffix, hlater⟩ := hloops _ _ hplace
    rw [← hpoint] at hlater
    have hmember : ∃ d ∈ relocated banks (Stream.start file) (before ++ c :: after),
        d.offset = Stream.loopPoint p.data := by
      cases hlater with
      | last hcommand => exact ⟨_, hsuffix.subset List.mem_cons_self, rfl⟩
      | next hcommand => exact ⟨_, hsuffix.subset List.mem_cons_self, rfl⟩
    have hlow := Stream.le_start file
    have hpast : Stream.loopPoint p.data ≠ 0 := by omega
    rw [loopField, if_neg hpast, loopPlace_of_pass hfirst hmember]
    have hword : Stream.loopPoint p.data = 0x1C + (wordAt p.data 0x1C).toNat := by
      rw [Stream.loopPoint, if_neg hzero]
    show UInt32.ofNat (Stream.loopPoint p.data - 0x1C) = wordAt p.data 0x1C
    rw [hword, Nat.add_sub_cancel_left, UInt32.ofNat_toNat]
  · have hnone : ∀ c ∈ commands, c.offset ≠ Stream.loopPoint file := by
      intro c hc heq
      exact hfound ⟨c, hc, heq⟩
    have hzero : wordAt p.data 0x1C = 0 := by
      rw [hfield, loopField, loopPlace_of_ne hnone]
      exact ite_self _
    have hpoint : Stream.loopPoint p.data = 0 := if_pos hzero
    rw [loopField, if_pos hpoint, hzero]

/-- The other two words of a prepared stream's header. -/
theorem sealedWords_of_made (h : Made file p start loop commands banks) :
    wordAt p.data 0x04 = UInt32.ofNat (p.data.size - 4) ∧ wordAt p.data 0x14 = 0 := by
  have hlow := le_start_of_made h
  have hfits := h.fits
  have hheader : (file.extract 0 start).size = start := by
    rw [ByteArray.size_extract]
    omega
  have hdata := h.data_eq
  rw [appendAll_eq] at hdata
  obtain ⟨sealed, hsealed, hsize, -, heof, hgd3⟩ := sealHeader_append
    (show 0x20 ≤ (file.extract 0 start).size by omega)
    (appendAll .empty (commands.map fun c => c.command.remap banks))
    (loopField start loop commands)
  rw [hsealed] at hdata
  have hwhole : p.data.size = (file.extract 0 start ++
      appendAll .empty (commands.map fun c => c.command.remap banks)).size := by
    rw [hdata, ByteArray.size_append, ByteArray.size_append, hsize]
  constructor
  · rw [hwhole, ← heof, hdata, wordAt_append (by omega)]
  · rw [hdata, wordAt_append (by omega), hgd3]

/-- A prepared stream is a VGM file, and its first command is where the file has its own. -/
theorem header_of_made (h : Made file p start loop commands banks)
    (hident : (file.extract 0 4).toList = vgmIdent) :
    checkIdent p.data = .ok () ∧ startOf p.data = .ok start := by
  have hlow := le_start_of_made h
  obtain ⟨-, -, -, hkept, -⟩ := data_of_made h hlow
  obtain ⟨hsize, -⟩ := size_of_made h
  have hfits := h.fits
  constructor
  · have hfront : p.data.extract 0 4 = file.extract 0 4 := by
      apply ext_peek
      · rw [ByteArray.size_extract, ByteArray.size_extract]
        omega
      · intro i hi
        rw [ByteArray.size_extract] at hi
        rw [peek_extract, peek_extract, Nat.zero_add, if_pos (by omega), if_pos (by omega)]
        exact hkept i (by omega) (by unfold InSealed; omega)
    have hslice : slice p.data HeaderField.ident.offset 4 = .ok (p.data.extract 0 4) := by
      have hfits : HeaderField.ident.offset + 4 ≤ p.data.size := by
        show 0 + 4 ≤ p.data.size
        omega
      rw [slice, if_pos hfits]
      rfl
    unfold checkIdent
    rw [hslice, hfront]
    exact if_neg (not_not.mpr hident)
  · have hword : wordAt p.data 0x34 = wordAt file 0x34 := by
      apply wordAt_congr
      intro j hj
      exact hkept (0x34 + j) (by omega) (by unfold InSealed; omega)
    have hstart := Stream.start_eq h.startOf_eq
    rw [startOf_eq (by omega), Stream.start, hword, hstart, Stream.start]

/-- Preparing a prepared file that ends its stream succeeds and gives the same data. It finds no
blocks, and counts what was counted before, but for the data blocks, those that were joined, and
the bank bytes that were replaced. -/
theorem prepare_prepared (h : prepare file = .ok p) (hend : p.stats.endOfStream = true) :
    prepare p.data = .ok {
      data := p.data
      blocks := []
      stats := { p.stats with dataBlocks := 0, mergedBlocks := 0, remappedBankWrites := 0 } } := by
  have hident := ident_of_prepare h
  obtain ⟨start, loop, commands, banks, hmade⟩ := made_of_prepare h
  have hwalk := walk_of_commandsFrom hmade.commandsFrom_eq
  have hends : ∃ c ∈ commands, c.command.isEnd = true := by
    obtain ⟨-, -, hlast⟩ := CommandStats.foldl_totals commands {}
    rw [hmade.stats_eq] at hend
    exact List.any_eq_true.mp (hlast.symm.trans hend)
  have hlow := le_start_of_made hmade
  obtain ⟨hsize, -⟩ := size_of_made hmade
  obtain ⟨header, hheader, hdata, -⟩ := data_of_made hmade hlow
  -- its commands are read back as they were written
  obtain ⟨hfirst, -⟩ := pass_of_walk hwalk hends banks header
  rw [← hdata, hheader] at hfirst
  obtain ⟨hnone, hmerged⟩ := blocks_of_pass hfirst
  have hplaced : placeBlocks (mergedBlocks (sampleBlocks (relocated banks start commands))) =
      .ok ([], []) := by
    rw [hmerged]
    rfl
  -- the header leads to them as it did before
  obtain ⟨hcheck, hstartOf⟩ := header_of_made hmade hident
  -- so preparing it succeeds, and what it gives is read off the same description
  obtain ⟨q, hprepare, hblocks, hagain⟩ := prepare_ok hcheck hstartOf
    (pointer_eq (show 0x20 ≤ p.data.size by omega)) hsize hfirst.commandsFrom_eq hplaced
  have hqdata : q.data = p.data := by
    have hsame : ((relocated banks start commands).map fun c => c.command.remap []) =
        (relocated banks start commands).map (·.command) :=
      List.map_congr_left fun c _ => (Command.remap_nil c.command).1
    have hextract : p.data.extract 0 start = header := by
      rw [hdata, appendAll_eq, ← hheader]
      exact ByteArray.extract_append_eq_left rfl
    obtain ⟨heof, hgd3⟩ := sealedWords_of_made hmade
    rw [hagain.data_eq, hextract, hsame, appendAll_relocated, ← hdata,
      loopField_of_made hmade hends hfirst]
    exact sealHeader_eq_self (by omega) rfl hgd3 heof
  have hqstats : q.stats = { p.stats with
      dataBlocks := 0, mergedBlocks := 0, remappedBankWrites := 0 } := by
    rw [hagain.stats_eq, hmerged, hnone, hmade.stats_eq]
    exact statsOf_relocated banks start _ commands
  rw [hprepare, ← hqdata, ← hqstats, ← hblocks]

theorem prepare_prepared_loopedFile : ∃ p, prepare loopedFile = .ok p ∧
    p.stats.endOfStream = true ∧ p.stats.dataBlocks = 1 ∧ p.stats.remappedBankWrites = 1 ∧
    prepare p.data = .ok {
      data := p.data
      blocks := []
      stats := { p.stats with dataBlocks := 0, mergedBlocks := 0, remappedBankWrites := 0 } } := by
  obtain ⟨p, hprepare, -, hmade⟩ := prepare_ok
    (show checkIdent loopedFile = .ok () by decide +kernel)
    (show startOf loopedFile = .ok 0x40 by decide +kernel)
    (show pointer loopedFile .loopOffset = .ok 0x41 by decide +kernel)
    (show 0x40 ≤ loopedFile.size by decide +kernel)
    (show commandsFrom loopedFile 0x40 = .ok loopedCommands by decide +kernel) placed_loopedFile
  have hend : p.stats.endOfStream = true := by
    rw [hmade.stats_eq]
    rfl
  refine ⟨p, hprepare, hend, ?_, ?_, prepare_prepared hprepare hend⟩
  · rw [hmade.stats_eq]
    rfl
  · rw [hmade.stats_eq]
    decide +kernel

end Preparation
end ChipReplay
