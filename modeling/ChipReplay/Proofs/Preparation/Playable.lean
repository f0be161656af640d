import ChipReplay.Proofs.Bytes.LittleEndian
import ChipReplay.Proofs.Player.Reading
import ChipReplay.Proofs.Preparation.Passes
import ChipReplay.Proofs.Vgm.Header
/-!
# What the player finds in a prepared stream

`Playable` is all that playing a stream through takes: a header that any window with the first bytes
of the stream has as well, a pass from the first command, and a pass from the place where the
player goes on. A prepared file is playable if it ends its stream and begins early enough
(`playable_of_prepare`).
-/

namespace ChipReplay

open Bytes

/-! ## Words of a header -/

/-- The file offset that the field points at, zero for none, by the word that stands there. -/
def HeaderField.target (f : HeaderField) (bytes : ByteArray) : UInt32 :=
  if wordAt bytes f.offset = 0 then 0
  else addSaturating (UInt32.ofNat f.offset) (wordAt bytes f.offset)

theorem HeaderField.resolve_eq {f : HeaderField} {bytes : ByteArray}
    (h : f.offset + 4 ≤ bytes.size) : f.resolve bytes = .ok (f.target bytes) := by
  have hread : f.read bytes = .ok (wordAt bytes f.offset) := by
    rw [read, word32At, if_pos h]
    rfl
  rw [resolve, hread]
  rfl

/-- A field that counts to `place` leads there, if that is no larger than a word. -/
theorem HeaderField.target_eq {f : HeaderField} {bytes : ByteArray} {place : Nat}
    (hword : wordAt bytes f.offset ≠ 0) (h : f.offset + (wordAt bytes f.offset).toNat = place)
    (hroom : place < 2 ^ 32) :
    f.target bytes = UInt32.ofNat place ∧ UInt32.ofNat place ≠ 0 := by
  have hplace : (UInt32.ofNat place).toNat = place := UInt32.toNat_ofNat_of_lt' hroom
  have hoffset : (UInt32.ofNat f.offset).toNat = f.offset :=
    UInt32.toNat_ofNat_of_lt' (show f.offset < 2 ^ 32 by omega)
  have hpos : (wordAt bytes f.offset).toNat ≠ 0 := by
    intro hzero
    exact hword (UInt32.toNat_inj.mp hzero)
  constructor
  · rw [target, if_neg hword, addSaturating, hoffset, if_pos (show _ < 0x100000000 by omega), ← h,
      UInt32.ofNat_add, UInt32.ofNat_toNat]
  · intro hzero
    rw [hzero] at hplace
    replace hplace : 0 = place := hplace
    omega

theorem HeaderField.target_congr {f : HeaderField} {a b : ByteArray}
    (h : wordAt a f.offset = wordAt b f.offset) : f.target a = f.target b := by
  rw [target, target, h]

/-- The first command stands where the header says. -/
theorem Stream.target_dataOffset {bytes : ByteArray} (hroom : Stream.start bytes < 2 ^ 32) :
    (if HeaderField.dataOffset.target bytes = 0 then UInt32.ofNat defaultDataOffset
      else HeaderField.dataOffset.target bytes) = UInt32.ofNat (Stream.start bytes) := by
  by_cases hzero : wordAt bytes 0x34 = 0
  · have htarget : HeaderField.dataOffset.target bytes = 0 := if_pos hzero
    rw [if_pos htarget, Stream.start, if_pos hzero]
    rfl
  · have hplace : 0x34 + (wordAt bytes 0x34).toNat = Stream.start bytes := by
      rw [Stream.start, if_neg hzero]
    obtain ⟨htarget, hne⟩ := HeaderField.target_eq (f := .dataOffset) hzero hplace hroom
    rw [htarget, if_neg hne]

/-- The header of a file that is long enough, and begins as VGM files do. -/
theorem Header.read_eq {bytes : ByteArray} (hsize : headerSize ≤ bytes.size)
    (hident : (bytes.extract 0 4).toList = vgmIdent) : ∃ header, Header.read bytes = .ok header ∧
      header.start = (if HeaderField.dataOffset.target bytes = 0 then
        UInt32.ofNat defaultDataOffset else HeaderField.dataOffset.target bytes) ∧
      header.loop = HeaderField.loopOffset.target bytes := by
  have hslice : slice bytes HeaderField.ident.offset 4 = .ok (bytes.extract 0 4) := by
    have hfits : HeaderField.ident.offset + 4 ≤ bytes.size :=
      Nat.le_trans HeaderField.ident.offset_le hsize
    rw [slice, if_pos hfits]
    rfl
  have hresolve (f : HeaderField) : f.resolve bytes = .ok (f.target bytes) :=
    HeaderField.resolve_eq (Nat.le_trans f.offset_le hsize)
  have hread (f : HeaderField) : f.read bytes = .ok (wordAt bytes f.offset) := by
    rw [HeaderField.read, word32At, if_pos (Nat.le_trans f.offset_le hsize)]
    rfl
  unfold Header.read
  simp only [hslice, hresolve, hread, hident, Except.mapError, bind, Except.bind]
  exact ⟨_, rfl, rfl, rfl⟩

/-! ## Playable streams -/

/-- The player finds in `stream` the commands `first`, and once these are played the commands
`later`, again and again. -/
structure Playable (stream : ByteArray) (start loop : UInt32) (first later : List Located) :
    Prop where
  /-- Refills are asked for below the end of the offsets. -/
  size_lt : stream.size + 0x8000 < 2 ^ 32
  header : ∀ w : Window, (∀ i < min stream.size linearEnd, w.byte i = peek stream i) →
    ∃ header, Player.readHeader w = .ok header ∧ header.start = start ∧ header.loop = loop
  first_pass : Pass stream start.toNat first
  later_pass : Pass stream (if loop = 0 then start else loop).toNat later
  suffix : later <:+ first

variable {file : ByteArray} {p : Prepared} {commands : List Located} {banks : BankMap}

theorem Pass.lt_size {stream : ByteArray} {i : Nat} (h : Pass stream i commands) :
    i < stream.size := by
  cases h with
  | last hcommand => exact hcommand.lt_size
  | next hcommand hend hblock hrest => exact hcommand.lt_size

/-! ## The header of a prepared stream -/

namespace Preparation

theorem ident_of_prepare (h : prepare file = .ok p) : (file.extract 0 4).toList = vgmIdent := by
  obtain ⟨_, hident, -⟩ := ok_of_bind h
  obtain ⟨ident, hslice, hident⟩ := ok_of_bind hident
  obtain ⟨-, rfl⟩ := slice_ok (ok_of_mapError hslice)
  obtain ⟨hident, -⟩ := ok_of_ite hident
  exact Decidable.not_not.mp hident

/-- The first command stands behind the whole field that says where it is: bytes of the field in
front of it would be zero, which no command is. -/
theorem le_start_of_walk (h : Walk file (Stream.start file) commands) (hne : commands ≠ []) :
    0x38 ≤ Stream.start file := by
  have hcommand : ∃ c : Command, c.At file (Stream.start file) := by
    cases h with
    | stop hend => exact absurd rfl hne
    | last hcommand hend => exact ⟨_, hcommand⟩
    | next hcommand hend hrest => exact ⟨_, hcommand⟩
  obtain ⟨c, hcommand⟩ := hcommand
  have hcode : peek file (Stream.start file) ≠ 0 := by
    intro hzero
    have hknown := Stream.known_at hcommand
    rw [hzero] at hknown
    revert hknown
    decide
  unfold Stream.start at hcode ⊢
  split
  · decide
  · next hword =>
    rw [if_neg hword] at hcode
    have hsum := toNat_word32 (peek file 0x34) (peek file 0x35) (peek file 0x36) (peek file 0x37)
    replace hsum : (wordAt file 0x34).toNat = _ := hsum
    have hpos : (wordAt file 0x34).toNat ≠ 0 := fun hzero => hword (UInt32.toNat_inj.mp hzero)
    apply Decidable.byContradiction
    intro hlow
    have hzero : (peek file 0x35).toNat = 0 ∧ (peek file 0x36).toNat = 0 ∧
        (peek file 0x37).toNat = 0 := by omega
    have hplace : 0x34 + (wordAt file 0x34).toNat = 0x35 ∨ 0x34 + (wordAt file 0x34).toNat = 0x36 ∨
        0x34 + (wordAt file 0x34).toNat = 0x37 := by omega
    obtain ⟨h1, h2, h3⟩ := hzero
    rcases hplace with hplace | hplace | hplace <;> rw [hplace] at hcode
    · exact hcode (UInt8.toNat_inj.mp h1)
    · exact hcode (UInt8.toNat_inj.mp h2)
    · exact hcode (UInt8.toNat_inj.mp h3)

/-- A prepared stream is no longer than its file. -/
theorem size_appendAll_le {i : Nat} (h : Walk file i commands) (hi : i ≤ file.size)
    (banks : BankMap) (out : ByteArray) :
    (appendAll out (commands.map fun c => c.command.remap banks)).size + i ≤
      out.size + file.size := by
  have hlength (c : Command) : c.encodedLength ≤ c.length := by
    cases c <;> simp [Command.encodedLength]
  induction h generalizing out with
  | stop hend =>
    show out.size + _ ≤ _
    omega
  | @last i c hcommand hend =>
    have hfits := hcommand.fits
    have hle := hlength c
    have hsize := Command.size_append out (c.remap banks)
    rw [Command.encodedLength_remap] at hsize
    show ((c.remap banks).append out).size + i ≤ _
    omega
  | @next i c rest hcommand hend hrest ih =>
    have hfits := hcommand.fits
    have hle := hlength c
    have hsize := Command.size_append out (c.remap banks)
    rw [Command.encodedLength_remap] at hsize
    have hrest := ih hfits ((c.remap banks).append out)
    show (appendAll ((c.remap banks).append out) _).size + i ≤ _
    omega

theorem le_of_loopPlace {loop place target : Nat}
    (h : loopPlace loop place commands = some target) : place ≤ target := by
  induction commands generalizing place with
  | nil => cases h
  | cons c rest ih =>
    unfold loopPlace at h
    split at h
    · exact Nat.le_of_eq (Option.some.inj h)
    · exact Nat.le_of_add_right_le (ih h)

/-- The first command of a prepared stream stands where that of the file did, behind a header that
is the file's but for three words. -/
theorem data_of_made {start loop : Nat} (h : Made file p start loop commands banks)
    (hstart : 0x38 ≤ start) : ∃ header : ByteArray, header.size = start ∧
      p.data = appendAll header (commands.map fun c => c.command.remap banks) ∧
      (∀ i < start, ¬ InSealed i → peek p.data i = peek file i) ∧
      wordAt p.data 0x1C = loopField start loop commands := by
  have hfits := h.fits
  have hsize : (file.extract 0 start).size = start := by
    rw [ByteArray.size_extract]
    omega
  have hlong : 0x20 ≤ (file.extract 0 start).size := by omega
  obtain ⟨header, hsealed, hheader, hkept, -⟩ := sealHeader_append hlong
    (appendAll .empty (commands.map fun c => c.command.remap banks))
    (loopField start loop commands)
  have hdata := h.data_eq
  have hwhole (body : ByteArray) : 0x20 ≤ (file.extract 0 start ++ body).size := by
    rw [ByteArray.size_append]
    omega
  rw [appendAll_eq] at hdata
  refine ⟨header, hheader.trans hsize, ?_, fun i hi hopen => ?_, ?_⟩
  · rw [appendAll_eq, hdata, hsealed]
  · rw [hdata, hsealed, peek_append, if_pos (by omega), hkept i hopen, peek_extract, Nat.zero_add,
      if_pos (by omega)]
  · rw [hdata]
    exact wordAt_sealHeader (hwhole _) _

/-- The loop field of a prepared stream leads to the place where the pass of the loop begins. -/
theorem later_of_made {start loop : Nat} {first : List Located}
    (hfield : wordAt p.data 0x1C = loopField start loop commands) (hstart : 0x38 ≤ start)
    (hsize : p.data.size < 2 ^ 32) (hfirst : Pass p.data start first)
    (hloops : ∀ loop place, loopPlace loop start commands = some place →
      ∃ later, later <:+ first ∧ Pass p.data place later) :
    let target := HeaderField.loopOffset.target p.data
    ∃ later, later <:+ first ∧ Pass p.data (if target = 0 then start else target.toNat) later := by
  intro target
  have hnone (hzero : wordAt p.data 0x1C = 0) :
      ∃ later, later <:+ first ∧
        Pass p.data (if target = 0 then start else target.toNat) later := by
    have htarget : target = 0 := if_pos hzero
    rw [if_pos htarget]
    exact ⟨first, List.suffix_refl first, hfirst⟩
  unfold loopField at hfield
  split at hfield
  · exact hnone hfield
  · split at hfield
    · next place hplace =>
      obtain ⟨later, hsuffix, hlater⟩ := hloops loop place hplace
      have hlow := le_of_loopPlace hplace
      have hhigh := hlater.lt_size
      have hword : (wordAt p.data 0x1C).toNat = place - 0x1C := by
        rw [hfield]
        exact UInt32.toNat_ofNat_of_lt' (show place - 0x1C < 2 ^ 32 by omega)
      have hne : wordAt p.data 0x1C ≠ 0 := by
        intro hzero
        rw [hzero] at hword
        replace hword : 0 = place - 0x1C := hword
        omega
      have hplace : 0x1C + (wordAt p.data 0x1C).toNat = place := by omega
      obtain ⟨htarget, htarget₀⟩ :=
        HeaderField.target_eq (f := .loopOffset) hne hplace (by omega)
      have hnat : (UInt32.ofNat place).toNat = place :=
        UInt32.toNat_ofNat_of_lt' (show place < 2 ^ 32 by omega)
      show ∃ later, later <:+ first ∧ Pass p.data
        (if HeaderField.loopOffset.target p.data = 0 then start
          else (HeaderField.loopOffset.target p.data).toNat) later
      rw [htarget, if_neg htarget₀, hnat]
      exact ⟨later, hsuffix, hlater⟩
    · exact hnone hfield

end Preparation

/-! ## Prepared files -/

open Preparation

/-- The window has the header of the prepared stream whose first bytes it holds. -/
theorem header_of_kept {w : Window} (hident : (file.extract 0 4).toList = vgmIdent)
    (hlong : 0x38 ≤ file.size) (hroom : Stream.start file < 2 ^ 32)
    (hkept : ∀ i < 0x38, ¬ InSealed i → w.byte i = peek file i) :
    ∃ header, Header.read w.bytes = .ok header ∧
      header.start = UInt32.ofNat (Stream.start file) ∧
      header.loop = HeaderField.loopOffset.target w.bytes := by
  have hwindow : headerSize ≤ w.bytes.size := by
    rw [w.size_eq]
    decide
  have hslice : w.bytes.extract 0 4 = file.extract 0 4 := by
    have hlong : 0x50 ≤ w.bytes.size := hwindow
    apply ext_peek
    · rw [ByteArray.size_extract, ByteArray.size_extract]
      omega
    · intro i hi
      rw [ByteArray.size_extract] at hi
      rw [peek_extract, peek_extract, Nat.zero_add, if_pos (by omega), if_pos (by omega)]
      exact hkept i (by omega) (by unfold InSealed; omega)
  have hword : wordAt w.bytes 0x34 = wordAt file 0x34 := by
    apply wordAt_congr
    intro j hj
    exact hkept (0x34 + j) (by omega) (by unfold InSealed; omega)
  obtain ⟨header, hread, hstart, hloop⟩ := Header.read_eq hwindow (hslice ▸ hident)
  refine ⟨header, hread, ?_, hloop⟩
  rw [hstart, HeaderField.target_congr (f := .dataOffset) hword]
  exact Stream.target_dataOffset hroom

/-- A playback can begin if the first command lies in the linear region. -/
theorem readHeader_of_kept {w : Window} (hident : (file.extract 0 4).toList = vgmIdent)
    (hlow : 0x38 ≤ Stream.start file) (hfits : Stream.start file ≤ file.size)
    (hsize : file.size < 2 ^ 32) (hlinear : Stream.start file < linearEnd)
    (hkept : ∀ i < Stream.start file, ¬ InSealed i → w.byte i = peek file i) :
    ∃ header, Player.readHeader w = .ok header ∧
      header.start = UInt32.ofNat (Stream.start file) ∧
      header.loop = HeaderField.loopOffset.target w.bytes := by
  have hroom : Stream.start file < 2 ^ 32 := by omega
  obtain ⟨header, hread, hheader, hloop⟩ := header_of_kept hident (by omega) hroom
    fun i hi => hkept i (by omega)
  have hnat : header.start.toNat < linearEnd := by
    rw [hheader]
    rwa [UInt32.toNat_ofNat_of_lt' hroom]
  refine ⟨header, ?_, hheader, hloop⟩
  rw [Player.readHeader, hread]
  exact if_neg (Nat.not_le.mpr hnat)

/-- A prepared file is playable from where its commands begin, if it ends its stream and its first
command lies early enough. -/
theorem playable_from_start (h : prepare file = .ok p) (hend : p.stats.endOfStream = true)
    (hsize : file.size + 0x8000 < 2 ^ 32) (hstart : Stream.start file < linearEnd) :
    ∃ loop first later,
      Playable p.data (UInt32.ofNat (Stream.start file)) loop first later ∧
      HeaderField.loopOffset.resolve p.data = .ok loop ∧
      samplesIn first = p.stats.waitSamples ∧
      writesIn first = p.stats.portAWrites + p.stats.portBWrites := by
  have hident := ident_of_prepare h
  obtain ⟨start, loop, commands, banks, hmade⟩ := made_of_prepare h
  obtain rfl := Stream.start_eq hmade.startOf_eq
  have hwalk := walk_of_commandsFrom hmade.commandsFrom_eq
  -- the counts of the file are those of the pass, and say that it has an end
  obtain ⟨hsamples, hwrites, hlast⟩ := CommandStats.foldl_totals commands {}
  have hends : ∃ c ∈ commands, c.command.isEnd = true := by
    rw [hmade.stats_eq] at hend
    exact List.any_eq_true.mp (hlast.symm.trans hend)
  have hne : commands ≠ [] := by
    rintro rfl
    obtain ⟨c, hc, -⟩ := hends
    cases hc
  have hlow := le_start_of_walk hwalk hne
  obtain ⟨header, hheader, hdata, hkept, hfield⟩ := data_of_made hmade hlow
  have hbound : p.data.size ≤ file.size := by
    have hle := size_appendAll_le hwalk hmade.fits banks header
    rw [← hdata] at hle
    omega
  obtain ⟨hfirst, hloops⟩ := pass_of_walk hwalk hends banks header
  rw [← hdata, hheader] at hfirst hloops
  obtain ⟨later, hsuffix, hlater⟩ := later_of_made hfield hlow (by omega) hfirst hloops
  obtain ⟨htotals, htotalw⟩ := totals_relocated banks (Stream.start file) commands
  have hnat : (UInt32.ofNat (Stream.start file)).toNat = Stream.start file :=
    UInt32.toNat_ofNat_of_lt' (show Stream.start file < 2 ^ 32 by have := hmade.fits; omega)
  refine ⟨HeaderField.loopOffset.target p.data, _, later,
    { size_lt := by omega, header := ?_, first_pass := ?_, later_pass := ?_, suffix := hsuffix },
    ?_, ?_, ?_⟩
  · intro w hlinear
    have hlong := hfirst.lt_size
    have hshown : ∀ i < Stream.start file, w.byte i = peek p.data i := by
      intro i hi
      exact hlinear i (by omega)
    obtain ⟨header, hread, hheader, hloop⟩ := readHeader_of_kept hident hlow hmade.fits (by omega)
      hstart fun i hi hopen => (hshown i hi).trans (hkept i hi hopen)
    have hword : wordAt w.bytes 0x1C = wordAt p.data 0x1C := by
      apply wordAt_congr
      intro j hj
      exact hshown (0x1C + j) (by omega)
    exact ⟨header, hread, hheader, hloop.trans (HeaderField.target_congr (f := .loopOffset) hword)⟩
  · rw [hnat]
    exact hfirst
  · split
    · next hzero =>
      rw [if_pos hzero] at hlater
      rw [hnat]
      exact hlater
    · next hzero =>
      rw [if_neg hzero] at hlater
      exact hlater
  · have hlong := hfirst.lt_size
    exact HeaderField.resolve_eq (show 0x1C + 4 ≤ p.data.size by omega)
  · rw [htotals, hmade.stats_eq]
    exact ((Nat.zero_add _).symm.trans hsamples.symm)
  · rw [htotalw, hmade.stats_eq]
    exact ((Nat.zero_add _).symm.trans hwrites.symm)

/-- A prepared file is playable if it ends its stream and its first command lies early enough. -/
theorem playable_of_prepare (h : prepare file = .ok p) (hend : p.stats.endOfStream = true)
    (hsize : file.size + 0x8000 < 2 ^ 32) (hstart : Stream.start file < linearEnd) :
    ∃ start loop first later, Playable p.data start loop first later ∧
      HeaderField.loopOffset.resolve p.data = .ok loop ∧
      samplesIn first = p.stats.waitSamples ∧
      writesIn first = p.stats.portAWrites + p.stats.portBWrites :=
  ⟨_, playable_from_start h hend hsize hstart⟩

end ChipReplay
