import ChipReplay.Proofs.Preparation.Playing
import ChipReplay.Proofs.Stream.Unended
/-!
# Files without an end

A file is accepted without a command that ends it. Its prepared stream is played through once, and
then the playback stops with an error as long as the stream does not reach far into the refilled
part of the window. A longer one meets what is left of an earlier part of the stream
(`unended_plays_once`).
-/

namespace ChipReplay

open Bytes
open ChipReplay.Stream (trailing prolonged size_prolonged peek_prolonged trailingError)

/-! ## The window at the start -/

/-- Behind the first bytes of the stream there are zeros. -/
theorem Window.byte_holding_of_le {stream : ByteArray} {i : Nat}
    (h : min stream.size linearEnd ≤ i) : (holding stream).byte i = 0 := by
  have houtside : ¬ (0 ≤ i ∧ i < 0 + (stream.extract 0 linearEnd).size) := by
    rw [ByteArray.size_extract]
    omega
  rw [holding, byte_put, if_neg houtside, byte_zero]

/-- The window cannot tell the stream from the prolonged one. -/
theorem Window.byte_holding_prolonged (stream : ByteArray) :
    ∀ i < min (prolonged stream).size linearEnd,
      (holding stream).byte i = peek (prolonged stream) i := by
  intro i hi
  rw [size_prolonged] at hi
  rw [peek_prolonged]
  split
  · next heq =>
    have hshort : ¬ linearEnd + 2 * regionSize ≤ stream.size := by omega
    rw [byte_holding_of_le (by omega), trailing, if_neg hshort]
  · next hne => exact byte_holding stream i (by omega)

/-- What the player asks for at the start keeps it that way. -/
theorem same_preload (stream : ByteArray) :
    (settled stream (.holding stream) (Player.preload (UInt32.ofNat linearEnd))).SameBeside
      (settled (prolonged stream) (.holding stream)
        (Player.preload (UInt32.ofNat linearEnd))) := by
  have hzero (i : Nat) (hi : linearEnd ≤ i) : (Window.holding stream).byte i = 0 :=
    Window.byte_holding_of_le (by omega)
  have hshort (h : ¬ linearEnd + 2 * regionSize ≤ stream.size) : trailing stream = 0 := by
    rw [trailing, if_neg h]
  have hsource : (UInt32.ofNat linearEnd + UInt32.ofNat regionSize).toNat =
      linearEnd + regionSize := by
    rw [toNat_add_regionSize (by rw [toNat_linearEnd]; decide), toNat_linearEnd]
  rw [Player.preload, settled_cons, settled_cons, settled_nil, settled_cons, settled_cons,
    settled_nil]
  apply Window.SameBeside.filled
  · apply Window.SameBeside.filled (fun i _ => rfl) (by decide)
    intro _ k hk hend
    rw [toNat_linearEnd] at hend
    rw [hzero _ (Nat.le_trans (by decide) (Nat.le_add_right _ _)), hshort (by omega)]
  · decide
  · intro _ k hk hend
    rw [hsource] at hend
    -- the refill of A does not reach into B
    have houtside : ¬ (Refill.ofRegion .a (UInt32.ofNat linearEnd)).Covers
        (Region.b.start + k) := by
      rw [Refill.covers_ofRegion (by decide)]
      show ¬ (0x14000 ≤ 0x16000 + k ∧ 0x16000 + k < 0x16000)
      omega
    rw [byte_filled_of_not_covers _ _ houtside,
      hzero _ (Nat.le_trans (by decide) (Nat.le_add_right _ _)), hshort (by omega)]

/-- A playback that begins has all of the stream ahead of it. -/
theorem Heading.start {stream : ByteArray} {commands : List Located} {header : Header}
    (hread : Player.readHeader (.holding stream) = .ok header)
    (hpass : OpenPass stream header.start.toNat commands) (p : Player) (chip : Recorder)
    (timer : Timer) :
    Heading stream commands (Playback.serveAll
      { stream, window := .holding stream, player := p.begun header, chip, timer }) [] := by
  have hfollows := Follows.start (Window.byte_holding_prolonged stream)
    (Player.begin_of_readHeader hread p) chip timer
  have hstart := (Player.readHeader_eq_ok hread).2
  have hrequests : (p.begun header).requests.toList = Player.preload (UInt32.ofNat linearEnd) := rfl
  have htrails : Trails stream (.holding stream) (.holding stream) (p.begun header) := by
    refine ⟨hfollows.ready rfl, ⟨nofun, fun _ => ?_, nofun⟩, ?_⟩
    · show header.start.toNat + (linearEnd - header.start.toNat) = linearEnd
      omega
    · rw [hrequests]
      exact same_preload stream
  exact .of_trails rfl hfollows.agrees htrails ⟨rfl, commands, hpass, rfl⟩

/-! ## Prepared files -/

open Preparation

/-- A file without an end makes a pass that goes up to the last byte of the prepared stream. -/
theorem openPass_of_walk {file : ByteArray} {i : Nat} {commands : List Located}
    (h : Walk file i commands) (hopen : ∀ c ∈ commands, c.command.isEnd = false)
    (banks : BankMap) (out : ByteArray) :
    OpenPass (appendAll out (commands.map fun c => c.command.remap banks)) out.size
      (relocated banks out.size commands) := by
  induction h generalizing out with
  | stop hsize => exact .done
  | @last i c hcommand hlast =>
    rw [hopen _ List.mem_cons_self] at hlast
    cases hlast
  | @next i c rest hcommand hmore hrest ih =>
    have hpass := ih (fun e he => hopen e (List.mem_cons_of_mem _ he)) ((c.remap banks).append out)
    rw [Command.size_append, Command.encodedLength_remap] at hpass
    show OpenPass (appendAll ((c.remap banks).append out) _) _ _
    cases hblock : c.block? with
    | some b =>
      have hlength : c.encodedLength = 0 := by
        cases c with
        | block b => rfl
        | write | wait | pause | endOfStream => cases hblock
      rw [hlength, Nat.add_zero] at hpass
      simp only [relocated, hblock]
      exact hpass
    | none =>
      have hat : (c.remap banks).At (appendAll ((c.remap banks).append out)
          (rest.map fun c => c.command.remap banks)) out.size := by
        rw [appendAll_eq]
        exact Command.at_appended hcommand hblock banks out _
      simp only [relocated, hblock]
      refine .next hat ?_ ?_ ?_
      · rw [Command.isEnd_remap, hmore]
      · rw [Command.block?_remap, hblock]
      · rw [Command.length_remap, ← Command.encodedLength_eq hblock]
        exact hpass

variable {file : ByteArray} {p : Prepared}

theorem le_size_of_startOf {start : Nat} (h : startOf file = .ok start) : 0x38 ≤ file.size := by
  obtain ⟨offset, hoffset, -⟩ := ok_of_bind h
  obtain ⟨relative, hrelative, -⟩ := ok_of_bind hoffset
  exact (word32At_ok (ok_of_mapError hrelative)).1

/-- The first command stands behind the field that says where it is, and so does the end of a file
without commands. -/
theorem le_start_of_made {start loop : Nat} {commands : List Located} {banks : BankMap}
    (h : Made file p start loop commands banks) : 0x38 ≤ start := by
  have hlong := le_size_of_startOf h.startOf_eq
  have hwalk := walk_of_commandsFrom h.commandsFrom_eq
  by_cases hne : commands = []
  · subst hne
    cases hwalk with
    | stop hend => omega
  · obtain rfl := Stream.start_eq h.startOf_eq
    exact le_start_of_walk hwalk hne

/-- A prepared stream is no longer than its file, and no shorter than its header. -/
theorem size_of_made {start loop : Nat} {commands : List Located} {banks : BankMap}
    (h : Made file p start loop commands banks) :
    start ≤ p.data.size ∧ p.data.size ≤ file.size := by
  have hwalk := walk_of_commandsFrom h.commandsFrom_eq
  obtain ⟨header, hheader, hdata, -⟩ := data_of_made h (le_start_of_made h)
  have hle := size_appendAll_le hwalk h.fits banks header
  rw [← hdata] at hle
  have hge : header.size ≤ p.data.size := by
    rw [hdata, appendAll_eq, ByteArray.size_append]
    omega
  omega

/-- The playback of a prepared file without an end begins, and has all commands ahead of it. -/
theorem heading_of_prepare (h : prepare file = .ok p) (hend : p.stats.endOfStream = false)
    (hsize : file.size + 0x8001 < 2 ^ 32) (hstart : Stream.start file < linearEnd)
    (player : Player) (chip : Recorder) (timer : Timer) :
    ∃ q commands, player.begin (.holding p.data) = (.ok (), q) ∧
      OpenPass p.data q.start.toNat commands ∧
      samplesIn commands = p.stats.waitSamples ∧
      writesIn commands = p.stats.portAWrites + p.stats.portBWrites ∧
      p.data.size + 0x8001 < 2 ^ 32 ∧
      Heading p.data commands (Playback.serveAll
        { stream := p.data, window := .holding p.data, player := q, chip, timer }) [] := by
  have hident := ident_of_prepare h
  obtain ⟨start, loop, commands, banks, hmade⟩ := made_of_prepare h
  have hlow := le_start_of_made hmade
  obtain ⟨hheaderFits, hbound⟩ := size_of_made hmade
  obtain rfl := Stream.start_eq hmade.startOf_eq
  have hfits := hmade.fits
  have hwalk := walk_of_commandsFrom hmade.commandsFrom_eq
  obtain ⟨hsamples, hwrites, hlast⟩ := CommandStats.foldl_totals commands {}
  have hopen : ∀ c ∈ commands, c.command.isEnd = false := by
    rw [hmade.stats_eq] at hend
    have hnone : commands.any (·.command.isEnd) = false := hlast.symm.trans hend
    intro c hc
    exact Bool.eq_false_iff.mpr (List.any_eq_false.mp hnone c hc)
  obtain ⟨header, hheader, hdata, hkept, -⟩ := data_of_made hmade hlow
  have hpass := openPass_of_walk hwalk hopen banks header
  rw [← hdata, hheader] at hpass
  obtain ⟨read, hread, hreadStart, -⟩ := readHeader_of_kept (w := .holding p.data) hident hlow hfits
    (by omega) hstart fun i hi hopen => by
      rw [Window.byte_holding p.data i (by omega)]
      exact hkept i hi hopen
  have hnat : read.start.toNat = Stream.start file := by
    rw [hreadStart, UInt32.toNat_ofNat_of_lt' (show Stream.start file < 2 ^ 32 by omega)]
  obtain ⟨htotals, htotalw⟩ := totals_relocated banks (Stream.start file) commands
  refine ⟨player.begun read, relocated banks (Stream.start file) commands,
    Player.begin_of_readHeader hread player, ?_, ?_, ?_, by omega, ?_⟩
  · show OpenPass p.data read.start.toNat _
    rw [hnat]
    exact hpass
  · rw [htotals, hmade.stats_eq]
    exact (Nat.zero_add _).symm.trans hsamples.symm
  · rw [htotalw, hmade.stats_eq]
    exact (Nat.zero_add _).symm.trans hwrites.symm
  · apply Heading.start hread
    rw [hnat]
    exact hpass

/-- A prepared file without an end is played through once. Let its first command lie in the linear
region, let the window hold the first bytes of the prepared stream and zeros behind them, and let
every refill be served at once, with nothing where there is none. Then:

* the commands that are played are those of the stream up to its last byte, in order, before any
  other;
* the timer was armed for what they wait, and a chip that records has the writes among them that the
  filter allows;
* a fair chip lets the playback come to the end of the stream. The byte that it finds there is zero
  if the stream ends in front of the part that A is filled with for the second time, and otherwise
  what stood two regions earlier. If no command begins with that byte, the playback stops there with
  a fatal error, and nothing is played or waited for any more. Otherwise it goes on with it. -/
theorem unended_plays_once (h : prepare file = .ok p) (hend : p.stats.endOfStream = false)
    (hsize : file.size + 0x8001 < 2 ^ 32) (hstart : Stream.start file < linearEnd)
    (player : Player) (chip : Recorder) (timer : Timer) :
    ∃ q commands, player.begin (.holding p.data) = (.ok (), q) ∧
      commandsFrom p.data q.start.toNat = .ok commands ∧
      samplesIn commands = p.stats.waitSamples ∧
      writesIn commands = p.stats.portAWrites + p.stats.portBWrites ∧
      let g := Playback.serveAll
        { stream := p.data, window := .holding p.data, player := q, chip, timer }
      (∀ n, g.commandsIn n <+: commands ∨ commands <+: g.commandsIn n) ∧
      (∀ n, (g.after n).timer.total = timer.total + samplesIn (g.commandsIn n)) ∧
      (chip.recording = true → ∀ n, (g.after n).chip.writes =
        chip.writes ++ (registerWrites (g.commandsIn n)).filter q.filter.allows) ∧
      (p.data.size < linearEnd + 2 * regionSize → trailing p.data = 0) ∧
      (linearEnd + 2 * regionSize ≤ p.data.size →
        trailing p.data = peek p.data (p.data.size - 2 * regionSize)) ∧
      (chip.Fair → ∃ n, (∀ m < n, g.errorAt m = none) ∧
        match trailingError p.data with
        | some e => e.isFatal = true ∧ g.errorAt n = some e ∧ ∀ m > n,
            g.commandsIn m = commands ∧ g.errorAt m = some .notStarted ∧
            (g.after m).chip = (g.after (n + 1)).chip ∧
            (g.after m).timer = (g.after (n + 1)).timer
        | none => ∃ c more, c.opcode = .ofByte (trailing p.data) ∧
            g.commandsIn (n + 1) = commands ++ ⟨p.data.size, c⟩ :: more) := by
  obtain ⟨q, commands, hbegin, hpass, hsamples, hwrites, hroom, hheading⟩ :=
    heading_of_prepare h hend hsize hstart player chip timer
  refine ⟨q, commands, hbegin, hpass.commandsFrom_eq, hsamples, hwrites, ?_⟩
  intro g
  obtain ⟨served, heq⟩ := Playback.serveAll_eq
    { stream := p.data, window := .holding p.data, player := q, chip, timer }
  have hchip : g.chip = chip := congrArg Playback.chip heq
  have htimer : g.timer = timer := congrArg Playback.timer heq
  have hfilter : g.player.filter = q.filter := congrArg (·.player.filter) heq
  refine ⟨hheading.in_order hroom, ?_, ?_, ?_, ?_, ?_⟩
  · intro n
    rw [← htimer]
    exact g.total_after n
  · intro hrecording n
    rw [← hchip] at hrecording ⊢
    rw [← hfilter]
    exact (g.writes_after hrecording n).1
  · intro hshort
    rw [trailing, if_neg (Nat.not_le.mpr hshort)]
  · intro hlong
    rw [trailing, if_pos hlong]
  · intro hfair
    rw [← hchip] at hfair
    obtain ⟨n, hbefore, hlast⟩ := hheading.exists_last hroom hfair
    refine ⟨n, hbefore, ?_⟩
    rcases hlast with ⟨hsome, herror, hstopped, hall⟩ | ⟨hnone, hbehind⟩
    · obtain ⟨e, he⟩ := Option.isSome_iff_exists.mp hsome
      rw [he] at herror ⊢
      refine ⟨Stream.isFatal_trailingError he, herror, ?_⟩
      intro m hm
      obtain ⟨k, rfl⟩ := Nat.exists_eq_add_of_le (Nat.succ_le_of_lt hm)
      obtain ⟨-, hlater, hcommands, hsameChip, hsameTimer⟩ := hstopped.after k
      refine ⟨?_, ?_, ?_, ?_⟩
      · rw [Playback.commandsIn_add, hcommands, List.append_nil]
        exact hall
      · unfold Playback.errorAt at hlater ⊢
        rw [Playback.after_add]
        exact hlater
      · rw [Playback.after_add]
        exact hsameChip
      · rw [Playback.after_add]
        exact hsameTimer
    · rw [hnone]
      exact hbehind

/-- A file that writes a register, waits for a frame and has no end. -/
def shortFile : ByteArray :=
  ⟨#[0x56, 0x67, 0x6D, 0x20] ++ Array.replicate 60 0 ++ #[0x59, 0x18, 0x01, 0x62]⟩

/-- What `shortFile` holds behind its header. -/
def shortCommands : List Located := [⟨0x40, .write .b 0x18 0x01⟩, ⟨0x43, .pause 0x62 735⟩]

theorem prepare_shortFile : ∃ p, prepare shortFile = .ok p ∧
    Made shortFile p 0x40 0 shortCommands [] := by
  have hplaced : placeBlocks (mergedBlocks (sampleBlocks shortCommands)) = .ok ([], []) := by
    rw [mergedBlocks_of_sorted (by decide +kernel)]
    decide +kernel
  obtain ⟨p, hprepare, -, hmade⟩ := prepare_ok
    (show checkIdent shortFile = .ok () by decide +kernel)
    (show startOf shortFile = .ok 0x40 by decide +kernel)
    (show pointer shortFile .loopOffset = .ok 0 by decide +kernel)
    (show 0x40 ≤ shortFile.size by decide +kernel)
    (show commandsFrom shortFile 0x40 = .ok shortCommands by decide +kernel) hplaced
  exact ⟨p, hprepare, hmade⟩

/-- It stops after its wait. -/
theorem unended_plays_once_short : ∃ p, prepare shortFile = .ok p ∧ ∃ q commands,
    Player.initial.begin (.holding p.data) = (.ok (), q) ∧ samplesIn commands = 735 ∧
    let g := Playback.serveAll
      { stream := p.data, window := .holding p.data, player := q
        chip := .fresh (fun _ => true) true, timer := { manual := true } }
    ∃ n, g.errorAt n = some (.unexpectedOpcode 0 (UInt32.ofNat p.data.size)) ∧
      ∀ m > n, g.commandsIn m = commands := by
  obtain ⟨p, hprepare, hmade⟩ := prepare_shortFile
  have hend : p.stats.endOfStream = false := by
    rw [hmade.stats_eq]
    rfl
  have hsamples : p.stats.waitSamples = 735 := by
    rw [hmade.stats_eq]
    rfl
  have hshort : p.data.size < linearEnd + 2 * regionSize :=
    Nat.lt_of_le_of_lt (size_of_made hmade).2 (by decide +kernel)
  obtain ⟨q, commands, hbegin, -, htotal, -, -, -, -, hzero, -, hlast⟩ :=
    unended_plays_once hprepare hend (by decide +kernel) (by decide +kernel) .initial
      (.fresh (fun _ => true) true) { manual := true }
  refine ⟨p, hprepare, q, commands, hbegin, htotal.trans hsamples, ?_⟩
  intro g
  have hfair : (Recorder.fresh (fun _ => true) true).Fair := ⟨rfl, fun n => ⟨n + 1, by omega, rfl⟩⟩
  obtain ⟨n, -, hstops⟩ := hlast hfair
  have herror : trailingError p.data = some (.unexpectedOpcode 0 (UInt32.ofNat p.data.size)) := by
    rw [trailingError, hzero hshort]
    rfl
  rw [herror] at hstops
  exact ⟨n, hstops.2.1, fun m hm => (hstops.2.2 m hm).1⟩

/-! ## A long file without an end -/

/-- A header that says nothing. -/
def plainHeader : ByteArray := ⟨#[0x56, 0x67, 0x6D, 0x20] ++ Array.replicate 60 0⟩

/-- A file of `n` waits for one sample each. -/
def waitingFile (n : Nat) : ByteArray :=
  appendAll plainHeader (List.replicate n (.pause 0x70 1))

/-- The waits, from offset `i` on. -/
def waitsFrom (i : Nat) : Nat → List Located
  | 0 => []
  | n + 1 => ⟨i, .pause 0x70 1⟩ :: waitsFrom (i + 1) n

theorem command_of_mem_waitsFrom {c : Located} {i n : Nat} (h : c ∈ waitsFrom i n) :
    c.command = .pause 0x70 1 := by
  induction n generalizing i with
  | zero => cases h
  | succ n ih =>
    rcases List.mem_cons.mp h with rfl | h
    · rfl
    · exact ih h

theorem map_waitsFrom (i n : Nat) :
    (waitsFrom i n).map (·.command) = List.replicate n (.pause 0x70 1) := by
  induction n generalizing i with
  | zero => rfl
  | succ n ih => rw [waitsFrom, List.map_cons, ih, List.replicate_succ]

/-- Every byte behind the header is a wait. -/
theorem peek_waits (out : ByteArray) (n : Nat) :
    let bytes := appendAll out (List.replicate n (.pause 0x70 1))
    bytes.size = out.size + n ∧
      ∀ i, out.size ≤ i → i < out.size + n → peek bytes i = 0x70 := by
  induction n with
  | zero => exact ⟨rfl, fun i hle hlt => by omega⟩
  | succ n ih =>
    obtain ⟨hsize, hbytes⟩ := ih
    intro bytes
    have hpush : bytes = (appendAll out (List.replicate n (.pause 0x70 1))).push 0x70 := by
      show appendAll out (List.replicate (n + 1) _) = _
      rw [List.replicate_succ', appendAll, List.foldl_append]
      rfl
    rw [hpush]
    refine ⟨?_, fun i hle hlt => ?_⟩
    · rw [ByteArray.size_push, hsize]
      rfl
    · rw [peek_push, hsize]
      split
      · rfl
      · exact hbytes i hle (by omega)

theorem openPass_waits {stream : ByteArray} {i n : Nat} (hsize : stream.size = i + n)
    (h : ∀ k, i ≤ k → k < i + n → peek stream k = 0x70) : OpenPass stream i (waitsFrom i n) := by
  induction n generalizing i with
  | zero =>
    obtain rfl : stream.size = i := hsize
    exact .done
  | succ n ih =>
    have hbyte := h i (Nat.le_refl i) (by omega)
    have hat : Command.At stream i (.pause 0x70 1) := .of_pause hbyte rfl (by omega)
    have hrest : OpenPass stream (i + 1) (waitsFrom (i + 1) n) :=
      ih (by omega) fun k hle hlt => h k (by omega) (by omega)
    exact .next hat rfl rfl hrest

/-- What follows the header does not matter to who reads the header. -/
theorem header_append (header body : ByteArray) (h : 0x38 ≤ header.size) :
    checkIdent (header ++ body) = checkIdent header ∧ startOf (header ++ body) = startOf header ∧
      pointer (header ++ body) .loopOffset = pointer header .loopOffset := by
  have hwhole : (header ++ body).size = header.size + body.size := ByteArray.size_append
  have hpeek (i : Nat) (hi : i < 0x38) : peek (header ++ body) i = peek header i := by
    rw [peek_append, if_pos (by omega)]
  have hread (f : HeaderField) (hf : f.offset + 4 ≤ 0x38) :
      f.read (header ++ body) = f.read header := by
    rw [HeaderField.read, HeaderField.read, word32At, word32At, if_pos (by omega),
      if_pos (by omega), hpeek _ (by omega), hpeek _ (by omega), hpeek _ (by omega),
      hpeek _ (by omega)]
  have hslice : slice (header ++ body) 0 4 = slice header 0 4 := by
    rw [slice, slice, if_pos (by omega), if_pos (by omega)]
    congr 1
    apply ext_peek
    · rw [ByteArray.size_extract, ByteArray.size_extract]
      omega
    · intro i hi
      rw [ByteArray.size_extract] at hi
      rw [peek_extract, peek_extract, if_pos (by omega), if_pos (by omega), hpeek _ (by omega)]
  refine ⟨?_, ?_, ?_⟩
  · unfold checkIdent
    rw [show HeaderField.ident.offset = 0 from rfl, hslice]
  · unfold startOf pointer
    rw [hread .dataOffset (by decide)]
  · unfold pointer
    rw [hread .loopOffset (by decide)]

theorem header_waitingFile (n : Nat) : checkIdent (waitingFile n) = .ok () ∧
    startOf (waitingFile n) = .ok 0x40 ∧ pointer (waitingFile n) .loopOffset = .ok 0 := by
  have hplain : plainHeader.size = 0x40 := by decide
  obtain ⟨hident, hstart, hloop⟩ := header_append plainHeader
    (appendAll .empty (List.replicate n (.pause 0x70 1))) (by rw [hplain]; decide)
  rw [← appendAll_eq] at hident hstart hloop
  refine ⟨hident.trans ?_, hstart.trans ?_, hloop.trans ?_⟩
  · decide +kernel
  · decide +kernel
  · decide +kernel

theorem prepare_waitingFile (n : Nat) : ∃ p, prepare (waitingFile n) = .ok p ∧
    p.stats.endOfStream = false ∧ p.data.size = 0x40 + n ∧
    ∀ i, 0x40 ≤ i → i < 0x40 + n → peek p.data i = 0x70 := by
  obtain ⟨hident, hstart, hloop⟩ := header_waitingFile n
  obtain ⟨hsize, hbytes⟩ := peek_waits plainHeader n
  rw [show plainHeader.size = 0x40 by decide] at hsize hbytes
  have hcommands := (openPass_waits hsize hbytes).commandsFrom_eq
  have hblocks : sampleBlocks (waitsFrom 0x40 n) = [] := by
    have hnone : (waitsFrom 0x40 n).filterMap (fun c => c.command.block?) = [] := by
      rw [List.filterMap_eq_nil_iff]
      intro c hc
      rw [command_of_mem_waitsFrom hc]
      rfl
    rw [sampleBlocks, hnone, List.filterMap_nil]
  have hplaced : placeBlocks (mergedBlocks (sampleBlocks (waitsFrom 0x40 n))) = .ok ([], []) := by
    rw [hblocks, mergedBlocks_of_sorted (by decide +kernel)]
    decide +kernel
  have hfits : 0x40 ≤ (waitingFile n).size := by
    rw [waitingFile, hsize]
    exact Nat.le_add_right _ _
  obtain ⟨p, hprepare, -, hmade⟩ := prepare_ok hident hstart hloop hfits hcommands hplaced
  have hend : p.stats.endOfStream = false := by
    obtain ⟨-, -, hlast⟩ := CommandStats.foldl_totals (waitsFrom 0x40 n) {}
    have hnone : (waitsFrom 0x40 n).any (·.command.isEnd) = false := by
      rw [List.any_eq_false]
      intro c hc
      rw [command_of_mem_waitsFrom hc]
      decide
    rw [hmade.stats_eq]
    exact hlast.trans (by rw [hnone]; rfl)
  obtain ⟨header, hheader, hdata, -⟩ := data_of_made hmade (by decide)
  have hkept : ((waitsFrom 0x40 n).map fun c => c.command.remap []) =
      List.replicate n (.pause 0x70 1) := by
    rw [← map_waitsFrom 0x40 n]
    apply List.map_congr_left
    intro c hc
    rw [command_of_mem_waitsFrom hc]
    rfl
  rw [hkept] at hdata
  obtain ⟨hlength, hwaits⟩ := peek_waits header n
  rw [← hdata, hheader] at hlength hwaits
  exact ⟨p, hprepare, hend, hlength, hwaits⟩

/-- A stream that ends where A would be filled with it for the second time does not stop the player
there: it finds a wait behind the last command, and waits once more. -/
theorem waits_behind_end : ∃ p, prepare (waitingFile 0x15FC0) = .ok p ∧
    p.stats.endOfStream = false ∧ Stream.start (waitingFile 0x15FC0) < linearEnd ∧
    ∃ q commands, Player.initial.begin (.holding p.data) = (.ok (), q) ∧
      commandsFrom p.data q.start.toNat = .ok commands ∧
      let g := Playback.serveAll
        { stream := p.data, window := .holding p.data, player := q
          chip := .fresh (fun _ => true) true, timer := { manual := true } }
      ∃ n c more, (∀ m < n, g.errorAt m = none) ∧
        g.commandsIn (n + 1) = commands ++ ⟨p.data.size, c⟩ :: more ∧ c.waitSamples = 1 ∧
        samplesIn commands < (g.after (n + 1)).timer.total := by
  obtain ⟨p, hprepare, hend, hsize, hwaits⟩ := prepare_waitingFile 0x15FC0
  have hlength : (waitingFile 0x15FC0).size = 0x40 + 0x15FC0 := (peek_waits plainHeader 0x15FC0).1
  have hstart : Stream.start (waitingFile 0x15FC0) < linearEnd := by
    rw [← Stream.start_eq (header_waitingFile 0x15FC0).2.1]
    decide
  obtain ⟨q, commands, hbegin, hpass, -, -, hroom, hheading⟩ :=
    heading_of_prepare hprepare hend (by rw [hlength]; decide) hstart .initial
      (.fresh (fun _ => true) true) { manual := true }
  refine ⟨p, hprepare, hend, hstart, q, commands, hbegin, hpass.commandsFrom_eq, ?_⟩
  intro g
  obtain ⟨served, heq⟩ := Playback.serveAll_eq
    { stream := p.data, window := .holding p.data, player := q
      chip := .fresh (fun _ => true) true, timer := { manual := true } }
  have hchip : g.chip = .fresh (fun _ => true) true := congrArg Playback.chip heq
  have htimer : g.timer = { manual := true } := congrArg Playback.timer heq
  have hbyte : trailing p.data = 0x70 := by
    rw [trailing, if_pos (by rw [hsize]; decide), hsize]
    exact hwaits _ (by decide) (by decide)
  have hgoesOn : trailingError p.data = none := by
    rw [trailingError, hbyte]
    rfl
  have hfair : g.chip.Fair := by
    rw [hchip]
    exact ⟨rfl, fun n => ⟨n + 1, by omega, rfl⟩⟩
  obtain ⟨n, hbefore, ⟨hsome, -⟩ | ⟨-, c, more, hopcode, hall⟩⟩ :=
    hheading.exists_last hroom hfair
  · rw [hgoesOn] at hsome
    cases hsome
  · have hwait : c.waitSamples = 1 := by
      rw [hbyte] at hopcode
      cases c with
      | pause code samples =>
        obtain rfl : samples = 1 := Opcode.pause.inj hopcode
        rfl
      | write | wait | endOfStream | block => cases hopcode
    refine ⟨n, c, more, hbefore, hall, hwait, ?_⟩
    have htotal := g.total_after (n + 1)
    rw [hall, samplesIn_append, samplesIn, hwait, htimer] at htotal
    rw [htotal]
    show samplesIn commands < 0 + (samplesIn commands + (1 + samplesIn more))
    omega

end ChipReplay
