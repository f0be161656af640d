import ChipReplay.Proofs.Stream.Passing
/-!
# What is prepared is played

`prepare` walks over the commands of a file, and the player walks over those of the prepared stream,
through a window. They meet here: a prepared file that ends its stream is played pass by pass, as
the counts of its preparation say, and never with an error (`prepared_plays`).
-/

namespace ChipReplay

open Bytes

/-- A window that holds the first bytes of `stream`. -/
def Window.holding (stream : ByteArray) : Window :=
  Window.zero.put 0 (stream.extract 0 linearEnd) (by
    have hfits : linearEnd ≤ windowSize := by decide
    rw [ByteArray.size_extract]
    omega)

theorem Window.byte_holding (stream : ByteArray) :
    ∀ i < min stream.size linearEnd, (holding stream).byte i = peek stream i := by
  intro i hi
  have hcovered : 0 ≤ i ∧ i < 0 + (stream.extract 0 linearEnd).size := by
    rw [ByteArray.size_extract]
    omega
  rw [holding, byte_put, if_pos hcovered, Nat.sub_zero, peek_extract, if_pos (by omega),
    Nat.zero_add]

variable {file : ByteArray} {p : Prepared}

/-- A prepared file that ends its stream, and whose first command lies in the linear region, is
played. With the first bytes of the prepared stream in the window the playback begins; and when
every refill that it asks for is served at once:

* no update ends with an error, however many there are;
* the commands that are played are those of the stream up to its end, then those from the loop point
  up to the end, or from the first command if there is no loop point, and so on, each pass being
  complete when the stream's ends are counted;
* until the first end of the stream is counted, the timer is armed for as many samples in all as the
  preparation counted, and as many register writes are played. -/
theorem prepared_plays (h : prepare file = .ok p) (hend : p.stats.endOfStream = true)
    (hsize : file.size + 0x8000 < 2 ^ 32) (hstart : Stream.start file < linearEnd) {w : Window}
    (hlinear : ∀ i < min p.data.size linearEnd, w.byte i = peek p.data i) (player : Player)
    (chip : Recorder) (timer : Timer) :
    ∃ q first later, player.begin w = (.ok (), q) ∧
      HeaderField.loopOffset.resolve p.data = .ok q.loop ∧
      commandsFrom p.data q.start.toNat = .ok first ∧
      commandsFrom p.data (if q.loop = 0 then q.start else q.loop).toNat = .ok later ∧
      later <:+ first ∧ later.getLast?.map (·.command) = some .endOfStream ∧
      let g := Playback.serveAll { stream := p.data, window := w, player := q, chip, timer }
      (∀ n, ((g.after n).advance true).1.outcome.error = none) ∧
      (∀ n, ∃ k part, g.commandsIn n = passes first later k ++ part ∧
        part <+: passAt first later k ∧ part ≠ passAt first later k ∧
        (g.after n).player.loopCount = UInt32.ofNat k) ∧
      ∀ n, (∀ m ≤ n, (g.after m).player.loopCount = 0) → (g.after (n + 1)).player.loopCount ≠ 0 →
        g.commandsIn (n + 1) = first ∧
        (g.after (n + 1)).timer.total = timer.total + p.stats.waitSamples ∧
        writesIn (g.commandsIn (n + 1)) = p.stats.portAWrites + p.stats.portBWrites := by
  obtain ⟨start, loop, first, later, hplayable, hresolve, hsamples, hwrites⟩ :=
    playable_of_prepare h hend hsize hstart
  obtain ⟨q, hbegin, rfl, rfl, hplaying⟩ := hplayable.begins hlinear player chip timer
  obtain ⟨place, hlast, -⟩ := hplayable.later_pass.exists_last
  refine ⟨q, first, later, hbegin, hresolve, hplayable.first_pass.commandsFrom_eq,
    hplayable.later_pass.commandsFrom_eq, hplayable.suffix, by rw [hlast]; rfl, ?_⟩
  intro g
  have htimer : g.timer = timer := by
    obtain ⟨served, heq⟩ := Playback.serveAll_eq
      { stream := p.data, window := w, player := q, chip, timer }
    show (Playback.serveAll _).timer = timer
    rw [heq]
  refine ⟨fun n => ?_, fun n => ?_, fun n hzero hone => ?_⟩
  · obtain ⟨k, part, hstands, -⟩ := hplaying.after hplayable n
    obtain ⟨-, -, -, -, herror, -⟩ := hstands.advance hplayable
    exact herror
  · obtain ⟨k, part, hstands, hcommands, -⟩ := hplaying.after hplayable n
    exact ⟨k, part, hcommands, hstands.strict.1, hstands.strict.2, hstands.loopCount_eq⟩
  · have hfirst := hplaying.first_of_ne_zero hplayable hzero hone
    obtain ⟨k, part, -, -, htotal⟩ := hplaying.after hplayable (n + 1)
    refine ⟨hfirst, ?_, ?_⟩
    · rw [← hsamples, ← htimer, ← hfirst]
      exact htotal
    · rw [hfirst, hwrites]

/-! ## A file with a loop -/

/-- A file that waits for a frame and then repeats a write and a short wait. Its loop offset points
at the data block between them, which is cut out. -/
def loopedFile : ByteArray :=
  ⟨#[0x56, 0x67, 0x6D, 0x20] ++ Array.replicate 24 0 ++ #[0x25] ++ Array.replicate 35 0 ++
    #[0x62,
      0x67, 0x66, 0x82, 10, 0, 0, 0, 0, 0, 2, 0, 0x05, 0x00, 0x01, 0, 0x11, 0x22,
      0x59, 0x18, 0x01, 0x73, 0x66]⟩

/-- What `loopedFile` holds behind its header. -/
def loopedCommands : List Located :=
  [⟨0x40, .pause 0x62 735⟩, ⟨0x41, .block ⟨.a, 0x20000, 0x10005, ⟨#[0x11, 0x22]⟩⟩⟩,
    ⟨0x52, .write .b 0x18 0x01⟩, ⟨0x55, .pause 0x73 4⟩, ⟨0x56, .endOfStream⟩]

open Preparation

theorem placed_loopedFile : placeBlocks (mergedBlocks (sampleBlocks loopedCommands)) =
    .ok ([⟨.a, 0x00005, 0x10005, 0x20000, ⟨#[0x11, 0x22]⟩⟩], [⟨.a, 1, 1, 0⟩]) := by
  rw [mergedBlocks_of_sorted (by decide +kernel)]
  decide +kernel

/-- The file is played without an error, from its first command and then from its loop point, and
the first pass has its 739 samples and its one write. -/
theorem prepared_plays_loopedFile : ∃ p, prepare loopedFile = .ok p ∧ ∃ q first later,
    Player.initial.begin (.holding p.data) = (.ok (), q) ∧ q.loop = 0x41 ∧
    commandsFrom p.data q.start.toNat = .ok first ∧ commandsFrom p.data 0x41 = .ok later ∧
    later <:+ first ∧ later.getLast?.map (·.command) = some .endOfStream ∧
    let g := Playback.serveAll
      { stream := p.data, window := .holding p.data, player := q
        chip := .fresh (fun _ => true) true, timer := { manual := true } }
    (∀ n, ((g.after n).advance true).1.outcome.error = none) ∧
    (∀ n, ∃ k part, g.commandsIn n = passes first later k ++ part ∧
      part <+: passAt first later k ∧ part ≠ passAt first later k ∧
      (g.after n).player.loopCount = UInt32.ofNat k) ∧
    ∀ n, (∀ m ≤ n, (g.after m).player.loopCount = 0) → (g.after (n + 1)).player.loopCount ≠ 0 →
      g.commandsIn (n + 1) = first ∧ (g.after (n + 1)).timer.total = 739 ∧
      writesIn (g.commandsIn (n + 1)) = 1 := by
  obtain ⟨p, hprepare, -, hmade⟩ := prepare_ok
    (show checkIdent loopedFile = .ok () by decide +kernel)
    (show startOf loopedFile = .ok 0x40 by decide +kernel)
    (show pointer loopedFile .loopOffset = .ok 0x41 by decide +kernel)
    (show 0x40 ≤ loopedFile.size by decide +kernel)
    (show commandsFrom loopedFile 0x40 = .ok loopedCommands by decide +kernel) placed_loopedFile
  have hend : p.stats.endOfStream = true := by
    rw [hmade.stats_eq]
    rfl
  have hsamples : p.stats.waitSamples = 739 := by
    rw [hmade.stats_eq]
    rfl
  have hwrites : p.stats.portAWrites + p.stats.portBWrites = 1 := by
    rw [hmade.stats_eq]
    rfl
  have hsize : loopedFile.size + 0x8000 < 2 ^ 32 := by decide +kernel
  have hstart : Stream.start loopedFile < linearEnd := by decide +kernel
  obtain ⟨q, first, later, hbegin, hresolve, hfirst, hlater, hsuffix, hlast, herror, hpasses,
      hcounts⟩ :=
    prepared_plays hprepare hend hsize hstart (Window.byte_holding p.data) .initial
      (.fresh (fun _ => true) true) { manual := true }
  have hloop : q.loop = 0x41 := by
    obtain ⟨header, hheader, hdata, -, hfield⟩ := data_of_made hmade (by decide)
    have hlong : HeaderField.loopOffset.offset + 4 ≤ p.data.size := by
      show 0x20 ≤ p.data.size
      rw [hdata, appendAll_eq, ByteArray.size_append]
      omega
    have hword : wordAt p.data 0x1C = 0x25 := hfield.trans (by decide +kernel)
    have htarget : HeaderField.loopOffset.target p.data = 0x41 := by
      unfold HeaderField.target
      rw [show wordAt p.data HeaderField.loopOffset.offset = 0x25 from hword]
      decide
    rw [HeaderField.resolve_eq hlong, htarget] at hresolve
    exact (Except.ok.inj hresolve).symm
  rw [hloop, if_neg (by decide)] at hlater
  rw [hsamples, hwrites] at hcounts
  exact ⟨p, hprepare, q, first, later, hbegin, hloop, hfirst, hlater, hsuffix, hlast, herror,
    hpasses, hcounts⟩

end ChipReplay
