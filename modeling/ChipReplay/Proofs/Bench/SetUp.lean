import ChipReplay.Proofs.Bench.Serving
import ChipReplay.Proofs.Device.Link
import ChipReplay.Proofs.Preparation.Samples
/-!
# Setting up

Before its first round the bench makes the initial uploads and then asks for the playback. While it
makes them its device rests (`Device.Resting`): nothing is played, and nothing waits. So all of them
are made (`Bench.uploadAll_of_resting`), the last one of them is in the window when the playback
begins, and the bench is on course from then on (`Bench.setUp_of_prepare`).
-/

namespace ChipReplay

open Bytes Preparation

/-- The register writes that a device lets through from power-on. -/
def DeviceConfig.allows (c : DeviceConfig) : RegisterWrite → Bool :=
  ({ ChannelFilter.initial with mask := c.initialMask } : ChannelFilter).allows

namespace Device

variable {player : Player} {chip : Recorder} {d d' : Device}

/-- The device has played nothing, nothing waits in it, and it has the player and the chip. -/
structure Resting (player : Player) (chip : Recorder) (d : Device) : Prop where
  idle : Link.Idle d
  held : d.session.startPending = false
  direct : d.direct.toList = []
  player : d.player = player
  chip : d.chip = chip
  timer : d.timer = { manual := true }

theorem Resting.of_quiet (h : d.Resting player chip) (hquiet : d.Quiet d')
    (hdirect : d'.direct = d.direct) (hplayer : d'.player = d.player) (hchip : d'.chip = d.chip)
    (htimer : d'.timer = d.timer) : d'.Resting player chip where
  idle := h.idle.of_quiet hquiet
  held := hquiet.startPending.trans h.held
  direct := hdirect ▸ h.direct
  player := hplayer.trans h.player
  chip := hchip.trans h.chip
  timer := htimer.trans h.timer

/-- Taking a packet does not wake the device up. -/
theorem Resting.ingested (h : d.Resting player chip) : d.ingested.Resting player chip := by
  have hquiet := d.quiet_ingested
  obtain ⟨active, window, samples, lastUploadError, stats, heq, -⟩ := d.ingested_eq
  rw [flushDirect_of_empty h.direct] at heq
  rw [heq] at hquiet ⊢
  exact h.of_quiet hquiet rfl rfl rfl rfl

theorem Resting.poll (h : d.Resting player chip) : d.poll.Resting player chip := by
  have hingested := h.ingested
  have hheld : d.ingested.session.takeStart.1 = false := by
    unfold Session.takeStart
    split
    · rfl
    · exact hingested.held
  have hquiet := quiet_startIfAsked hheld
  have hstart : d.ingested.startIfAsked =
      { d.ingested with session := d.ingested.session.takeStart.2 } := by
    rw [startIfAsked]
    dsimp only
    rw [hheld]
    rfl
  rw [h.idle.poll_eq.2]
  rw [hstart] at hquiet ⊢
  exact hingested.of_quiet hquiet rfl rfl rfl rfl

theorem Resting.sentWhole {u : Upload} (h : d.Resting player chip) (hfits : u.Fits) :
    (d.sentWhole u).Resting player chip :=
  h.of_quiet (quiet_sentWhole hfits) rfl rfl rfl rfl

end Device

namespace Bench

open Device

variable {player : Player} {chip : Recorder} {b : Bench}

/-! ## Uploads -/

/-- The host makes its uploads on a device that rests. The last one of them is stored, nothing is
touched that none of them fills, and nothing is played meanwhile. -/
theorem uploadAll_of_resting {us : List Upload} (hfits : ∀ u ∈ us, u.Fits)
    (hready : b.device.Ready) (hover : b.device.session.active = false)
    (hresting : b.device.Resting player chip) :
    ∃ d, b.uploadAll us = (none, { b with device := d }) ∧ d.Ready ∧ d.session.active = false ∧
      d.Resting player chip ∧
      (∀ t i, (∀ u ∈ us, ¬ u.Fills t i) → d.memory t i = b.device.memory t i) ∧
      ∀ u, us.getLast? = some u → ∀ t i, u.Fills t i →
        d.memory t i = peek (u.destination.stored u.data) (i - u.offset.toNat) := by
  induction us generalizing b with
  | nil => exact ⟨b.device, rfl, hready, hover, hresting, fun _ _ _ => rfl, nofun⟩
  | cons u us ih =>
    obtain ⟨hu, hus⟩ := List.forall_mem_cons.mp hfits
    obtain ⟨-, d₁, hupload, hready₁, hover₁, hstored, hresting₁⟩ :=
      upload_of_ready (P := fun _ d => d.Resting player chip) hready hu (hresting.sentWhole hu)
        fun _ _ _ _ _ _ _ h => h.poll
    obtain ⟨d, hrest, hready', hover', hresting', hkept, hlast⟩ :=
      ih (b := { b with device := d₁ }) hus hready₁ hover₁ hresting₁
    refine ⟨d, ?_, hready', hover', hresting', fun t i hnone => ?_, fun v hv t i hin => ?_⟩
    · rw [uploadAll, hupload]
      exact hrest
    · obtain ⟨hnot, hnone⟩ := List.forall_mem_cons.mp hnone
      rw [hkept t i hnone, hstored t i]
      exact if_neg hnot
    · cases us with
      | nil =>
        obtain rfl : u = v := Option.some.inj hv
        obtain rfl : d₁ = d := congrArg (fun r : Progress => r.2.device) hrest
        rw [hstored t i]
        exact if_pos hin
      | cons v' us => exact hlast v (by rwa [List.getLast?_cons_cons] at hv) t i hin

/-! ## The start -/

end Bench

namespace Device

variable {s : Score} {player q : Player} {chip : Recorder} {d : Device}

/-- The device once a playback has been asked for. -/
def asked (d : Device) : Device := { d with session := d.session.askStart }

theorem request_startPlayback (d : Device) :
    d.request .startPlayback = (.ok .acknowledge, d.asked) := rfl

/-- The device in the poll after that, when its packet has been stored. -/
def starting (d : Device) : Device :=
  { d.asked.ingested with session := { d.asked.ingested.session with startPending := false } }

/-- If no upload is active, a playback that is asked for starts in the next poll, with the player,
the chip and the window that the device has. -/
theorem Resting.poll_asked (h : d.Resting player chip) (hover : d.session.active = false) :
    d.asked.poll = d.starting.startPlayback ∧
      d.asked.ingested.session.takeStart = (true, d.starting.session) ∧
      d.starting.player = player ∧ d.starting.window = d.window ∧
      d.starting.direct.toList = [] ∧ d.starting.chip = chip ∧
      d.starting.timer = { manual := true } := by
  obtain ⟨hplayer, hwindow, hsession⟩ := ingested_of_inactive (d := d.asked) hover
  have hasked : d.asked.ingested.session.takeStart = (true, d.starting.session) := by
    have hinactive : ¬ d.asked.ingested.session.active = true := by
      rw [hsession]
      show ¬ d.session.active = true
      rw [hover]
      exact Bool.false_ne_true
    rw [Session.takeStart, if_neg hinactive, starting, hsession]
    rfl
  have hpoll : d.asked.poll = d.starting.startPlayback := by
    have hidle : Link.Idle d.asked := ⟨h.idle.inactive, h.idle.outbox, h.idle.inSlot⟩
    rw [hidle.poll_eq.2, startIfAsked, hasked]
    rfl
  obtain ⟨active, window, samples, lastUploadError, stats, heq, -⟩ := d.asked.ingested_eq
  rw [flushDirect_of_empty (d := d.asked) h.direct] at heq
  refine ⟨hpoll, hasked, hplayer.trans h.player, hwindow, ?_, ?_, ?_⟩
  all_goals rw [starting, heq]
  · exact h.direct
  · exact h.chip
  · exact h.timer

/-- It begins if the player can begin. -/
theorem Resting.start (h : d.Resting player chip) (hover : d.session.active = false)
    (hbegin : player.begin d.window = (.ok (), q)) :
    d.asked.poll.active = true ∧ d.asked.poll.direct.toList = [] ∧
      d.asked.poll.session.startPending = false ∧ d.asked.poll.lastError = none ∧
      d.asked.poll.player = { q with requests := .empty } ∧ d.asked.poll.chip = chip ∧
      d.asked.poll.timer = { manual := true } ∧
      d.asked.poll.upcoming = Outgoing.wire 0 (Link.messages q.requests.toList) ∧
      d.asked.poll.nextNumber = Outgoing.numberAfterAll 0 (Link.messages q.requests.toList) := by
  have hidle : Link.Idle d.asked := ⟨h.idle.inactive, h.idle.outbox, h.idle.inSlot⟩
  have hslot := (hidle.of_quiet d.asked.quiet_ingested).inSlot
  obtain ⟨hpoll, hasked, hplayer, hwindow, hdirect, hchip, htimer⟩ := h.poll_asked hover
  rw [← hplayer, ← hwindow] at hbegin
  have hrefills : d.asked.ingested.startRefills = q.requests.toList := by
    show d.starting.startRefills = _
    rw [startRefills, hbegin]
  obtain ⟨hupcoming, hnext, -⟩ := startIfAsked_upcoming (by rw [hasked]) hslot
  rw [← hidle.poll_eq.2, hrefills] at hupcoming hnext
  rw [startPlayback_of_ok hbegin] at hpoll
  refine ⟨?_, ?_, ?_, ?_, ?_, ?_, ?_, hupcoming, hnext⟩
  all_goals rw [hpoll]
  · exact hdirect
  · rfl
  · exact hchip
  · exact htimer

/-- It does not begin if the player cannot. -/
theorem Resting.start_fails (h : d.Resting player chip) (hover : d.session.active = false)
    {cause : PlayError} (hbegin : player.begin d.window = (.error cause, q)) :
    d.asked.poll.active = false ∧ d.asked.poll.player = q ∧
      d.asked.poll.lastError = some cause := by
  obtain ⟨hpoll, -, hplayer, hwindow, -⟩ := h.poll_asked hover
  rw [hpoll, startPlayback, hplayer, hwindow, hbegin]
  exact ⟨rfl, rfl, rfl⟩

end Device

namespace Bench

open Device

variable {s : Score} {player : Player} {chip : Recorder} {b : Bench}

/-- The bench is about to play the score from its beginning. -/
structure Begun (s : Score) (b : Bench) : Prop where
  course : b.OnCourse s 0 []
  position : b.device.player.position = .enter .linear s.start.toNat s.start
  start : b.device.player.start = s.start
  loop : b.device.player.loop = s.loop
  uncached : b.device.player.loopCached = false
  idle : b.device.player.requests.toList = []
  timer : b.device.timer = { manual := true }
  empty : ∀ i, linearEnd ≤ i → b.device.window.byte i = 0
  upcoming : b.device.upcoming =
    Outgoing.wire 0 (Link.messages (Player.preload (UInt32.ofNat linearEnd)))

/-- What has been asked for follows the linear region. -/
theorem Begun.asked (h : b.Begun s) : b.device.upcoming.filterMap Notification.refillIn =
    Player.preload (UInt32.ofNat linearEnd) := by
  rw [h.upcoming, Outgoing.refillsIn_wire, Link.filterMap_messages]

/-- A playback that is asked for on a device that rests is on course once it begins. -/
theorem start_of_resting (hplayable : s.Playable)
    (hlinear : ∀ i < min s.stream.size linearEnd, b.device.window.byte i = peek s.stream i)
    (hempty : ∀ i, linearEnd ≤ i → b.device.window.byte i = 0)
    (hready : b.device.Ready) (hover : b.device.session.active = false)
    (hresting : b.device.Resting player chip) (hstream : b.host.stream = s.stream)
    (hignored : b.host.ignored = 0) (hallows : player.filter.allows = s.allowed)
    (haccepts : chip.accepts = Recorder.refuseEvery s.every) (hfree : chip.busy = false)
    (hrecording : chip.recording = true) (hwrites : chip.writes = []) :
    ∃ b', b.start = (none, b') ∧ b'.Begun s ∧ b'.config = b.config := by
  obtain ⟨q, f, hbegin, hstart, hloop, hagree, hshows, hmid⟩ := hplayable.starts hlinear player
  obtain ⟨header, -, -, rfl⟩ := Player.begin_eq_ok hbegin
  obtain ⟨hactive, hdirect, hheld, herror, hplayer, hchip, htimer, hupcoming, hnext⟩ :=
    hresting.start hover hbegin
  obtain ⟨hwindow, hready', hover'⟩ :=
    poll_of_over (d := b.device.asked) ⟨hready.inStep, hready.drained⟩ hover
  have hcourse : b.device.asked.poll.OnCourse s b.device.asked.poll.window
      (player.begun header).requests.toList 0 [] := by
    exact {
      active := hactive
      direct := hdirect
      held := hheld
      lastError := herror
      idle := by rw [hplayer]; rfl
      regions := fun r hr => Player.ofRegion_preload r hr
      ready := by
        unfold ChipReplay.Ready at hshows ⊢
        rw [hplayer, hwindow]
        dsimp only
        rw [Fifo.toList_empty, List.append_nil]
        rw [List.nil_append] at hshows
        exact hshows.congr rfl rfl rfl rfl
      midway := ⟨f, by rw [hplayer]; exact { hagree with }, hmid⟩
      accepts := hchip ▸ haccepts
      free := hchip ▸ hfree
      recording := hchip ▸ hrecording
      allows := by
        rw [hplayer, ← hallows]
        exact ChannelFilter.allows_congr rfl rfl rfl
      writes := by rw [hchip, hwrites]; rfl
      total := congrArg Timer.total htimer }
  refine ⟨{ b with host := b.host.resetSequence, device := b.device.asked.poll }, ?_, ?_, rfl⟩
  · rw [Bench.start, request_of_accepted (congrArg Prod.fst (request_startPlayback b.device)),
      request_startPlayback]
    rfl
  · exact {
      course := {
        device := ⟨_, hcourse, _, hupcoming, hnext, Link.filterMap_messages _⟩
        ready := hready'
        inactive := hover'
        stream := hstream
        ignored := hignored
        masked := UInt32.zero_and }
      position := by
        dsimp only
        rw [hplayer, ← hstart]
        rfl
      start := by
        dsimp only
        rw [hplayer]
        exact hstart
      loop := by
        dsimp only
        rw [hplayer]
        exact hloop
      uncached := by
        dsimp only
        rw [hplayer]
        rfl
      idle := hcourse.idle
      timer := htimer
      empty := hwindow ▸ hempty
      upcoming := hupcoming }

/-! ## Both -/

variable {file : ByteArray} {p : Prepared}

/-- The last of the initial uploads fills the linear region. -/
theorem getLast?_initialUploads (hpos : 0 < p.data.size) :
    (Host.ofPrepared p).initialUploads.getLast? =
      some ⟨.window, 0, p.data.extract 0 linearEnd⟩ := by
  rw [initialUploads_eq, linearUploads, if_neg (Nat.ne_of_gt hpos), List.getLast?_concat]

/-- No initial upload reaches behind the linear region. -/
theorem not_fills_initialUploads {u : Upload} (hu : u ∈ (Host.ofPrepared p).initialUploads)
    {i : Nat} (hi : linearEnd ≤ i) : ¬ u.Fills .window i := by
  rintro ⟨hwindow, -, hend⟩
  rw [initialUploads_eq] at hu
  rcases List.mem_append.mp hu with hu | hu
  · obtain ⟨block, -, rfl⟩ := List.mem_map.mp hu
    exact absurd (hwindow.trans block.kind.isSamples_destination) (by decide)
  · unfold linearUploads at hu
    split at hu
    · exact absurd hu List.not_mem_nil
    · obtain rfl := List.mem_singleton.mp hu
      have hsize : (p.data.extract 0 linearEnd).size = min linearEnd p.data.size := by
        rw [ByteArray.size_extract, Nat.sub_zero]
      have hbound : i < 0 + (p.data.extract 0 linearEnd).size := hend
      omega

/-- A bench at power-on whose host has a prepared file makes the initial uploads. The first bytes of
the stream are in the window then, zeros behind the linear region, and the device still rests. -/
theorem uploadAll_of_prepare (deviceConfig : DeviceConfig) (config : BenchConfig)
    (hprepare : prepare file = .ok p) (hpos : 0 < p.data.size) :
    let old := (Bench.new deviceConfig config (.ofPrepared p)).onDevice Device.configure
    ∃ d, old.uploadAll (Host.ofPrepared p).initialUploads = (none, { old with device := d }) ∧
      d.Ready ∧ d.session.active = false ∧ d.Resting old.device.player old.device.chip ∧
      (∀ i < min p.data.size linearEnd, d.window.byte i = peek p.data i) ∧
      ∀ i, linearEnd ≤ i → d.window.byte i = 0 := by
  intro old
  obtain ⟨start, loop, commands, banks, hmade⟩ := made_of_prepare hprepare
  have hready : old.device.Ready :=
    ⟨inStep_run deviceConfig _ _ [.configure], ⟨rfl, rfl, rfl, rfl⟩⟩
  have hresting : old.device.Resting old.device.player old.device.chip :=
    ⟨⟨rfl, Fifo.toList_empty, rfl⟩, rfl, Fifo.toList_empty, rfl, rfl, rfl⟩
  obtain ⟨d, huploads, hready', hover, hresting', hkept, hlast⟩ :=
    uploadAll_of_resting hmade.fits_initialUploads hready rfl hresting
  refine ⟨d, huploads, hready', hover, hresting', fun i hi => ?_, fun i hi => ?_⟩
  · have hsize : (p.data.extract 0 linearEnd).size = min linearEnd p.data.size := by
      rw [ByteArray.size_extract, Nat.sub_zero]
    have hbyte : d.window.byte i = peek (p.data.extract 0 linearEnd) (i - 0) :=
      hlast _ (getLast?_initialUploads hpos) .window i ⟨rfl, Nat.zero_le _, by
        show i < 0 + (p.data.extract 0 linearEnd).size
        omega⟩
    rw [hbyte, peek_extract, Nat.sub_zero, Nat.zero_add, if_pos (by omega)]
  · have hold : old.device.window = Window.zero := rfl
    rw [← memory_window, hkept .window i fun u hu => not_fills_initialUploads hu hi, memory_window,
      hold, Window.byte_zero]

/-- A bench at power-on whose host has a prepared file that is playable is set up, and then about to
play it. -/
theorem setUp_of_playable (deviceConfig : DeviceConfig) (config : BenchConfig)
    (hprepare : prepare file = .ok p) (hplayable : s.Playable) (hstream : s.stream = p.data)
    (hevery : s.every = config.busyEvery) (hallowed : s.allowed = deviceConfig.allows)
    (hrecord : config.recordWrites = true) :
    ∃ ready, (Bench.new deviceConfig config (.ofPrepared p)).setUp = (none, ready) ∧
      ready.Begun s ∧ ready.config = config := by
  have hpos : 0 < p.data.size :=
    hstream ▸ Nat.lt_of_le_of_lt (Nat.zero_le _) hplayable.first_pass.lt_size
  obtain ⟨d, huploads, hready, hover, hresting, hlinear, hempty⟩ :=
    uploadAll_of_prepare deviceConfig config hprepare hpos
  let old := (Bench.new deviceConfig config (.ofPrepared p)).onDevice Device.configure
  obtain ⟨b', hstart, hbegun, hconfig⟩ := start_of_resting (b := { old with device := d })
    hplayable (hstream ▸ hlinear) hempty hready hover hresting hstream.symm rfl hallowed.symm
    (by rw [hevery]; rfl) rfl hrecord rfl
  refine ⟨b', ?_, hbegun, hconfig⟩
  show Progress.andThen (old.uploadAll (Host.ofPrepared p).initialUploads) Bench.start = _
  rw [huploads]
  exact hstart

/-- So is one whose host has a file that is prepared, ends its stream and begins in the linear
region. -/
theorem setUp_of_prepare (h : prepare file = .ok p) (hend : p.stats.endOfStream = true)
    (hsize : file.size + 0x8000 < 2 ^ 32) (hstart : Stream.start file < linearEnd)
    (deviceConfig : DeviceConfig) (config : BenchConfig) (hrecord : config.recordWrites = true) :
    ∃ s ready, (Bench.new deviceConfig config (.ofPrepared p)).setUp = (none, ready) ∧
      s.Playable ∧ ready.Begun s ∧ ready.config = config ∧ s.stream = p.data ∧
      s.start = UInt32.ofNat (Stream.start file) ∧ s.start.toNat = Stream.start file ∧
      HeaderField.loopOffset.resolve p.data = .ok s.loop ∧ s.allowed = deviceConfig.allows := by
  obtain ⟨loop, first, later, hplayable, hresolve, -⟩ := playable_from_start h hend hsize hstart
  let s : Score := ⟨p.data, UInt32.ofNat (Stream.start file), loop, first, later, config.busyEvery,
    deviceConfig.allows⟩
  obtain ⟨ready, hsetUp, hbegun, hconfig⟩ :=
    setUp_of_playable (s := s) deviceConfig config h hplayable rfl rfl rfl hrecord
  exact ⟨s, ready, hsetUp, hplayable, hbegun, hconfig, rfl, rfl,
    UInt32.toNat_ofNat_of_lt' (Nat.lt_trans hstart (by decide)), hresolve, rfl⟩

end Bench
end ChipReplay
