import ChipReplay.Device.Live
import ChipReplay.Device.Poll
import ChipReplay.Proofs.Player.Bounds
/-!
# Runs of the device

A run is a list of events: what the host sends and reads, what the user does, how the chip and the
timer change, and polls. Two things live here: `Device.run`, and what each part of an event leaves
unchanged, said as equations between whole devices.
-/

namespace ChipReplay
namespace Device

/-- What may happen to a device. -/
inductive Event where
  /-- The host configures the device. -/
  | configure
  /-- The host makes a control transfer. -/
  | control (setup : Setup) (data : ByteArray)
  /-- The host sends a bulk packet. -/
  | push (packet : Packet)
  /-- The host reads the notification slot. -/
  | read
  | poll
  /-- The user does something. -/
  | live (event : LiveEvent)
  /-- The timer counts, or runs out. -/
  | time (change : Timer → Timer)
  /-- The chip takes a write, or becomes busy. -/
  | chip (change : Recorder → Recorder)

/-- The device after an event. -/
def react (d : Device) : Event → Device
  | .configure => d.configure
  | .control setup data => (d.control setup data).2
  | .push packet => { d with endpoint := d.endpoint.push packet }
  | .read => { d with endpoint := d.endpoint.takeIn.2 }
  | .poll => d.poll
  | .live event => d.live event
  | .time change => { d with timer := change d.timer }
  | .chip change => { d with chip := change d.chip }

/-- The device after the events, one after the other. -/
def run (d : Device) (events : List Event) : Device := events.foldl react d

theorem run_append (d : Device) (first later : List Event) :
    d.run (first ++ later) = (d.run first).run later := List.foldl_append

/-- What every event keeps, a run keeps. -/
theorem run_keeps {P : Device → Prop} (hreact : ∀ d e, P d → P (react d e)) {d : Device}
    (h : P d) (events : List Event) : P (d.run events) :=
  List.foldlRecOn events react h fun d hd e _ => hreact d e hd

/-! ## Storing -/

/-- The packet that the next poll stores. -/
def polled (d : Device) : Option Chunk := (d.session.poll d.endpoint).1.toOption.join

/-- A packet for the window may end the playback, and is stored if it fits. -/
theorem storeWindow_eq (d : Device) (offset : Nat) (bytes : ByteArray) :
    ∃ active window lastUploadError,
      d.storeWindow offset bytes = { d with active, window, lastUploadError } ∧
      (active = true → d.active = true) ∧
      (window = d.window ∨ ∃ h : offset + bytes.size ≤ windowSize,
        window = d.window.put offset bytes h) := by
  -- whether the playback ends here is decided before the packet is looked at
  obtain ⟨active, hactive, hstopped⟩ : ∃ active, (active = true → d.active = true) ∧
      (if d.config.stopOnLinearUpload && d.active && offset < linearEnd then d.stopPlayback
        else d) = { d with active } := by
    split
    · exact ⟨false, fun h => absurd h (by decide), rfl⟩
    · exact ⟨d.active, id, rfl⟩
  rw [storeWindow, hstopped]
  by_cases hfits : offset + bytes.size ≤ windowSize
  · dsimp only
    rw [dif_pos hfits]
    exact ⟨_, _, _, rfl, hactive, .inr ⟨hfits, rfl⟩⟩
  · dsimp only
    rw [dif_neg hfits]
    exact ⟨_, _, _, rfl, hactive, .inl rfl⟩

/-- A packet for sample memory ends the playback, and is stored if it fits. -/
theorem storeSamples_eq (d : Device) (offset : Nat) (bytes : ByteArray) :
    ∃ samples lastUploadError,
      d.storeSamples offset bytes = { d with active := false, samples, lastUploadError } ∧
      (samples.data = d.samples.data ∨ offset + bytes.size ≤ sampleMemorySize ∧
        samples.data = (d.samples.write offset (Bytes.swapWords bytes)).data) := by
  unfold storeSamples
  by_cases hfits : offset + bytes.size ≤ sampleMemorySize
  · dsimp only
    rw [if_pos hfits]
    exact ⟨_, _, rfl, .inr ⟨hfits, rfl⟩⟩
  · dsimp only
    rw [if_neg hfits]
    exact ⟨_, _, rfl, .inl rfl⟩

/-- The window after a packet has been stored, if one has: the packet lies inside. -/
def StoredWindow (w w' : Window) (packet : Option Chunk) : Prop :=
  w' = w ∨ ∃ c, packet = some c ∧ ∃ h : c.offset + c.bytes.size ≤ windowSize,
    w' = w.put c.offset c.bytes h

/-- Sample memory after a packet has been stored, if one has: the packet lies inside. -/
def StoredSamples (m m' : SampleMemory) (packet : Option Chunk) : Prop :=
  m'.data = m.data ∨ ∃ c, packet = some c ∧ c.offset + c.bytes.size ≤ sampleMemorySize ∧
    m'.data = (m.write c.offset (Bytes.swapWords c.bytes)).data

theorem store_eq (d : Device) (c : Chunk) :
    ∃ active window samples lastUploadError stats,
      d.store c = { d with active, window, samples, lastUploadError, stats } ∧
      (active = true → d.active = true) ∧
      StoredWindow d.window window (some c) ∧ StoredSamples d.samples samples (some c) := by
  unfold store
  dsimp only
  split
  · obtain ⟨samples, lastUploadError, heq, hsamples⟩ :=
      storeSamples_eq { d with stats := { d.stats with
        packets := d.stats.packets + 1
        bytesReceived := d.stats.bytesReceived + c.bytes.size } } c.offset c.bytes
    rw [heq]
    exact ⟨_, _, _, _, _, rfl, fun h => absurd h (by decide), .inl rfl,
      hsamples.imp_right fun h => ⟨c, rfl, h⟩⟩
  · obtain ⟨active, window, lastUploadError, heq, hactive, hwindow⟩ :=
      storeWindow_eq { d with stats := { d.stats with
        packets := d.stats.packets + 1
        bytesReceived := d.stats.bytesReceived + c.bytes.size } } c.offset c.bytes
    rw [heq]
    exact ⟨_, _, _, _, _, rfl, hactive, hwindow.imp_right fun h => ⟨c, rfl, h⟩, .inl rfl⟩

/-! ## The parts of a poll -/

/-- There is nothing to flush if no write waits. -/
theorem flushDirect_of_empty {d : Device} (h : d.direct.toList = []) : d.flushDirect = d := by
  have hpop := (Fifo.pop?_eq_none_iff d.direct).mpr h
  have hflush : WriteQueue.flush d.direct d.chip = (true, d.direct, d.chip) := by
    rw [WriteQueue.flush]
    split
    · rfl
    · next hsome => exact absurd (hpop.symm.trans hsome) (by simp)
  rw [flushDirect, hflush]

theorem ingest_eq (d : Device) :
    ∃ active window samples lastUploadError stats,
      d.ingest = { d with
        session := (d.session.poll d.endpoint).2.1
        endpoint := (d.session.poll d.endpoint).2.2
        active, window, samples, lastUploadError, stats } ∧
      (active = true → d.active = true) ∧
      StoredWindow d.window window d.polled ∧ StoredSamples d.samples samples d.polled := by
  unfold ingest polled
  -- an overrun, no packet, and a packet
  rcases d.session.poll d.endpoint with ⟨_ | _ | c, session, endpoint⟩
  · exact ⟨_, _, _, _, _, rfl, id, .inl rfl, .inl rfl⟩
  · exact ⟨_, _, _, _, _, rfl, id, .inl rfl, .inl rfl⟩
  · obtain ⟨active, window, samples, lastUploadError, stats, heq, hstored⟩ :=
      store_eq { d with session, endpoint } c
    dsimp only
    rw [heq]
    exact ⟨_, _, _, _, _, rfl, hstored⟩

/-- The device in the middle of a poll, once the queued writes have gone to the chip and a packet
has been stored. -/
def ingested (d : Device) : Device :=
  ({ d with stats := { d.stats with polls := d.stats.polls + 1 } } : Device).flushDirect.ingest

theorem poll_eq (d : Device) : d.poll = d.ingested.stepIfDue.sendMessages.startIfAsked := rfl

/-- A packet that is stored may end the playback, but starts none. -/
theorem ingested_eq (d : Device) :
    ∃ active window samples lastUploadError stats,
      d.ingested = { d with
        chip := d.flushDirect.chip
        direct := d.flushDirect.direct
        session := (d.session.poll d.endpoint).2.1
        endpoint := (d.session.poll d.endpoint).2.2
        active, window, samples, lastUploadError, stats } ∧
      (active = true → d.active = true) ∧
      StoredWindow d.window window d.polled ∧ StoredSamples d.samples samples d.polled := by
  obtain ⟨active, window, samples, lastUploadError, stats, heq, hstored⟩ :=
    ingest_eq ({ d with stats := { d.stats with polls := d.stats.polls + 1 } } : Device).flushDirect
  unfold ingested
  rw [heq]
  exact ⟨_, _, _, _, _, rfl, hstored⟩

/-- An update changes what the player, the chip and the timer are, and sends the refills that the
player asks for to the outbox. -/
theorem step_eq (d : Device) :
    ∃ active voices direct lastError stats,
      d.step = { d with
        player := { (d.player.update d.window d.chip d.timer).player with requests := .empty }
        chip := (d.player.update d.window d.chip d.timer).chip
        timer := (d.player.update d.window d.chip d.timer).timer
        outbox := (d.outbox.pushAll
          ((d.player.update d.window d.chip d.timer).request.toList.map .refill)).pushAll
            ((d.player.update d.window d.chip d.timer).player.requests.toList.map .refill)
        active, voices, direct, lastError, stats } := by
  unfold step
  generalize d.player.update d.window d.chip d.timer = u
  dsimp only
  split
  · next e _ =>
    by_cases hfatal : e.isFatal = true
    · rw [if_pos hfatal]
      exact ⟨_, _, _, _, _, rfl⟩
    · rw [if_neg hfatal]
      exact ⟨_, _, _, _, _, rfl⟩
  · exact ⟨_, _, _, _, _, rfl⟩

/-- A start that succeeds empties the outbox but for the status report and the refills that the
player asks for. -/
theorem startPlayback_of_ok {d : Device} {q : Player}
    (h : d.player.begin d.window = (.ok (), q)) :
    d.startPlayback = { d with
      player := { q with requests := .empty }
      session := d.session.resetSequence
      outbox := (Fifo.empty.push (.status Notification.playbackStarted)).pushAll
        (q.requests.toList.map .refill)
      samples := d.samples.setPcmEnabled true
      lastError := none
      active := true } := by
  unfold startPlayback
  rw [h]
  rfl

/-- A start that fails leaves nothing but the status report in the outbox. -/
theorem startPlayback_of_error {d : Device} {q : Player} {e : PlayError}
    (h : d.player.begin d.window = (.error e, q)) :
    ∃ active voices direct lastError,
      d.startPlayback = { d with
        player := q
        session := d.session.resetSequence
        outbox := Fifo.empty.push (.status Notification.playbackStarted)
        active, voices, direct, lastError } := by
  unfold startPlayback
  rw [h]
  exact ⟨_, _, _, _, rfl⟩

theorem sendUpTo_eq (limit : Nat) (d : Device) :
    ∃ session endpoint outbox stats,
      d.sendUpTo limit = { d with session, endpoint, outbox, stats } := by
  induction limit generalizing d with
  | zero => exact ⟨_, _, _, _, rfl⟩
  | succ limit ih =>
    unfold sendUpTo
    split
    · exact ⟨_, _, _, _, rfl⟩
    · split
      · next session endpoint _ =>
        obtain ⟨session, endpoint, outbox, stats, heq⟩ := ih _
        rw [heq]
        exact ⟨_, _, _, _, rfl⟩
      · exact ⟨_, _, _, _, rfl⟩

/-! ## Live control -/

/-- `d'` is `d` but for what the user can change. -/
def Steered (d d' : Device) : Prop :=
  ∃ filter direct voices midi pcmMuted,
    d' = { d with player := { d.player with filter }, direct, voices, midi, pcmMuted }

theorem Steered.trans {d₁ d₂ d₃ : Device} (h : Steered d₁ d₂) (h' : Steered d₂ d₃) :
    Steered d₁ d₃ := by
  obtain ⟨_, _, _, _, _, rfl⟩ := h
  obtain ⟨_, _, _, _, _, rfl⟩ := h'
  exact ⟨_, _, _, _, _, rfl⟩

theorem steered_setMask (d : Device) (mask : ChannelSet) : Steered d (d.setMask mask) :=
  ⟨_, _, _, _, _, rfl⟩

theorem steered_setPitchFilter (d : Device) (on : Bool) : Steered d (d.setPitchFilter on) :=
  ⟨_, _, _, _, _, rfl⟩

theorem steered_setPcmMuted (d : Device) (on : Bool) : Steered d (d.setPcmMuted on) := by
  unfold setPcmMuted
  split
  · exact ⟨_, _, _, _, _, rfl⟩
  · exact ⟨_, _, _, _, _, rfl⟩

theorem steered_midiByte (d : Device) (byte : UInt8) : Steered d (d.midiByte byte) := by
  unfold midiByte
  rcases d.midi.push byte with ⟨_ | message, midi⟩
  · exact ⟨_, _, _, _, _, rfl⟩
  · cases message with
    | noteOn => exact ⟨_, _, _, _, _, rfl⟩
    | noteOff => exact ⟨_, _, _, _, _, rfl⟩
    | unsupported => exact ⟨_, _, _, _, _, rfl⟩

/-- The user changes the filter, the voices and the writes that wait, and nothing else. -/
theorem steered_live (d : Device) (event : LiveEvent) : Steered d (d.live event) := by
  cases event with
  | setMask mask => exact steered_setMask d mask
  | solo channel => exact steered_setMask d _
  | unmuteAll =>
    exact ((steered_setMask d .all).trans (steered_setPitchFilter _ false)).trans
      (steered_setPcmMuted _ false)
  | setPitchFilter on => exact steered_setPitchFilter d on
  | setPcmMuted on => exact steered_setPcmMuted d on
  | midi byte => exact steered_midiByte d byte

end Device
end ChipReplay
