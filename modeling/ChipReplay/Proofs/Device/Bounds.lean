import ChipReplay.Proofs.Device.Run
/-!
# The device stays in bounds

Whatever the host sends and the user does, the cursor of the player stays in its region, so that
every byte it reads lies in the window, and everything that is stored lies in the window or in
sample memory. `Bounded` is what carries this from event to event; a full packet is the most that
one poll takes (`size_le_of_polled`).
-/

namespace ChipReplay

/-! ## Sample memory -/

namespace SampleMemory

theorem size_extend (data : ByteArray) (size : Nat) :
    (extend data size).size = max data.size size := by
  unfold extend
  split
  · rw [ByteArray.size_append, Bytes.size_zeros]
    omega
  · omega

/-- A write reaches as far as its last byte, unless more has been written before. -/
theorem size_write (m : SampleMemory) (offset : Nat) (bytes : ByteArray) :
    (m.write offset bytes).data.size = max m.data.size (offset + bytes.size) := by
  have hextended := size_extend m.data (offset + bytes.size)
  show (Bytes.overwrite _ offset bytes).size = _
  rw [Bytes.size_overwrite (by omega), hextended]

end SampleMemory

/-! ## Packets -/

theorem Endpoint.size_payload {e : Endpoint} {d : Descriptor} {length : Nat}
    (h : e.arrival d = .received length) : (e.payload d).size = length := by
  unfold arrival at h
  unfold payload
  split at h
  · next bytes hslot =>
    rw [hslot]
    exact Arrival.received.inj h
  · exact absurd h (by simp)
  · exact absurd h (by simp)
  · exact absurd h (by simp)

/-- A packet that is taken has a byte, and no more than a full packet has. -/
theorem Session.size_le_of_poll {s : Session} {e : Endpoint} {c : Chunk}
    (h : (s.poll e).1 = .ok (some c)) : 0 < c.bytes.size ∧ c.bytes.size ≤ packetSize := by
  unfold poll at h
  split at h
  · dsimp only at h
    split at h
    · exact absurd h (by simp)
    · exact absurd h (by simp)
    · next length harrival =>
      have hsize := Endpoint.size_payload harrival
      split at h
      · exact absurd h (by simp)
      · by_cases hdropped : length = 0 ∨ packetSize < length
        · rw [if_pos hdropped] at h
          exact absurd h (by simp)
        · rw [if_neg hdropped] at h
          obtain rfl := Option.some.inj (Except.ok.inj h)
          dsimp only
          omega
  · exact absurd h (by simp)

namespace Device

theorem size_le_of_polled {d : Device} {c : Chunk} (h : d.polled = some c) :
    0 < c.bytes.size ∧ c.bytes.size ≤ packetSize := by
  unfold polled at h
  rcases hpoll : (d.session.poll d.endpoint).1 with _ | _ | c'
  · simp [hpoll, Except.toOption] at h
  · simp [hpoll, Except.toOption] at h
  · obtain rfl : c' = c := by simpa [hpoll, Except.toOption] using h
    exact Session.size_le_of_poll hpoll

/-! ## The invariant -/

/-- The player is safe, and sample memory is no larger than it may be. -/
structure Bounded (d : Device) : Prop where
  player : d.player.Safe
  samples : d.samples.data.size ≤ sampleMemorySize

theorem StoredSamples.size_le {m m' : SampleMemory} {packet : Option Chunk}
    (h : StoredSamples m m' packet) (hm : m.data.size ≤ sampleMemorySize) :
    m'.data.size ≤ sampleMemorySize := by
  rcases h with heq | ⟨c, -, hfits, heq⟩
  · rw [heq]
    exact hm
  · rw [heq, SampleMemory.size_write, Bytes.size_swapWords]
    omega

namespace Bounded

variable {d : Device}

theorem new (config : DeviceConfig) (chip : Recorder) (timer : Timer) :
    (Device.new config chip timer).Bounded := by
  exact ⟨Player.safe_initial.congr rfl rfl rfl rfl rfl, Nat.zero_le _⟩

theorem ingested (h : d.Bounded) : d.ingested.Bounded := by
  obtain ⟨active, window, samples, lastUploadError, stats, heq, -, -, hsamples⟩ := d.ingested_eq
  rw [heq]
  exact ⟨h.player, hsamples.size_le h.samples⟩

theorem step (h : d.Bounded) : d.step.Bounded := by
  have hupdate := h.player.update d.window d.chip d.timer
  obtain ⟨active, voices, direct, lastError, stats, heq⟩ := d.step_eq
  rw [heq]
  exact ⟨hupdate.congr rfl rfl rfl rfl rfl, h.samples⟩

theorem startPlayback (h : d.Bounded) : d.startPlayback.Bounded := by
  have hbegin := h.player.begin d.window
  rcases hresult : d.player.begin d.window with ⟨e | _, q⟩
  · obtain ⟨active, voices, direct, lastError, heq⟩ := startPlayback_of_error hresult
    rw [heq]
    rw [hresult] at hbegin
    exact ⟨hbegin, h.samples⟩
  · rw [startPlayback_of_ok hresult]
    rw [hresult] at hbegin
    exact ⟨hbegin.congr rfl rfl rfl rfl rfl, h.samples⟩

theorem stepIfDue (h : d.Bounded) : d.stepIfDue.Bounded := by
  unfold Device.stepIfDue
  split
  · exact h.step
  · exact h

theorem sendMessages (h : d.Bounded) : d.sendMessages.Bounded := by
  obtain ⟨session, endpoint, outbox, stats, heq⟩ := sendUpTo_eq 2 d
  rw [Device.sendMessages, heq]
  exact ⟨h.player, h.samples⟩

theorem startIfAsked (h : d.Bounded) : d.startIfAsked.Bounded := by
  unfold Device.startIfAsked
  dsimp only
  split
  · exact startPlayback ⟨h.player, h.samples⟩
  · exact ⟨h.player, h.samples⟩

theorem poll (h : d.Bounded) : d.poll.Bounded :=
  h.ingested.stepIfDue.sendMessages.startIfAsked

theorem live (h : d.Bounded) (event : LiveEvent) : (d.live event).Bounded := by
  obtain ⟨filter, direct, voices, midi, pcmMuted, heq⟩ := d.steered_live event
  rw [heq]
  exact ⟨h.player.congr rfl rfl rfl rfl rfl, h.samples⟩

theorem react (h : d.Bounded) (e : Event) : (d.react e).Bounded := by
  cases e with
  | configure => exact ⟨h.player, h.samples⟩
  | control setup data => exact ⟨h.player, h.samples⟩
  | push packet => exact ⟨h.player, h.samples⟩
  | read => exact ⟨h.player, h.samples⟩
  | poll => exact h.poll
  | live event => exact h.live event
  | time change => exact ⟨h.player, h.samples⟩
  | chip change => exact ⟨h.player, h.samples⟩

end Bounded

/-! ## What a poll touches -/

/-- The window offsets that the next poll reads. -/
def polledReads (d : Device) : List Nat :=
  let d := d.ingested
  if d.active && d.timer.elapsed && d.direct.isEmpty then d.player.reads d.window d.chip else []

/-- The packet that an event stores. -/
def storedBy (d : Device) : Event → Option Chunk
  | .poll => d.polled
  | _ => none

theorem stepIfDue_stores (d : Device) :
    d.stepIfDue.window = d.window ∧ d.stepIfDue.samples = d.samples := by
  unfold stepIfDue
  split
  · obtain ⟨active, voices, direct, lastError, stats, heq⟩ := d.step_eq
    rw [heq]
    exact ⟨rfl, rfl⟩
  · exact ⟨rfl, rfl⟩

theorem sendMessages_stores (d : Device) :
    d.sendMessages.window = d.window ∧ d.sendMessages.samples = d.samples := by
  obtain ⟨session, endpoint, outbox, stats, heq⟩ := sendUpTo_eq 2 d
  rw [sendMessages, heq]
  exact ⟨rfl, rfl⟩

theorem startPlayback_stores (d : Device) :
    d.startPlayback.window = d.window ∧ d.startPlayback.samples.data = d.samples.data := by
  rcases hresult : d.player.begin d.window with ⟨e | _, q⟩
  · obtain ⟨active, voices, direct, lastError, heq⟩ := startPlayback_of_error hresult
    rw [heq]
    exact ⟨rfl, rfl⟩
  · rw [startPlayback_of_ok hresult]
    exact ⟨rfl, rfl⟩

theorem startIfAsked_stores (d : Device) :
    d.startIfAsked.window = d.window ∧ d.startIfAsked.samples.data = d.samples.data := by
  unfold startIfAsked
  dsimp only
  split
  · exact startPlayback_stores _
  · exact ⟨rfl, rfl⟩

/-- A poll stores the packet it takes, and nothing else. -/
theorem poll_stores (d : Device) :
    StoredWindow d.window d.poll.window d.polled ∧
    StoredSamples d.samples d.poll.samples d.polled := by
  obtain ⟨active, window, samples, lastUploadError, stats, heq, -, hwindow, hsamples⟩ :=
    d.ingested_eq
  have hstep := d.ingested.stepIfDue_stores
  have hsend := d.ingested.stepIfDue.sendMessages_stores
  have hstart := d.ingested.stepIfDue.sendMessages.startIfAsked_stores
  -- only the first part of a poll stores anything
  have hpollWindow : d.poll.window = window := by
    rw [poll_eq, hstart.1, hsend.1, hstep.1, heq]
  have hpollSamples : d.poll.samples.data = samples.data := by
    rw [poll_eq, hstart.2, hsend.2, hstep.2, heq]
  rw [hpollWindow]
  unfold StoredSamples
  rw [hpollSamples]
  exact ⟨hwindow, hsamples⟩

/-- No event but a poll stores anything. -/
theorem react_stores (d : Device) (e : Event) :
    StoredWindow d.window (d.react e).window (d.storedBy e) ∧
    StoredSamples d.samples (d.react e).samples (d.storedBy e) := by
  cases e with
  | poll => exact d.poll_stores
  | live event =>
    obtain ⟨filter, direct, voices, midi, pcmMuted, heq⟩ := d.steered_live event
    show StoredWindow _ (d.live event).window _ ∧ StoredSamples _ (d.live event).samples _
    rw [heq]
    exact ⟨.inl rfl, .inl rfl⟩
  | configure | control | push | read | time | chip => exact ⟨.inl rfl, .inl rfl⟩

/-- The device stays in bounds whatever the host sends, the user does, and the chip and the timer
answer. At any point of any run:

* the cursor lies in its region, and not before the place where it entered;
* the bytes that the player reads in the next poll lie in the window;
* sample memory is no larger than it may be;
* the packet that the next poll stores is no larger than a full one;
* the next event stores no more than that packet, and it lies inside the window or inside sample
  memory. -/
theorem stays_in_bounds (config : DeviceConfig) (chip : Recorder) (timer : Timer)
    (events : List Event) :
    let d := (Device.new config chip timer).run events
    (d.player.position.region.start ≤ d.player.position.entered ∧
      d.player.position.entered ≤ d.player.position.cursor ∧
      d.player.position.cursor ≤ d.player.position.region.stop) ∧
    (∀ i ∈ d.polledReads, i < windowSize) ∧
    d.samples.data.size ≤ sampleMemorySize ∧
    (∀ c, d.polled = some c → 0 < c.bytes.size ∧ c.bytes.size ≤ packetSize) ∧
    ∀ e, StoredWindow d.window (d.react e).window (d.storedBy e) ∧
      StoredSamples d.samples (d.react e).samples (d.storedBy e) := by
  intro d
  have hbounded : d.Bounded :=
    run_keeps (P := Bounded) (fun _ e h => h.react e) (.new config chip timer) events
  have hinside := hbounded.player.inBounds.inside
  refine ⟨⟨hinside.start_le, hinside.entered_le, hinside.le_stop⟩, ?_, hbounded.samples,
    fun c => size_le_of_polled, d.react_stores⟩
  intro i hi
  unfold polledReads at hi
  dsimp only at hi
  split at hi
  · exact hbounded.ingested.player.lt_of_mem_reads hi
  · exact absurd hi List.not_mem_nil

end Device
end ChipReplay
