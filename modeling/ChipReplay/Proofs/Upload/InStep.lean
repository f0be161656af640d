import ChipReplay.Proofs.Device.Bounds
import ChipReplay.Proofs.Upload.Descriptors
/-!
# Session and endpoint stay in step

Whenever the bulk endpoint of a device is enabled, the packets that it holds stand in order behind
the descriptor that the session looks at next (`Session.InStep`, for every run `Device.inStep_run`).
So what a poll takes is the first of them. Nothing else in a poll touches the upload: what it does
to the player and to the messages leaves session and endpoint as `Device.SameUpload` says.
-/

namespace ChipReplay

/-! ## What does not touch the upload -/

/-- Both sessions are equally far with the same upload. -/
structure Session.SameUpload (s s' : Session) : Prop where
  destination : s'.destination = s.destination
  write : s'.write = s.write
  stop : s'.stop = s.stop
  active : s'.active = s.active
  turn : s'.turn = s.turn

/-- Both endpoints hold the same packets. -/
structure Endpoint.SamePackets (e e' : Endpoint) : Prop where
  enabled : e'.enabled = e.enabled
  first : e'.first = e.first
  second : e'.second = e.second
  turn : e'.turn = e.turn
  queue : e'.queue = e.queue

theorem Endpoint.SamePackets.slot {e e' : Endpoint} (h : e.SamePackets e') (d : Descriptor) :
    e'.slot d = e.slot d := by
  cases d
  · exact h.first
  · exact h.second

theorem Endpoint.Holds.congr {e e' : Endpoint} {d : Descriptor} {ps : List Packet}
    (h : e.Holds d ps) (hsame : e.SamePackets e') : e'.Holds d ps := by
  refine ⟨hsame.enabled.trans h.enabled, ?_, ?_⟩
  · match ps, h.lined with
    | [], ⟨hslot, hother, hturn⟩ =>
      exact ⟨(hsame.slot d).trans hslot, (hsame.slot _).trans hother, hsame.turn.trans hturn⟩
    | [_], ⟨hslot, hother, hturn⟩ =>
      exact ⟨(hsame.slot d).trans hslot, (hsame.slot _).trans hother, hsame.turn.trans hturn⟩
    | _ :: _ :: _, ⟨hslot, hother, hturn⟩ =>
      exact ⟨(hsame.slot d).trans hslot, (hsame.slot _).trans hother, hsame.turn.trans hturn⟩
  · rw [hsame.queue, h.queue]

/-- Both devices are equally far with the same upload, and hold the same packets. -/
structure Device.SameUpload (d d' : Device) : Prop where
  session : d.session.SameUpload d'.session
  endpoint : d.endpoint.SamePackets d'.endpoint

namespace Device

theorem SameUpload.refl (d : Device) : d.SameUpload d :=
  ⟨⟨rfl, rfl, rfl, rfl, rfl⟩, ⟨rfl, rfl, rfl, rfl, rfl⟩⟩

theorem SameUpload.trans {d₁ d₂ d₃ : Device} (h : d₁.SameUpload d₂) (h' : d₂.SameUpload d₃) :
    d₁.SameUpload d₃ where
  session := {
    destination := h'.session.destination.trans h.session.destination
    write := h'.session.write.trans h.session.write
    stop := h'.session.stop.trans h.session.stop
    active := h'.session.active.trans h.session.active
    turn := h'.session.turn.trans h.session.turn }
  endpoint := {
    enabled := h'.endpoint.enabled.trans h.endpoint.enabled
    first := h'.endpoint.first.trans h.endpoint.first
    second := h'.endpoint.second.trans h.endpoint.second
    turn := h'.endpoint.turn.trans h.endpoint.turn
    queue := h'.endpoint.queue.trans h.endpoint.queue }

theorem SameUpload.of_eq {d d' : Device} (hsession : d'.session = d.session)
    (hendpoint : d'.endpoint = d.endpoint) : d.SameUpload d' := by
  refine ⟨?_, ?_⟩
  · rw [hsession]
    exact ⟨rfl, rfl, rfl, rfl, rfl⟩
  · rw [hendpoint]
    exact ⟨rfl, rfl, rfl, rfl, rfl⟩

theorem sameUpload_sendUpTo (limit : Nat) (d : Device) : d.SameUpload (d.sendUpTo limit) := by
  induction limit generalizing d with
  | zero => exact .refl d
  | succ limit ih =>
    unfold sendUpTo
    split
    · exact .refl d
    · next m outbox _ =>
      rw [sendMessage_eq]
      by_cases hbusy : d.endpoint.isBusy = true
      · rw [if_pos hbusy]
        exact .of_eq rfl rfl
      -- a message that goes out changes the number and the slot for messages
      · rw [if_neg hbusy]
        refine SameUpload.trans ?_ (ih _)
        exact ⟨⟨rfl, rfl, rfl, rfl, rfl⟩, ⟨rfl, rfl, rfl, rfl, rfl⟩⟩

theorem sameUpload_startIfAsked (d : Device) : d.SameUpload d.startIfAsked := by
  have htaken : d.session.SameUpload d.session.takeStart.2 := by
    unfold Session.takeStart
    split <;> exact ⟨rfl, rfl, rfl, rfl, rfl⟩
  unfold startIfAsked
  dsimp only
  split
  · obtain ⟨-, hsession, hendpoint⟩ :=
      startPlayback_outbox { d with session := d.session.takeStart.2 }
    refine SameUpload.mk ?_ ?_
    · rw [hsession]
      exact ⟨htaken.destination, htaken.write, htaken.stop, htaken.active, htaken.turn⟩
    · rw [hendpoint]
      exact ⟨rfl, rfl, rfl, rfl, rfl⟩
  · exact ⟨htaken, ⟨rfl, rfl, rfl, rfl, rfl⟩⟩

theorem sameUpload_poll (d : Device) : d.ingested.SameUpload d.poll := by
  obtain ⟨-, hsession, hendpoint⟩ := d.ingested.stepIfDue_outbox
  rw [poll_eq]
  exact ((SameUpload.of_eq hsession hendpoint).trans (sameUpload_sendUpTo 2 _)).trans
    (sameUpload_startIfAsked _)

/-- After a poll, the upload stands where the packet that was taken has left it. -/
theorem sameUpload_polled (d : Device) :
    (d.session.poll d.endpoint).2.1.SameUpload d.poll.session ∧
      (d.session.poll d.endpoint).2.2.SamePackets d.poll.endpoint := by
  obtain ⟨active, window, samples, lastUploadError, stats, heq, -⟩ := d.ingested_eq
  have hsame := d.sameUpload_poll
  rw [heq] at hsame
  exact ⟨hsame.session, hsame.endpoint⟩

end Device

/-! ## Polls and requests -/

namespace Session

variable {s : Session} {e : Endpoint} {ps : List Packet}

/-- Without a packet nothing happens. -/
theorem poll_of_drained (h : e.Holds s.turn []) : s.poll e = (.ok none, s, e) := by
  have hpending : e.arrival s.turn = .pending := by rw [Endpoint.arrival, h.lined.1]
  unfold poll
  split
  · dsimp only
    rw [hpending]
  · rfl

/-- A transfer that ended with an error is passed over. -/
theorem poll_of_invalid {destination : Destination} (hactive : s.active = true)
    (hdestination : s.destination = some destination) (h : e.Holds s.turn (.invalid :: ps)) :
    s.poll e = (.ok none, s.rearm e s.turn) := by
  have hready : (s.active && e.enabled) = true := by rw [hactive, h.enabled]; rfl
  have harrival : e.arrival s.turn = .invalid := by rw [Endpoint.arrival, h.slot]; rfl
  rw [poll, hready, hdestination]
  dsimp only
  rw [harrival]

/-- A packet that fits in the upload moves the position, and is handed on unless it is empty. -/
theorem poll_of_data {destination : Destination} {bytes : ByteArray} (hactive : s.active = true)
    (hdestination : s.destination = some destination) (h : e.Holds s.turn (.data bytes :: ps))
    (hfits : bytes.size ≤ s.remaining) (hsize : bytes.size ≤ packetSize) :
    s.poll e = (.ok (if bytes.size = 0 then none else some ⟨destination, s.write, bytes⟩),
      (s.moved bytes.size).rearm e s.turn) := by
  have hready : (s.active && e.enabled) = true := by rw [hactive, h.enabled]; rfl
  have harrival : e.arrival s.turn = .received bytes.size := by
    rw [Endpoint.arrival, h.slot]
    rfl
  have hpayload : e.payload s.turn = bytes := by rw [Endpoint.payload, h.slot]; rfl
  rw [poll, hready, hdestination]
  dsimp only
  rw [harrival]
  dsimp only
  rw [if_neg (by omega), hpayload]
  by_cases hempty : bytes.size = 0
  · rw [if_pos (.inl hempty), if_pos hempty]
  · rw [if_neg (by omega), if_neg hempty]

/-- An empty packet leaves the position where it is, in front of the end. -/
theorem moved_zero (hahead : s.write ≠ s.stop) : s.moved 0 = s := by
  have hahead : (s.write + 0 != s.stop) = true := bne_iff_ne.mpr hahead
  show { s with write := s.write + 0, active := s.active && s.write + 0 != s.stop } = s
  rw [hahead, Bool.and_true]
  rfl

/-- Opening an upload on an endpoint that is enabled leaves the endpoint alone. -/
theorem control_openUpload (s : Session) {setup : Setup} {payload : ByteArray}
    {t : Destination} {start length : UInt32}
    (hrequest : Request.decode setup payload = .ok (some (.openUpload t start length)))
    (hpos : length.toNat ≠ 0) (henabled : e.enabled = true) :
    s.control e setup payload =
      (.ok .acknowledge, { s with
        destination := some t
        start := start.toNat
        write := start.toNat
        stop := min (start.toNat + length.toNat) Session.offsetLimit
        active := true }, e) := by
  rw [Session.control, hrequest]
  dsimp only
  rw [Session.openUpload, if_neg hpos]
  dsimp only
  rw [if_pos henabled]

/-! ## The invariant -/

/-- If the bulk endpoint is enabled, its packets stand in order behind the descriptor that the
session looks at next. -/
def InStep (s : Session) (e : Endpoint) : Prop :=
  e.enabled = true → ∃ ps, e.Holds s.turn ps

theorem inStep_of_disabled (h : e.enabled = false) : s.InStep e := by
  intro henabled
  exact absurd (h.symm.trans henabled) Bool.false_ne_true

theorem inStep_enableBulk (s : Session) (e : Endpoint) :
    (s.enableBulk e).1.InStep (s.enableBulk e).2 :=
  fun _ => ⟨_, e.holds_enable⟩

theorem InStep.push (h : s.InStep e) (p : Packet) : s.InStep (e.push p) := by
  by_cases henabled : e.enabled = true
  · obtain ⟨ps, hholds⟩ := h henabled
    exact fun _ => ⟨_, hholds.push p⟩
  · rw [Endpoint.push, if_neg henabled]
    exact inStep_of_disabled (by simpa using henabled)

theorem InStep.rearm (h : s.InStep e) (henabled : e.enabled = true)
    (harrived : e.arrival s.turn ≠ .pending) {s' : Session} :
    (s'.rearm e s.turn).1.InStep (s'.rearm e s.turn).2 := by
  obtain ⟨ps, hholds⟩ := h henabled
  cases ps with
  | nil =>
    have hpending : e.arrival s.turn = .pending := by rw [Endpoint.arrival, hholds.lined.1]
    exact absurd hpending harrived
  | cons p ps => exact fun _ => ⟨ps, hholds.arm⟩

theorem InStep.poll (h : s.InStep e) : (s.poll e).2.1.InStep (s.poll e).2.2 := by
  unfold Session.poll
  split
  · next hready _ =>
    have henabled : e.enabled = true := (Bool.and_eq_true_iff.mp hready).2
    dsimp only
    split
    · exact h
    · next harrival => exact h.rearm henabled (by rw [harrival]; exact Arrival.noConfusion)
    · next harrival =>
      split
      · exact inStep_of_disabled rfl
      · exact h.rearm henabled (by rw [harrival]; exact Arrival.noConfusion)
  · exact h

theorem InStep.openUpload (h : s.InStep e) {destination : Destination} {start length : Nat}
    {s' : Session} {e' : Endpoint}
    (hopened : s.openUpload e destination start length = .ok (s', e')) : s'.InStep e' := by
  unfold Session.openUpload at hopened
  split at hopened
  · exact absurd hopened (by simp)
  · dsimp only at hopened
    split at hopened
    · obtain ⟨rfl, rfl⟩ := Prod.mk.inj (Except.ok.inj hopened)
      exact h
    · obtain ⟨rfl, rfl⟩ := Prod.mk.inj (Except.ok.inj hopened)
      exact inStep_enableBulk _ e

theorem InStep.control (h : s.InStep e) (setup : Setup) (data : ByteArray) :
    (s.control e setup data).2.1.InStep (s.control e setup data).2.2 := by
  unfold Session.control
  split
  · exact h
  · exact h
  · exact h
  · exact h
  · split
    · exact h
    · next hopened => exact h.openUpload hopened

theorem InStep.congr (h : s.InStep e) {s' : Session} {e' : Endpoint} (hturn : s'.turn = s.turn)
    (hsame : e.SamePackets e') : s'.InStep e' := by
  intro henabled
  obtain ⟨ps, hholds⟩ := h (hsame.enabled.symm.trans henabled)
  exact ⟨ps, hturn.symm ▸ hholds.congr hsame⟩

end Session

namespace Device

/-- The session and the endpoint of a device are in step. -/
def InStep (d : Device) : Prop := d.session.InStep d.endpoint

theorem InStep.poll {d : Device} (h : d.InStep) : d.poll.InStep := by
  obtain ⟨hsession, hendpoint⟩ := d.sameUpload_polled
  exact (Session.InStep.poll h).congr hsession.turn hendpoint

theorem InStep.react {d : Device} (h : d.InStep) (e : Event) : (d.react e).InStep := by
  cases e with
  | configure => exact Session.inStep_enableBulk {} d.endpoint
  | control setup data => exact Session.InStep.control h setup data
  | push packet => exact Session.InStep.push h packet
  | read => exact Session.InStep.congr h rfl ⟨rfl, rfl, rfl, rfl, rfl⟩
  | poll => exact h.poll
  | live event =>
    obtain ⟨filter, direct, voices, midi, pcmMuted, heq⟩ := d.steered_live event
    show (d.live event).InStep
    rw [heq]
    exact h
  | time change => exact h
  | chip change => exact h

/-- Session and endpoint are in step in every run. -/
theorem inStep_run (config : DeviceConfig) (chip : Recorder) (timer : Timer)
    (events : List Event) : ((Device.new config chip timer).run events).InStep :=
  run_keeps (P := InStep) (fun _ e h => h.react e) (Session.inStep_of_disabled rfl) events

end Device
end ChipReplay
