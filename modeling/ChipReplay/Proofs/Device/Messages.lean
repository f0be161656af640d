import ChipReplay.Proofs.Device.Run
import ChipReplay.Proofs.Notification.Numbering
/-!
# The messages of a device

What the host will read if the player asks for nothing more is `Device.upcoming`: the message in
the slot, and then the outbox, numbered from the session's counter on. Sending moves messages from
the outbox to the slot and the counter with them, so it changes nothing here
(`sendMessages_upcoming`), whether or not the slot is free. What the player asks for is put at the
end, with the numbers that follow (`stepIfDue_upcoming`). Everything else that may happen is
`Quiet`.
-/

namespace ChipReplay

/-! ## The slot and the counter -/

namespace Endpoint

variable (e : Endpoint)

theorem inSlot_setSlot (d : Descriptor) (s : Slot) : (e.setSlot d s).inSlot = e.inSlot := by
  cases d <;> rfl

theorem inSlot_pumpOne : e.pumpOne.inSlot = e.inSlot := by
  unfold pumpOne
  split
  · split
    · exact e.inSlot_setSlot e.turn _
    · rfl
  · rfl

theorem inSlot_pump : e.pump.inSlot = e.inSlot := by
  rw [pump, inSlot_pumpOne, inSlot_pumpOne]

theorem inSlot_arm (d : Descriptor) : (e.arm d).inSlot = e.inSlot := by
  rw [arm, inSlot_pump, inSlot_setSlot]

theorem inSlot_setEnabled (enabled : Bool) : (e.setEnabled enabled).inSlot = e.inSlot := by
  cases enabled <;> rfl

theorem inSlot_push (packet : Packet) : (e.push packet).inSlot = e.inSlot := by
  unfold push
  split
  · exact inSlot_pump _
  · rfl

end Endpoint

namespace Session

variable (s : Session) (e : Endpoint)

/-- What an upload does to the session and the endpoints leaves the counter, the start that waits
and the slot alone. -/
structure Uploads (s : Session) (e : Endpoint) (s' : Session) (e' : Endpoint) : Prop where
  sequence : s'.sequence = s.sequence
  startPending : s'.startPending = s.startPending
  inSlot : e'.inSlot = e.inSlot

theorem uploads_refl : Uploads s e s e := ⟨rfl, rfl, rfl⟩

theorem uploads_poll : Uploads s e (s.poll e).2.1 (s.poll e).2.2 := by
  unfold poll
  split
  · dsimp only
    split
    · exact uploads_refl s e
    · exact ⟨rfl, rfl, e.inSlot_arm s.turn⟩
    · split
      · exact ⟨rfl, rfl, e.inSlot_setEnabled false⟩
      · exact ⟨rfl, rfl, e.inSlot_arm s.turn⟩
  · exact uploads_refl s e

theorem poll_of_inactive {s : Session} (h : s.active = false) (e : Endpoint) :
    s.poll e = (.ok none, s, e) := by
  rw [poll, h]
  rfl

theorem uploads_openUpload {destination : Destination} {start length : Nat} {s' : Session}
    {e' : Endpoint} (h : s.openUpload e destination start length = .ok (s', e')) :
    Uploads s e s' e' := by
  unfold openUpload at h
  split at h
  · exact absurd h (by simp)
  · dsimp only at h
    split at h
    · obtain ⟨rfl, rfl⟩ := Prod.mk.inj (Except.ok.inj h)
      exact ⟨rfl, rfl, rfl⟩
    · obtain ⟨rfl, rfl⟩ := Prod.mk.inj (Except.ok.inj h)
      refine ⟨rfl, rfl, ?_⟩
      rw [Endpoint.inSlot_arm, Endpoint.inSlot_arm, Endpoint.inSlot_setEnabled]

/-- No control transfer but the one that asks for a start touches them either. -/
theorem uploads_control {setup : Setup} {data : ByteArray}
    (h : Request.decode setup data ≠ .ok (some .startPlayback)) :
    Uploads s e (s.control e setup data).2.1 (s.control e setup data).2.2 := by
  unfold control
  split
  · exact uploads_refl s e
  · exact uploads_refl s e
  · exact uploads_refl s e
  · next hstart => exact absurd hstart h
  · split
    · exact uploads_refl s e
    · next hopened => exact s.uploads_openUpload e hopened

end Session

namespace Device

/-! ## Upcoming messages -/

/-- The messages that the host will read if no more are put into the outbox. -/
def upcoming (d : Device) : List ByteArray :=
  d.endpoint.inSlot.toList ++ Outgoing.wire d.session.sequence d.outbox.toList

/-- The number of the next refill that is put into the outbox. -/
def nextNumber (d : Device) : UInt32 :=
  Outgoing.numberAfterAll d.session.sequence d.outbox.toList

/-- Messages that join the outbox are upcoming, with the numbers that follow. -/
theorem upcoming_append {d d' : Device} {ms : List Outgoing}
    (houtbox : d'.outbox.toList = d.outbox.toList ++ ms) (hsession : d'.session = d.session)
    (hendpoint : d'.endpoint = d.endpoint) :
    d'.upcoming = d.upcoming ++ Outgoing.wire d.nextNumber ms ∧
      d'.nextNumber = Outgoing.numberAfterAll d.nextNumber ms := by
  constructor
  · rw [upcoming, houtbox, hsession, hendpoint, Outgoing.wire_append, ← List.append_assoc]
    rfl
  · rw [nextNumber, houtbox, hsession, Outgoing.numberAfterAll_append]
    rfl

/-- `d'` has the messages of `d`, and plays only if `d` does. -/
structure Quiet (d d' : Device) : Prop where
  outbox : d'.outbox = d.outbox
  inSlot : d'.endpoint.inSlot = d.endpoint.inSlot
  sequence : d'.session.sequence = d.session.sequence
  startPending : d'.session.startPending = d.session.startPending
  active : d'.active = true → d.active = true

theorem Quiet.upcoming_eq {d d' : Device} (h : Quiet d d') :
    d'.upcoming = d.upcoming ∧ d'.nextNumber = d.nextNumber := by
  unfold upcoming nextNumber
  rw [h.outbox, h.inSlot, h.sequence]
  exact ⟨rfl, rfl⟩

theorem quiet_ingested (d : Device) : Quiet d d.ingested := by
  have huploads := d.session.uploads_poll d.endpoint
  obtain ⟨active, window, samples, lastUploadError, stats, heq, hactive, -⟩ := d.ingested_eq
  rw [heq]
  exact ⟨rfl, huploads.inSlot, huploads.sequence, huploads.startPending, hactive⟩

/-- Without an upload no packet is taken. -/
theorem ingested_of_inactive {d : Device} (h : d.session.active = false) :
    d.ingested.player = d.player ∧ d.ingested.window = d.window ∧
      d.ingested.session = d.session := by
  have hpoll := Session.poll_of_inactive h d.endpoint
  have hpolled : d.polled = none := by
    rw [polled, hpoll]
    rfl
  obtain ⟨active, window, samples, lastUploadError, stats, heq, -, hstored, -⟩ := d.ingested_eq
  have hwindow : window = d.window := by
    rcases hstored with hsame | ⟨c, hc, -⟩
    · exact hsame
    · exact absurd hc (by simp [hpolled])
  rw [heq, hpoll]
  exact ⟨rfl, hwindow, rfl⟩

theorem quiet_push (d : Device) (packet : Packet) :
    Quiet d { d with endpoint := d.endpoint.push packet } :=
  ⟨rfl, d.endpoint.inSlot_push packet, rfl, rfl, id⟩

theorem quiet_control (d : Device) {setup : Setup} {data : ByteArray}
    (h : Request.decode setup data ≠ .ok (some .startPlayback)) :
    Quiet d (d.control setup data).2 := by
  have huploads := d.session.uploads_control d.endpoint h
  exact ⟨rfl, huploads.inSlot, huploads.sequence, huploads.startPending, id⟩

theorem quiet_live (d : Device) (event : LiveEvent) : Quiet d (d.live event) := by
  obtain ⟨filter, direct, voices, midi, pcmMuted, heq⟩ := d.steered_live event
  rw [heq]
  exact ⟨rfl, rfl, rfl, rfl, id⟩

/-! ## What the player hands over -/

/-- The refills that the player hands to the outbox when it is updated. -/
def updateRefills (d : Device) : List Refill :=
  if d.active && d.timer.elapsed && d.direct.isEmpty then
    let u := d.player.update d.window d.chip d.timer
    u.request.toList ++ u.player.requests.toList
  else []

/-- The refills that the player hands to the outbox when a playback is started. -/
def startRefills (d : Device) : List Refill :=
  match d.player.begin d.window with
  | (.ok (), p) => p.requests.toList
  | (.error _, _) => []

/-- The refills that the player hands to the outbox during an event: a poll may update the player,
and may then start a playback. -/
def refillsOf (d : Device) : Event → List Refill
  | .poll =>
    let sent := d.ingested.stepIfDue.sendMessages
    d.ingested.updateRefills ++ if sent.session.takeStart.1 then sent.startRefills else []
  | _ => []

theorem stepIfDue_of_inactive {d : Device} (h : d.active = false) : d.stepIfDue = d := by
  rw [stepIfDue, h]
  rfl

theorem updateRefills_of_inactive {d : Device} (h : d.active = false) : d.updateRefills = [] := by
  rw [updateRefills, h]
  rfl

theorem stepIfDue_outbox (d : Device) :
    d.stepIfDue.outbox.toList = d.outbox.toList ++ d.updateRefills.map .refill ∧
      d.stepIfDue.session = d.session ∧ d.stepIfDue.endpoint = d.endpoint := by
  unfold stepIfDue updateRefills
  split
  · obtain ⟨active, voices, direct, lastError, stats, heq⟩ := d.step_eq
    rw [heq]
    exact ⟨by simp, rfl, rfl⟩
  · exact ⟨by simp, rfl, rfl⟩

theorem stepIfDue_upcoming (d : Device) :
    d.stepIfDue.upcoming =
        d.upcoming ++ Outgoing.wire d.nextNumber (d.updateRefills.map .refill) ∧
      d.stepIfDue.nextNumber =
        Outgoing.numberAfterAll d.nextNumber (d.updateRefills.map .refill) := by
  obtain ⟨houtbox, hsession, hendpoint⟩ := d.stepIfDue_outbox
  exact upcoming_append houtbox hsession hendpoint

/-- A start leaves the status report in the outbox, and behind it what the player asks for. -/
theorem startPlayback_outbox (d : Device) :
    d.startPlayback.outbox.toList =
        .status Notification.playbackStarted :: d.startRefills.map .refill ∧
      d.startPlayback.session = d.session.resetSequence ∧
      d.startPlayback.endpoint = d.endpoint := by
  unfold startRefills
  rcases hresult : d.player.begin d.window with ⟨e | _, q⟩
  · obtain ⟨active, voices, direct, lastError, heq⟩ := startPlayback_of_error hresult
    rw [heq]
    exact ⟨rfl, rfl, rfl⟩
  · rw [startPlayback_of_ok hresult]
    exact ⟨by simp, rfl, rfl⟩

/-! ## Sending -/

/-- A message goes out with the current number if the slot is free. -/
theorem sendMessage_eq (d : Device) (m : Outgoing) :
    d.sendMessage m =
      if d.endpoint.isBusy then (.busy, d.session, d.endpoint)
      else (.queued, { d.session with sequence := m.numberAfter d.session.sequence },
        d.endpoint.submit (m.withNumber d.session.sequence).encode) := by
  by_cases hbusy : d.endpoint.isBusy = true
  · rw [if_pos hbusy]
    cases m with
    | refill r => rw [sendMessage, Session.requestRefill, Session.send, if_pos hbusy]
    | status word => rw [sendMessage, Session.send, if_pos hbusy]
  · rw [if_neg hbusy]
    cases m with
    | refill r =>
      rw [sendMessage, Session.requestRefill, Session.send, if_neg hbusy]
      rfl
    | status word =>
      rw [sendMessage, Session.send, if_neg hbusy]
      rfl

theorem sendUpTo_of_empty {d : Device} (h : d.outbox.toList = []) (limit : Nat) :
    d.sendUpTo limit = d := by
  have hpop := (Fifo.pop?_eq_none_iff d.outbox).mpr h
  cases limit with
  | zero => rfl
  | succ limit => rw [sendUpTo, hpop]

/-- Sending changes neither what the host will read nor which number is next: what leaves the
outbox is in the slot, and the counter has moved past it. -/
theorem sendUpTo_upcoming (limit : Nat) (d : Device) :
    (d.sendUpTo limit).upcoming = d.upcoming ∧ (d.sendUpTo limit).nextNumber = d.nextNumber ∧
      (d.sendUpTo limit).session.startPending = d.session.startPending := by
  induction limit generalizing d with
  | zero => exact ⟨rfl, rfl, rfl⟩
  | succ limit ih =>
    rcases hpop : d.outbox.pop? with _ | ⟨m, rest⟩
    · rw [sendUpTo, hpop]
      exact ⟨rfl, rfl, rfl⟩
    -- the first message, and then as many as are left of `limit`
    · have htoList := Fifo.toList_of_pop? hpop
      by_cases hbusy : d.endpoint.isBusy = true
      -- the slot is taken, so the message goes back to where it was
      · have hput : (rest.pushFront m).toList = d.outbox.toList := by
          rw [Fifo.toList_pushFront, htoList]
        rw [sendUpTo, hpop]
        dsimp only
        rw [sendMessage_eq, if_pos hbusy]
        unfold upcoming nextNumber
        rw [hput]
        exact ⟨rfl, rfl, rfl⟩
      -- the message moves from the front of the outbox into the slot, and the counter past it
      · have hfree : d.endpoint.inSlot = none := by
          simpa [Endpoint.isBusy] using hbusy
        rw [sendUpTo, hpop]
        dsimp only
        rw [sendMessage_eq, if_neg hbusy]
        dsimp only
        obtain ⟨hupcoming, hnext, hpending⟩ := ih { d with
          session := { d.session with sequence := m.numberAfter d.session.sequence }
          endpoint := d.endpoint.submit (m.withNumber d.session.sequence).encode
          outbox := rest, stats := d.stats.countSent m }
        rw [hupcoming, hnext, hpending]
        unfold upcoming nextNumber
        rw [htoList, hfree]
        exact ⟨rfl, rfl, rfl⟩

theorem sendMessages_of_empty {d : Device} (h : d.outbox.toList = []) : d.sendMessages = d :=
  sendUpTo_of_empty h 2

theorem sendMessages_upcoming (d : Device) :
    d.sendMessages.upcoming = d.upcoming ∧ d.sendMessages.nextNumber = d.nextNumber ∧
      d.sendMessages.session.startPending = d.session.startPending :=
  sendUpTo_upcoming 2 d

/-- A message in the slot stays there. -/
theorem sendUpTo_of_taken {d : Device} {message : ByteArray}
    (h : d.endpoint.inSlot = some message) (limit : Nat) :
    (d.sendUpTo limit).endpoint.inSlot = some message := by
  have hbusy : d.endpoint.isBusy = true := by rw [Endpoint.isBusy, h]; rfl
  cases limit with
  | zero => exact h
  | succ limit =>
    rw [sendUpTo]
    rcases d.outbox.pop? with _ | ⟨m, rest⟩
    · exact h
    · dsimp only
      rw [sendMessage_eq, if_pos hbusy]
      exact h

/-- Once messages have gone out, the first of those that are upcoming is in the slot. -/
theorem sendMessages_inSlot (d : Device) :
    d.sendMessages.endpoint.inSlot = d.upcoming.head? := by
  unfold upcoming
  cases hslot : d.endpoint.inSlot with
  | some message => exact sendUpTo_of_taken hslot 2
  | none =>
    have hfree : ¬ d.endpoint.isBusy = true := by
      rw [Endpoint.isBusy, hslot]
      exact Bool.false_ne_true
    rw [sendMessages, sendUpTo]
    rcases hpop : d.outbox.pop? with _ | ⟨m, rest⟩
    · rw [(Fifo.pop?_eq_none_iff d.outbox).mp hpop]
      exact hslot
    · dsimp only
      rw [sendMessage_eq, if_neg hfree, Fifo.toList_of_pop? hpop]
      exact sendUpTo_of_taken rfl 1

/-! ## Starting -/

/-- No playback starts if none waits or an upload is active. What waits goes on waiting. -/
theorem quiet_startIfAsked {d : Device} (h : d.session.takeStart.1 = false) :
    Quiet d d.startIfAsked := by
  have heq : d.startIfAsked = { d with session := d.session.takeStart.2 } := by
    rw [startIfAsked]
    dsimp only
    rw [h]
    rfl
  rw [heq]
  unfold Session.takeStart at h ⊢
  split
  · exact ⟨rfl, rfl, rfl, rfl, id⟩
  · next hinactive =>
    rw [if_neg hinactive] at h
    exact ⟨rfl, rfl, rfl, h.symm, id⟩

/-- A playback that is started empties the outbox and sets the counter to zero: with the slot empty,
the status report is the first message that comes. -/
theorem startIfAsked_upcoming {d : Device} (h : d.session.takeStart.1 = true)
    (hfree : d.endpoint.inSlot = none) :
    d.startIfAsked.upcoming =
        Outgoing.wire 0 (.status Notification.playbackStarted :: d.startRefills.map .refill) ∧
      d.startIfAsked.nextNumber =
        Outgoing.numberAfterAll 0
          (.status Notification.playbackStarted :: d.startRefills.map .refill) ∧
      d.startIfAsked.session.startPending = false := by
  have heq : d.startIfAsked = { d with session := d.session.takeStart.2 }.startPlayback := by
    rw [startIfAsked]
    dsimp only
    rw [if_pos h]
  obtain ⟨houtbox, hsession, hendpoint⟩ :=
    startPlayback_outbox { d with session := d.session.takeStart.2 }
  have htaken : d.session.takeStart.2.startPending = false := by
    unfold Session.takeStart at h ⊢
    split
    · next hactive => exact absurd h (by rw [if_pos hactive]; exact Bool.false_ne_true)
    · rfl
  rw [heq]
  unfold upcoming nextNumber
  rw [houtbox, hsession, hendpoint]
  refine ⟨?_, rfl, htaken⟩
  show d.endpoint.inSlot.toList ++ _ = _
  rw [hfree]
  rfl

/-! ## Events -/

/-- The event neither asks for a start nor configures the device. -/
def Event.Continues : Event → Prop
  | .configure => False
  | .control setup data => Request.decode setup data ≠ .ok (some .startPlayback)
  | _ => True

/-- What the host reads in an event. -/
def readIn (d : Device) : Event → List ByteArray
  | .read => d.endpoint.inSlot.toList
  | _ => []

/-- Only polls and reads touch the messages. -/
theorem quiet_react {d : Device} {e : Event} (hcontinues : e.Continues) (hpoll : e ≠ .poll)
    (hread : e ≠ .read) : Quiet d (d.react e) := by
  cases e with
  | configure => exact hcontinues.elim
  | control setup data => exact d.quiet_control hcontinues
  | push packet => exact d.quiet_push packet
  | read => exact absurd rfl hread
  | poll => exact absurd rfl hpoll
  | live event => exact d.quiet_live event
  | time change => exact ⟨rfl, rfl, rfl, rfl, id⟩
  | chip change => exact ⟨rfl, rfl, rfl, rfl, id⟩

/-- While no start waits, a poll starts nothing. -/
theorem takeStart_sent {d : Device} (hpending : d.session.startPending = false) :
    d.ingested.stepIfDue.sendMessages.session.startPending = false ∧
      d.ingested.stepIfDue.sendMessages.session.takeStart.1 = false := by
  obtain ⟨-, hsession, -⟩ := d.ingested.stepIfDue_outbox
  obtain ⟨-, -, hsentPending⟩ := d.ingested.stepIfDue.sendMessages_upcoming
  have hnone : d.ingested.stepIfDue.sendMessages.session.startPending = false := by
    rw [hsentPending, hsession, d.quiet_ingested.startPending, hpending]
  refine ⟨hnone, ?_⟩
  unfold Session.takeStart
  split
  · rfl
  · exact hnone

/-- While no start waits, a poll touches nothing but the messages once the player is updated. -/
theorem poll_of_held {d : Device} (hpending : d.session.startPending = false) :
    ∃ session endpoint outbox stats,
      d.poll = { d.ingested.stepIfDue with session, endpoint, outbox, stats } := by
  obtain ⟨session, endpoint, outbox, stats, hsent⟩ := sendUpTo_eq 2 d.ingested.stepIfDue
  have hstart : d.poll = { d.ingested.stepIfDue.sendMessages with
      session := d.ingested.stepIfDue.sendMessages.session.takeStart.2 } := by
    rw [poll_eq, startIfAsked]
    dsimp only
    rw [(takeStart_sent hpending).2]
    rfl
  rw [sendMessages, hsent] at hstart
  exact ⟨_, _, _, _, hstart⟩

theorem refillsOf_poll {d : Device} (hpending : d.session.startPending = false) :
    d.refillsOf .poll = d.ingested.updateRefills := by
  rw [refillsOf, (takeStart_sent hpending).2]
  exact List.append_nil _

/-- What a poll does to the messages when no start waits. -/
theorem poll_upcoming {d : Device} (hpending : d.session.startPending = false) :
    d.poll.upcoming = d.upcoming ++ Outgoing.wire d.nextNumber ((d.refillsOf .poll).map .refill) ∧
      d.poll.nextNumber =
        Outgoing.numberAfterAll d.nextNumber ((d.refillsOf .poll).map .refill) ∧
      d.poll.session.startPending = false := by
  have hingested := d.quiet_ingested
  obtain ⟨hstepped, hsteppedNumber⟩ := d.ingested.stepIfDue_upcoming
  obtain ⟨hsent, hsentNumber, -⟩ := d.ingested.stepIfDue.sendMessages_upcoming
  obtain ⟨hnone, hheld⟩ := takeStart_sent hpending
  have hstart := quiet_startIfAsked hheld
  rw [poll_eq, refillsOf_poll hpending]
  refine ⟨?_, ?_, ?_⟩
  · rw [hstart.upcoming_eq.1, hsent, hstepped, hingested.upcoming_eq.1, hingested.upcoming_eq.2]
  · rw [hstart.upcoming_eq.2, hsentNumber, hsteppedNumber, hingested.upcoming_eq.2]
  · rw [hstart.startPending, hnone]

/-- After a poll the next message is in the slot, if there is one. -/
theorem poll_inSlot {d : Device} (hpending : d.session.startPending = false) :
    d.poll.endpoint.inSlot = d.poll.upcoming.head? := by
  have hstart := quiet_startIfAsked (takeStart_sent hpending).2
  rw [poll_eq, hstart.inSlot, hstart.upcoming_eq.1, sendMessages_inSlot,
    d.ingested.stepIfDue.sendMessages_upcoming.1]

/-- Whatever happens while no start waits: the host reads what was upcoming, and what the player
asks for comes after it. -/
theorem react_upcoming {d : Device} {e : Event} (hcontinues : e.Continues)
    (hpending : d.session.startPending = false) :
    d.readIn e ++ (d.react e).upcoming =
        d.upcoming ++ Outgoing.wire d.nextNumber ((d.refillsOf e).map .refill) ∧
      (d.react e).nextNumber = Outgoing.numberAfterAll d.nextNumber ((d.refillsOf e).map .refill) ∧
      (d.react e).session.startPending = false := by
  by_cases hpoll : e = .poll
  · subst hpoll
    exact poll_upcoming hpending
  · by_cases hread : e = .read
    · subst hread
      refine ⟨?_, rfl, hpending⟩
      exact (List.append_nil _).symm
    · have hquiet := quiet_react (d := d) hcontinues hpoll hread
      have hnothing : d.readIn e = [] ∧ d.refillsOf e = [] := by
        cases e <;> first | exact ⟨rfl, rfl⟩ | contradiction
      rw [hnothing.1, hnothing.2, hquiet.upcoming_eq.1, hquiet.upcoming_eq.2, hquiet.startPending]
      exact ⟨(List.append_nil _).symm, rfl, hpending⟩

end Device
end ChipReplay
