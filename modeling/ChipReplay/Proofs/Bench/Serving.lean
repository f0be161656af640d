import ChipReplay.Proofs.Bench.Course
import ChipReplay.Proofs.Upload.Confinement
/-!
# Answering refills

The host beside a device on course expects the messages that the device is going to send
(`Host.Expects`). It answers a refill with an upload, and when that is over the window is as the
refill wants it, whatever the player did meanwhile, as long as every update reads only what has come
(`Device.OnTime`). So a round of the bench keeps it on course (`Bench.OnCourse.round`).
-/

namespace ChipReplay

namespace Device

variable {old d d' : Device} {r : Refill} {done rest : ByteArray} {waiting coming : List Packet}

/-! ## Being on time -/

/-- Byte `i` of the window is still to come: a refill that has not been answered covers it, or the
upload that is active has not reached it. -/
def Awaits (d : Device) (i : Nat) : Prop :=
  (∃ r ∈ d.upcoming.filterMap Notification.refillIn, r.Covers i) ∨
    d.session.active = true ∧ d.session.write ≤ i ∧ i < d.session.stop

/-- The next poll reads only bytes that have come when its packet has been stored. -/
def OnTime (d : Device) : Prop := ∀ i ∈ d.polledReads, ¬ d.ingested.Awaits i

/-! ## Packets behind the linear region -/

/-- A packet that lies behind the linear region does not end the playback. -/
theorem active_store {c : Chunk} (hwindow : c.destination.isSamples = false)
    (hbehind : linearEnd ≤ c.offset) : (d.store c).active = d.active := by
  unfold store
  rw [hwindow]
  dsimp only
  rw [if_neg Bool.false_ne_true]
  unfold storeWindow
  have hnot :
      (d.config.stopOnLinearUpload && d.active && decide (c.offset < linearEnd)) = false := by
    rw [decide_eq_false (Nat.not_lt.mpr hbehind), Bool.and_false]
  dsimp only
  rw [if_neg (by simp [hnot])]
  split <;> rfl

theorem active_ingest
    (h : ∀ c, d.polled = some c → c.destination.isSamples = false ∧ linearEnd ≤ c.offset) :
    d.ingest.active = d.active := by
  unfold ingest
  unfold polled at h
  rcases hpoll : d.session.poll d.endpoint with ⟨_ | _ | c, session, endpoint⟩
  · rfl
  · rfl
  · obtain ⟨hwindow, hbehind⟩ := h c (by rw [hpoll]; rfl)
    exact active_store hwindow hbehind

theorem active_ingested
    (h : ∀ c, d.polled = some c → c.destination.isSamples = false ∧ linearEnd ≤ c.offset) :
    d.ingested.active = d.active :=
  active_ingest (d := flushDirect _) h

/-! ## The window during an upload -/

/-- The upload that answers `r` from `stream`. -/
def answer (stream : ByteArray) (r : Refill) : Upload :=
  ⟨.window, r.target, stream.extract r.source.toNat (r.source.toNat + r.length.toNat)⟩

/-- Answers to whole regions fit in them. -/
theorem answer_le (stream : ByteArray) (h : r.OfRegion) :
    (answer stream r).offset.toNat + (answer stream r).data.size ≤ windowSize ∧
      linearEnd ≤ (answer stream r).offset.toNat ∧ (answer stream r).data.size ≤ regionSize := by
  obtain ⟨region, source, hlinear, rfl⟩ := h
  have htarget : (answer stream (.ofRegion region source)).offset.toNat = region.start :=
    Refill.target_ofRegion region source
  have hsize : (answer stream (.ofRegion region source)).data.size ≤ regionSize := by
    show (stream.extract _ _).size ≤ _
    rw [ByteArray.size_extract, Refill.length_ofRegion]
    omega
  have hstop := region.stop_le_windowSize
  rw [Region.stop_eq hlinear] at hstop
  refine ⟨by omega, ?_, hsize⟩
  rw [htarget]
  cases region <;> first | exact absurd rfl hlinear | decide

theorem byte_filled (stream : ByteArray) (w : Window) (r : Refill)
    (hfits : (answer stream r).offset.toNat + (answer stream r).data.size ≤ windowSize) (i : Nat) :
    (filled stream w r).byte i =
      if (answer stream r).offset.toNat ≤ i ∧
          i < (answer stream r).offset.toNat + (answer stream r).data.size then
        Bytes.peek (answer stream r).data (i - (answer stream r).offset.toNat)
      else w.byte i := by
  have hput : filled stream w r = w.put _ (answer stream r).data hfits := dif_pos hfits
  rw [hput, Window.byte_put]

/-- A byte that has come is the one that the refill wants. -/
theorem Receiving.byte_window {stream : ByteArray}
    (h : Receiving old (answer stream r) done rest waiting coming d)
    (hfits : (answer stream r).offset.toNat + (answer stream r).data.size ≤ windowSize) {i : Nat}
    (hcome : ¬ (d.session.active = true ∧ d.session.write ≤ i ∧ i < d.session.stop)) :
    d.window.byte i = (filled stream old.window r).byte i := by
  have hbyte : d.window.byte i =
      if (answer stream r).offset.toNat ≤ i ∧ i < (answer stream r).offset.toNat + done.size then
        Bytes.peek done (i - (answer stream r).offset.toNat)
      else old.window.byte i := by
    have hstored := h.stored .window i
    have hsame : Destination.window.isSamples = (answer stream r).destination.isSamples := rfl
    rw [hsame] at hstored
    simp only [true_and] at hstored
    exact hstored
  have hsize := h.size_data
  rw [byte_filled stream old.window r hfits, hbyte]
  by_cases hdone : (answer stream r).offset.toNat ≤ i ∧
      i < (answer stream r).offset.toNat + done.size
  · rw [if_pos hdone, if_pos (by omega), h.data, Bytes.peek_append, if_pos (by omega)]
  · rw [if_neg hdone]
    by_cases hlater : (answer stream r).offset.toNat ≤ i ∧
        i < (answer stream r).offset.toNat + (answer stream r).data.size
    -- what is missing is still to come
    · refine absurd ⟨?_, ?_, ?_⟩ hcome
      · rw [h.active]
        exact decide_eq_true (by omega)
      · rw [h.write]
        omega
      · rw [h.stop]
        omega
    · rw [if_neg hlater]

theorem window_ext {w w' : Window} (h : ∀ i, w.byte i = w'.byte i) : w = w' := by
  have hbytes : w.bytes = w'.bytes :=
    Bytes.ext_peek (w.size_eq.trans w'.size_eq.symm) fun i _ => h i
  cases w
  cases w'
  cases hbytes
  rfl

/-- A packet of the answer to a refill does not end the playback. -/
theorem Receiving.active_ingested {stream : ByteArray}
    (h : Receiving old (answer stream r) done rest waiting coming d)
    (hbehind : linearEnd ≤ (answer stream r).offset.toNat) : d.ingested.active = d.active := by
  refine Device.active_ingested fun c hc => ?_
  obtain ⟨-, hdestination, hoffset, -⟩ := Session.range_of_poll (poll_of_polled hc)
  have hwindow : Destination.window = c.destination :=
    Option.some.inj (h.destination.symm.trans hdestination)
  have hwrite := h.write
  rw [← hwindow, hoffset]
  exact ⟨rfl, by omega⟩

end Device

/-! ## What the host expects -/

namespace Host

/-- The messages that the device is going to send have the numbers that the host expects, and ask
for the refills of `waiting`. -/
def Expects (h : Host) (waiting : List Refill) (d : Device) : Prop :=
  ∃ ms, d.upcoming = Outgoing.wire h.sequence ms ∧
    d.nextNumber = Outgoing.numberAfterAll h.sequence ms ∧ ms.filterMap Outgoing.refill? = waiting

namespace Expects

variable {h : Host} {waiting : List Refill} {d d' : Device}

theorem refills_eq (hexpects : h.Expects waiting d) :
    d.upcoming.filterMap Notification.refillIn = waiting := by
  obtain ⟨ms, hupcoming, -, hwaiting⟩ := hexpects
  rw [hupcoming, Outgoing.refillsIn_wire, hwaiting]

theorem of_quiet (hexpects : h.Expects waiting d) (hquiet : d.Quiet d') : h.Expects waiting d' := by
  obtain ⟨hupcoming, hnext⟩ := hquiet.upcoming_eq
  unfold Expects
  rw [hupcoming, hnext]
  exact hexpects

/-- What the player asks for in a poll comes last. -/
theorem poll (hexpects : h.Expects waiting d) (hheld : d.session.startPending = false) :
    h.Expects (waiting ++ d.refillsOf .poll) d.poll := by
  obtain ⟨ms, hupcoming, hnext, hwaiting⟩ := hexpects
  obtain ⟨hupcoming', hnext', -⟩ := Device.poll_upcoming hheld
  refine ⟨ms ++ (d.refillsOf .poll).map .refill, ?_, ?_, ?_⟩
  · rw [hupcoming', hupcoming, hnext, Outgoing.wire_append]
  · rw [hnext', hnext, Outgoing.numberAfterAll_append]
  · rw [List.filterMap_append, hwaiting, Outgoing.filterMap_refills]

/-- The message in the slot is the first that the host expects: a status report, or the first refill
that waits. -/
theorem read {message : ByteArray} (hexpects : h.Expects waiting d)
    (hslot : d.endpoint.inSlot = some message) :
    (∃ word, message = (Notification.status word).encode ∧ h.Expects waiting (d.react .read)) ∨
      ∃ r rest, message = (Notification.ofRefill h.sequence r).encode ∧ waiting = r :: rest ∧
        ∀ h' : Host, h'.sequence = Notification.nextSequence h.sequence →
          h'.Expects rest (d.react .read) := by
  obtain ⟨ms, hupcoming, hnext, hwaiting⟩ := hexpects
  rw [Device.upcoming, hslot] at hupcoming
  cases ms with
  | nil => exact absurd hupcoming (by simp [Outgoing.wire, Outgoing.numbered])
  | cons m ms =>
    obtain ⟨hmessage, hrest⟩ := List.cons.inj hupcoming
    cases m with
    | status word => exact .inl ⟨word, hmessage, ms, hrest, hnext, hwaiting⟩
    | refill r =>
      refine .inr ⟨r, _, hmessage, hwaiting.symm, fun h' hsequence => ⟨ms, ?_, ?_, rfl⟩⟩
      · rw [hsequence]
        exact hrest
      · rw [hsequence]
        exact hnext

/-- A byte that has come is covered by no refill that waits. -/
theorem not_covers (hexpects : h.Expects waiting d) {i : Nat} (hcome : ¬ d.ingested.Awaits i) :
    ∀ r ∈ waiting, ¬ r.Covers i := by
  intro r hr hcovers
  refine hcome (.inl ⟨r, ?_, hcovers⟩)
  rw [d.quiet_ingested.upcoming_eq.1, hexpects.refills_eq]
  exact hr

end Expects
end Host

/-! ## Polls during an upload -/

namespace Device

variable {s : Score} {host : Host} {waiting : List Refill} {k : Nat} {part : List Located}
  {old d d' : Device} {r : Refill} {done rest : ByteArray} {ps coming : List Packet}

/-- A poll during the upload that answers a refill keeps the device on course if it is on time. -/
theorem OnCourse.poll_receiving (h : d.OnCourse s (filled s.stream old.window r) waiting k part)
    (hplayable : s.Playable) (hexpects : host.Expects waiting d)
    (hreceiving : Receiving old (answer s.stream r) done rest ps coming d)
    (hfits : (answer s.stream r).offset.toNat + (answer s.stream r).data.size ≤ windowSize)
    (hbehind : linearEnd ≤ (answer s.stream r).offset.toNat) (hontime : d.OnTime) :
    ∃ waiting' k' part', d.poll.OnCourse s (filled s.stream old.window r) waiting' k' part' ∧
      host.Expects waiting' d.poll ∧ (k' = k ∨ k' = k + 1 ∧ part' = []) ∧
      headway d.chip (s.played k part) ≤ headway d.poll.chip (s.played k' part') ∧
      Paced s.first s.later k part d.timer k' part' d.poll.timer := by
  obtain ⟨done', rest', hpolled, -⟩ := hreceiving.poll hfits
  have hsession := d.sameUpload_poll.session
  have hwindow (i : Nat) : d.poll.window.byte i = d.ingested.window.byte i :=
    congrFun (congrFun d.memory_poll Destination.window) i
  have hkept := (hreceiving.active_ingested hbehind).trans h.active
  have hreads : ∀ i ∈ d.polledReads, d.ingested.window.byte i =
      (filled s.stream old.window r).byte i ∧ ∀ r ∈ waiting, ¬ r.Covers i := by
    intro i hi
    have hcome := hontime i hi
    refine ⟨?_, hexpects.not_covers hcome⟩
    rw [← hwindow]
    refine hpolled.byte_window hfits fun hstill => hcome (.inr ?_)
    rw [hsession.active, hsession.write, hsession.stop] at hstill
    exact hstill
  obtain ⟨k', part', hcourse, hnext, hheadway, -, hpaced⟩ := h.poll hplayable hkept hreads
  exact ⟨_, k', part', hcourse, hexpects.poll h.held, hnext, hheadway, hpaced⟩

/-- Once a refill is answered, the window will be as it wants it. -/
theorem OnCourse.answered {w : Window} (h : d.OnCourse s w (r :: waiting) k part) :
    d.OnCourse s (filled s.stream w r) waiting k part :=
  { h with
    regions := fun r' hr' => h.regions r' (List.mem_cons_of_mem _ hr')
    ready := by
      have hready := h.ready
      unfold ChipReplay.Ready at hready ⊢
      rwa [List.cons_append, settled_cons] at hready }

theorem filled_of_empty {stream : ByteArray} (w : Window)
    (h : (answer stream r).data.size = 0)
    (hfits : (answer stream r).offset.toNat + (answer stream r).data.size ≤ windowSize) :
    filled stream w r = w := by
  refine window_ext fun i => ?_
  rw [byte_filled stream w r hfits, if_neg (by omega)]

/-- Opening an upload and sending it says nothing to the player. -/
theorem quiet_sentWhole {u : Upload} (hfits : u.Fits) : d.Quiet (d.sentWhole u) := by
  have hrequest : d.Quiet (d.request u.request).2 := by
    refine d.quiet_control ?_
    rw [hfits.decode_request]
    simp [Upload.request]
  have hpushes (pieces : List ByteArray) (e : Endpoint) :
      (pieces.foldl (fun e bytes => e.push (.data bytes)) e).inSlot = e.inSlot := by
    induction pieces generalizing e with
    | nil => rfl
    | cons bytes pieces ih => exact (ih _).trans (e.inSlot_push _)
  refine ⟨hrequest.outbox, (hpushes _ _).trans hrequest.inSlot, hrequest.sequence,
    hrequest.startPending, hrequest.active⟩

end Device

/-! ## Rounds -/

namespace Bench

open Device

/-- What is played between `k` and `k'` passes, with a part of the next one, does not lead out of
the first `n` of them if none of the polls that play it comes after their end. -/
def StaysWithin (polls : List Device) (k : Nat) (part : List Located) (k' : Nat)
    (part' : List Located) : Prop :=
  ∀ n : UInt32, (∀ d ∈ polls, d.player.loopCount < n) → Score.Within n.toNat k part →
    Score.Within n.toNat k' part'

theorem StaysWithin.refl {polls : List Device} {k : Nat} {part : List Located} :
    StaysWithin polls k part k part := fun _ _ hwithin => hwithin

/-- A poll stays within the first `n` passes, as it ends with a pass. -/
theorem StaysWithin.of_mem {polls : List Device} {s : Score} {w : Window} {waiting : List Refill}
    {k k₁ k' : Nat} {part part₁ part' : List Located} {d : Device}
    (h : StaysWithin polls k part k₁ part₁) (hd : d ∈ polls)
    (hcourse : d.OnCourse s w waiting k₁ part₁) (hnext : k' = k₁ ∨ k' = k₁ + 1 ∧ part' = []) :
    StaysWithin polls k part k' part' := fun n hbefore hwithin =>
  .of_lt (hcourse.lt_of_loopCount_lt (h n hbefore hwithin) (hbefore d hd)) hnext

/-- The device in each poll of the upload that answers the next notification. -/
def servePolls (b : Bench) : List Device :=
  match b.device.endpoint.inSlot with
  | none => []
  | some message =>
    match b.host.answer message with
    | (some u, host) => uploadPolls { b with device := b.device.react .read, host } u
    | (none, _) => []

/-- The device in each poll of a round. -/
def roundPolls (b : Bench) : List Device :=
  { b.device with timer := b.device.timer.expire } :: (b.onDevice Device.tick).servePolls

/-- The device in each poll of the rounds that `play` makes. -/
def playPolls (b : Bench) : Nat → List Device
  | 0 => []
  | limit + 1 => if b.isOver then [] else b.roundPolls ++ b.round.2.playPolls limit

theorem play_of_isOver {b : Bench} (h : b.isOver = true) (limit : Nat) :
    b.play limit = (.ended, b) := by
  cases limit <;> rw [play, if_pos h]

/-- Between two rounds the device is on course and ready for an upload, and the host expects what it
is going to send. -/
structure OnCourse (s : Score) (k : Nat) (part : List Located) (b : Bench) : Prop where
  device : ∃ waiting, b.device.OnCourse s b.device.window waiting k part ∧
    b.host.Expects waiting b.device
  ready : b.device.Ready
  inactive : b.device.session.active = false
  stream : b.host.stream = s.stream
  ignored : b.host.ignored = 0
  masked : b.host.sequence &&& Notification.sequenceMask = b.host.sequence

variable {s : Score} {k : Nat} {part : List Located} {b : Bench}

/-- A poll without an upload stores nothing, and leaves the device ready. -/
theorem poll_of_over {d : Device} (hready : d.Ready) (hover : d.session.active = false) :
    d.poll.window = d.window ∧ d.poll.Ready ∧ d.poll.session.active = false := by
  have hpoll := Session.poll_of_inactive hover d.endpoint
  obtain ⟨hsession, hendpoint⟩ := d.sameUpload_polled
  rw [hpoll] at hsession hendpoint
  refine ⟨?_, ⟨hready.inStep.poll, ?_⟩, hsession.active.trans hover⟩
  · rcases d.poll_stores.1 with hsame | ⟨c, hc, -⟩
    · exact hsame
    · rw [polled, hpoll] at hc
      exact absurd hc (by simp [Except.toOption])
  · obtain ⟨ps, hholds⟩ := hready.inStep hready.drained.enabled
    obtain rfl := hholds.drained_iff.mp hready.drained
    exact (hholds.congr hendpoint).drained_iff.mpr rfl

/-- When the wait is over, a poll that is on time keeps the bench on course and gets on. -/
theorem OnCourse.tick (h : b.OnCourse s k part) (hplayable : s.Playable)
    (hontime : Device.OnTime { b.device with timer := b.device.timer.expire }) :
    ∃ k' part', (b.onDevice Device.tick).OnCourse s k' part' ∧
      (k' = k ∨ k' = k + 1 ∧ part' = []) ∧
      headway b.device.chip (s.played k part) <
        headway b.device.tick.chip (s.played k' part') ∧
      Paced s.first s.later k part b.device.timer.expire k' part' b.device.tick.timer := by
  obtain ⟨waiting, hcourse, hexpects⟩ := h.device
  generalize hexpired : ({ b.device with timer := b.device.timer.expire } : Device) = d at hontime
  have hd : d.OnCourse s d.window waiting k part := by
    subst hexpired
    exact hcourse.congr rfl rfl rfl rfl rfl rfl rfl
  have hexpects : b.host.Expects waiting d := by
    subst hexpired
    exact hexpects
  have hover : d.session.active = false := by
    subst hexpired
    exact h.inactive
  have hready : d.Ready := by
    subst hexpired
    exact ⟨h.ready.inStep, h.ready.drained⟩
  have htick : b.device.tick = d.poll := by rw [← hexpired]; rfl
  have hchip : b.device.chip = d.chip := by rw [← hexpired]
  have htimer : b.device.timer.expire = d.timer := by rw [← hexpired]
  have helapsed : d.timer.elapsed = true := by rw [← hexpired]; rfl
  have hnone : d.polled = none := by
    rw [polled, Session.poll_of_inactive hover]
    rfl
  have hkept : d.ingested.active = true :=
    (active_ingested fun c hc => absurd (hnone.symm.trans hc) (by simp)).trans hd.active
  obtain ⟨-, hsame, -⟩ := ingested_of_inactive hover
  have hreads : ∀ i ∈ d.polledReads,
      d.ingested.window.byte i = d.window.byte i ∧ ∀ r ∈ waiting, ¬ r.Covers i := by
    intro i hi
    exact ⟨by rw [hsame], hexpects.not_covers (hontime i hi)⟩
  obtain ⟨k', part', hpolled, hnext, -, hgets, hpaced⟩ := hd.poll hplayable hkept hreads
  obtain ⟨hwindow, hready', hover'⟩ := poll_of_over hready hover
  rw [htick, hchip, htimer]
  refine ⟨k', part', ?_, hnext, hgets helapsed, hpaced⟩
  have hdevice : (b.onDevice Device.tick).device = d.poll := htick
  exact {
    device := ⟨_, by rw [hdevice, hwindow]; exact hpolled, by
      rw [hdevice]
      exact hexpects.poll hd.held⟩
    ready := hdevice ▸ hready'
    inactive := hdevice ▸ hover'
    stream := h.stream
    ignored := h.ignored
    masked := h.masked }

/-- The most packets that answer a refill. -/
def answerPackets : Nat := regionSize / packetSize

/-- The upload that answers a refill keeps the bench on course if its polls are on time. -/
theorem OnCourse.upload {r : Refill} {waiting : List Refill} (hplayable : s.Playable)
    (hcourse : b.device.OnCourse s b.device.window (r :: waiting) k part)
    (hexpects : b.host.Expects waiting b.device) (hready : b.device.Ready)
    (hstream : b.host.stream = s.stream) (hignored : b.host.ignored = 0)
    (hmasked : b.host.sequence &&& Notification.sequenceMask = b.host.sequence)
    (hne : (answer s.stream r).data.size ≠ 0)
    (hontime : ∀ d ∈ b.uploadPolls (answer s.stream r), d.OnTime) :
    ∃ d k' part', b.upload (answer s.stream r) = (none, { b with device := d }) ∧
      OnCourse s k' part' { b with device := d } ∧ k' ≤ k + answerPackets ∧
      headway b.device.chip (s.played k part) ≤ headway d.chip (s.played k' part') ∧
      StaysWithin (b.uploadPolls (answer s.stream r)) k part k' part' ∧
      Paced s.first s.later k part b.device.timer k' part' d.timer := by
  have hregion := hcourse.regions r List.mem_cons_self
  obtain ⟨hfits, hbehind, hsize⟩ := answer_le s.stream hregion
  have hu : (answer s.stream r).Fits := ⟨Nat.pos_of_ne_zero hne, hfits⟩
  have hquiet : b.device.Quiet (b.device.sentWhole (answer s.stream r)) := quiet_sentWhole hu
  have hsent : (b.device.sentWhole (answer s.stream r)).OnCourse s
      (filled s.stream b.device.window r) waiting k part :=
    hcourse.answered.congr rfl rfl hquiet.startPending rfl rfl rfl rfl
  -- what every poll keeps: a pass may end with each packet that is taken
  let P (ps : List Packet) (d : Device) : Prop := ∃ waiting' k' part',
    d.OnCourse s (filled s.stream b.device.window r) waiting' k' part' ∧
    b.host.Expects waiting' d ∧ k' + ps.length ≤ k + answerPackets ∧
    headway b.device.chip (s.played k part) ≤ headway d.chip (s.played k' part') ∧
    StaysWithin (b.uploadPolls (answer s.stream r)) k part k' part' ∧
    Paced s.first s.later k part b.device.timer k' part' d.timer
  have hstart : P ((answer s.stream r).packets.map .data)
      (b.device.sentWhole (answer s.stream r)) := by
    refine ⟨waiting, k, part, hsent, hexpects.of_quiet hquiet, ?_, Nat.le_refl _, .refl, .refl⟩
    rw [List.length_map, Upload.packets, length_packets]
    unfold answerPackets
    unfold regionSize packetSize at *
    omega
  have hpoll : ∀ d ∈ b.uploadPolls (answer s.stream r), ∀ p ps done rest,
      Receiving b.device (answer s.stream r) done rest (p :: ps) [] d → P (p :: ps) d →
        P ps d.poll := by
    rintro d hd p ps done rest hreceiving
      ⟨waiting', k', part', hcourse', hexpects', hle, hheadway, hwithin, hpaced⟩
    obtain ⟨waiting'', k'', part'', hcourse'', hexpects'', hnext, hheadway', hpaced'⟩ :=
      hcourse'.poll_receiving hplayable hexpects' hreceiving hfits hbehind (hontime d hd)
    rw [List.length_cons] at hle
    exact ⟨waiting'', k'', part'', hcourse'', hexpects'', by omega, Nat.le_trans hheadway hheadway',
      hwithin.of_mem hd hcourse' hnext, hpaced.trans hpaced'⟩
  obtain ⟨ps, d, hupload, hready', hover, hstored, waiting', k', part', hcourse', hexpects', hle,
    hheadway, hwithin, hpaced⟩ := upload_of_ready hready hu hstart hpoll
  have hwindow : d.window = filled s.stream b.device.window r := by
    refine window_ext fun i => ?_
    rw [byte_filled s.stream _ r hfits]
    have hbyte := hstored .window i
    have hsame : Destination.window.isSamples = (answer s.stream r).destination.isSamples := rfl
    rw [hsame] at hbyte
    simp only [true_and] at hbyte
    exact hbyte
  refine ⟨d, k', part', hupload, ?_, by omega, hheadway, hwithin, hpaced⟩
  exact {
    device := ⟨waiting', hwindow ▸ hcourse', hexpects'⟩
    ready := hready'
    inactive := hover
    stream := hstream
    ignored := hignored
    masked := hmasked }

theorem serve_of_none {b : Bench} (hslot : b.device.endpoint.inSlot = none) :
    b.serve = (none, b) := by
  rw [Bench.serve, Endpoint.takeIn, hslot]

theorem serve_of_some {b : Bench} {message : ByteArray}
    (hslot : b.device.endpoint.inSlot = some message) :
    b.serve = match b.host.answer message with
      | (some u, host) => upload { b with device := b.device.react .read, host } u
      | (none, host) => (none, { b with device := b.device.react .read, host }) := by
  rw [Bench.serve, Endpoint.takeIn, hslot]
  rfl

/-- Answering a notification keeps the bench on course. -/
theorem OnCourse.serve (h : b.OnCourse s k part) (hplayable : s.Playable)
    (hontime : ∀ d ∈ b.servePolls, d.OnTime) :
    ∃ b' k' part', b.serve = (none, b') ∧ b'.OnCourse s k' part' ∧ b'.config = b.config ∧
      k' ≤ k + answerPackets ∧
      headway b.device.chip (s.played k part) ≤ headway b'.device.chip (s.played k' part') ∧
      StaysWithin b.servePolls k part k' part' ∧
      Paced s.first s.later k part b.device.timer k' part' b'.device.timer := by
  obtain ⟨waiting, hcourse, hexpects⟩ := h.device
  cases hslot : b.device.endpoint.inSlot with
  | none =>
    exact ⟨b, k, part, serve_of_none hslot, h, rfl, by omega, Nat.le_refl _, .refl, .refl⟩
  | some message =>
    have hread : (b.device.react .read).OnCourse s b.device.window waiting k part :=
      hcourse.congr rfl rfl rfl rfl rfl rfl rfl
    have hready : (b.device.react .read).Ready :=
      ⟨h.ready.inStep.react .read, { h.ready.drained with }⟩
    rw [serve_of_some hslot]
    unfold servePolls at hontime ⊢
    rw [hslot] at hontime ⊢
    dsimp only at hontime ⊢
    rcases hexpects.read hslot with ⟨word, rfl, hafter⟩ | ⟨r, rest, rfl, rfl, hafter⟩
    · rw [Host.answer_status]
      refine ⟨_, k, part, rfl, ?_, rfl, by omega, Nat.le_refl _, .refl, .refl⟩
      exact { h with device := ⟨waiting, hread, hafter⟩, ready := hready }
    · have hpart : b.host.part r = (answer s.stream r).data := by
        rw [Host.part, h.stream, answer]
      have hmasked := Notification.nextSequence_and_sequenceMask b.host.sequence
      obtain ⟨hfits, -⟩ := answer_le s.stream (hcourse.regions r List.mem_cons_self)
      rw [Host.answer_refill h.masked, hpart] at hontime ⊢
      by_cases hempty : (answer s.stream r).data.size = 0
      -- the refill is done with, as there is nothing to fill in
      · rw [if_pos hempty]
        have hanswered := hread.answered
        rw [filled_of_empty _ hempty hfits] at hanswered
        refine ⟨_, k, part, rfl, ?_, rfl, by omega, Nat.le_refl _, .refl, .refl⟩
        exact { h with
          device := ⟨rest, hanswered, hafter _ rfl⟩
          ready := hready
          masked := hmasked }
      · rw [if_neg hempty] at hontime ⊢
        obtain ⟨d, k', part', hupload, hcourse', hnext, hheadway, hwithin⟩ := OnCourse.upload
          (b := { b with
            device := b.device.react .read
            host := { b.host with
              sequence := Notification.nextSequence b.host.sequence
              served := b.host.served + 1 } })
          hplayable hread (hafter _ rfl) hready h.stream h.ignored hmasked hempty hontime
        exact ⟨_, k', part', hupload, hcourse', rfl, hnext, hheadway, hwithin⟩

/-- A round whose polls are on time keeps the bench on course and gets on. -/
theorem OnCourse.round (h : b.OnCourse s k part) (hplayable : s.Playable)
    (hontime : ∀ d ∈ b.roundPolls, d.OnTime) :
    ∃ b' k' part', b.round = (none, b') ∧ b'.OnCourse s k' part' ∧ b'.config = b.config ∧
      k' ≤ k + (1 + answerPackets) ∧
      headway b.device.chip (s.played k part) < headway b'.device.chip (s.played k' part') ∧
      StaysWithin b.roundPolls k part k' part' := by
  obtain ⟨hfirst, hlater⟩ := List.forall_mem_cons.mp hontime
  obtain ⟨k₁, part₁, hticked, hnext₁, hheadway₁, -⟩ := h.tick hplayable hfirst
  obtain ⟨b', k', part', hserve, hcourse, hconfig, hnext, hheadway, hwithin, -⟩ :=
    hticked.serve hplayable hlater
  refine ⟨b', k', part', hserve, hcourse, hconfig, by omega, Nat.lt_of_lt_of_le hheadway₁ hheadway,
    fun n hbefore hin => ?_⟩
  obtain ⟨waiting, hdevice, -⟩ := h.device
  obtain ⟨htick, hserved⟩ := List.forall_mem_cons.mp hbefore
  exact hwithin n hserved (.of_lt (hdevice.lt_of_loopCount_lt hin htick) hnext₁)

end Bench
end ChipReplay
