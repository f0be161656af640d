import ChipReplay.Proofs.Bench.Uploads
import ChipReplay.Proofs.Player.Headway
import ChipReplay.Proofs.Stream.Pacing
/-!
# A device on course

A device is on course (`Device.OnCourse`) if it stands somewhere in the passes of its stream, has
written and waited what the commands so far say, and will see the stream around its cursor once
everything that it has asked for has come. A poll keeps it on course (`OnCourse.poll`) if the update
that it makes reads nothing that is still to come, whatever packet it takes; and an update gets on,
but takes no more than one wait (`Paced`).
-/

namespace ChipReplay

/-- What is to be played: a stream with its passes, through a filter, on a chip. -/
structure Score where
  stream : ByteArray
  start : UInt32
  loop : UInt32
  /-- The first pass. -/
  first : List Located
  /-- Every other pass. -/
  later : List Located
  /-- The chip refuses every readiness check whose number this divides. -/
  every : Nat
  /-- What the filter lets through. -/
  allowed : RegisterWrite → Bool

namespace Score

/-- What has been played after `k` passes and the commands `part` of the next one. -/
def played (s : Score) (k : Nat) (part : List Located) : List Located :=
  passes s.first s.later k ++ part

/-- What the chip is told in the commands. -/
def writes (s : Score) (commands : List Located) : List RegisterWrite :=
  (registerWrites commands).filter s.allowed

theorem writes_append (s : Score) (a b : List Located) :
    s.writes (a ++ b) = s.writes a ++ s.writes b := by
  rw [writes, registerWrites_append, List.filter_append]
  rfl

/-- The passes are those of the stream. -/
def Playable (s : Score) : Prop := ChipReplay.Playable s.stream s.start s.loop s.first s.later

theorem played_continues {s : Score} {k k' : Nat} {part part' commands : List Located}
    (h : Continues s.first s.later k part commands k' part') :
    s.played k' part' = s.played k part ++ commands ∧ (k' = k ∨ k' = k + 1 ∧ part' = []) := by
  unfold played
  cases h with
  | within => exact ⟨(List.append_assoc _ _ _).symm, .inl rfl⟩
  | ending hends =>
    rw [List.append_nil, List.append_assoc, hends]
    exact ⟨rfl, .inr ⟨rfl, rfl⟩⟩

/-- What has been played after `k` passes and the commands `part` of the next one is all in the
first `n` passes. -/
def Within (n k : Nat) (part : List Located) : Prop := k < n ∨ k = n ∧ part = []

/-- An update that begins in the first `n` passes stays within them: it ends with the pass. -/
theorem Within.of_lt {n k k' : Nat} {part' : List Located} (hk : k < n)
    (hnext : k' = k ∨ k' = k + 1 ∧ part' = []) : Within n k' part' := by
  rcases hnext with rfl | ⟨rfl, rfl⟩
  · exact .inl hk
  · rcases Nat.lt_or_eq_of_le (Nat.succ_le_of_lt hk) with hlt | heq
    · exact .inl hlt
    · exact .inr ⟨heq, rfl⟩

end Score

namespace Device

/-- The device stands behind `k` passes and the commands `part` of the next one. `w` is what the
window will be when the upload under way is over, and then the refills of `waiting` are served. -/
structure OnCourse (s : Score) (w : Window) (waiting : List Refill) (k : Nat)
    (part : List Located) (d : Device) : Prop where
  active : d.active = true
  direct : d.direct.toList = []
  held : d.session.startPending = false
  lastError : d.lastError = none
  idle : d.player.requests.toList = []
  regions : ∀ r ∈ waiting, r.OfRegion
  ready : ChipReplay.Ready s.stream w waiting d.player
  midway : ∃ f, Agrees f d.player ∧ Midway s.stream s.start s.loop s.first s.later f k part
  accepts : d.chip.accepts = Recorder.refuseEvery s.every
  free : d.chip.busy = false
  recording : d.chip.recording = true
  allows : d.player.filter.allows = s.allowed
  writes : d.chip.writes = s.writes (s.played k part)
  total : d.timer.total = samplesIn (s.played k part)

variable {s : Score} {w : Window} {waiting : List Refill} {k : Nat} {part : List Located}
  {d d' : Device}

/-! ## Updates -/

theorem step_of_no_error (h : (d.player.update d.window d.chip d.timer).outcome.error = none) :
    ∃ stats, d.step = { d with
      player := { (d.player.update d.window d.chip d.timer).player with requests := .empty }
      chip := (d.player.update d.window d.chip d.timer).chip
      timer := (d.player.update d.window d.chip d.timer).timer
      outbox := (d.outbox.pushAll
        ((d.player.update d.window d.chip d.timer).request.toList.map .refill)).pushAll
          ((d.player.update d.window d.chip d.timer).player.requests.toList.map .refill)
      stats } := by
  unfold step
  dsimp only
  rw [h]
  exact ⟨_, rfl⟩

namespace OnCourse

/-- Whatever else of the device changes, it stays on course. -/
theorem congr (h : d.OnCourse s w waiting k part) (hactive : d'.active = d.active)
    (hdirect : d'.direct = d.direct)
    (hheld : d'.session.startPending = d.session.startPending)
    (herror : d'.lastError = d.lastError) (hplayer : d'.player = d.player)
    (hchip : d'.chip = d.chip) (htotal : d'.timer.total = d.timer.total) :
    d'.OnCourse s w waiting k part where
  active := hactive.trans h.active
  direct := hdirect ▸ h.direct
  held := hheld.trans h.held
  lastError := herror.trans h.lastError
  idle := hplayer ▸ h.idle
  regions := h.regions
  ready := hplayer ▸ h.ready
  midway := hplayer ▸ h.midway
  accepts := hchip ▸ h.accepts
  free := hchip ▸ h.free
  recording := hchip ▸ h.recording
  allows := hplayer ▸ h.allows
  writes := hchip ▸ h.writes
  total := htotal.trans h.total

/-- The player counts the passes that are behind it. -/
theorem loopCount_eq (h : d.OnCourse s w waiting k part) :
    d.player.loopCount = UInt32.ofNat k := by
  obtain ⟨f, hagree, hmid⟩ := h.midway
  exact hagree.loopCount.symm.trans hmid.loopCount

/-- As long as a player in the first `n` passes has not counted that many, it is still playing them.
-/
theorem lt_of_loopCount_lt (h : d.OnCourse s w waiting k part) {n : UInt32}
    (hwithin : Score.Within n.toNat k part) (hcount : d.player.loopCount < n) : k < n.toNat := by
  have hk : k < 2 ^ 32 := by
    have hn := n.toNat_lt
    rcases hwithin with hlt | ⟨heq, -⟩ <;> omega
  rw [h.loopCount_eq, UInt32.lt_iff_toNat_lt, UInt32.toNat_ofNat_of_lt' hk] at hcount
  exact hcount

/-- An update that reads only what has come keeps the device on course, and gets on. -/
theorem step (h : d.OnCourse s w waiting k part) (hplayable : s.Playable)
    (helapsed : d.timer.elapsed = true) (hreads : ∀ i ∈ d.player.reads d.window d.chip,
      d.window.byte i = w.byte i ∧ ∀ r ∈ waiting, ¬ r.Covers i) :
    let u := d.player.update d.window d.chip d.timer
    ∃ k' part', d.step.OnCourse s w (waiting ++ (u.request.toList ++ u.player.requests.toList))
        k' part' ∧ (k' = k ∨ k' = k + 1 ∧ part' = []) ∧
      headway d.chip (s.played k part) < headway d.step.chip (s.played k' part') ∧
      Paced s.first s.later k part d.timer k' part' d.step.timer := by
  intro u
  have hsame : u = d.player.update w d.chip d.timer :=
    Player.update_congr fun i hi => (hreads i hi).1
  have hclear : ∀ i ∈ d.player.reads w d.chip, Clear waiting d.player i := by
    intro i hi r hr
    rw [← Player.reads_congr fun i hi => (hreads i hi).1] at hi
    rw [h.idle, List.append_nil] at hr
    exact (hreads i hi).2 r hr
  obtain ⟨f, hagree, hmid⟩ := h.midway
  obtain ⟨f', k', part', hagree', hready', hmid', hcontinues, herror, htotal⟩ :=
    update_plays hplayable d.timer hagree h.ready hclear hmid
  have hheadway := headway_update hplayable d.timer h.accepts h.free hagree h.ready hclear hmid
    (s.played k part)
  have hkind := d.player.sameKind_update w d.chip d.timer
  have hallows := d.player.allows_update w d.chip d.timer
  have hwrites := d.player.writes_update w d.chip d.timer h.recording
  have hpaced := update_paced hplayable helapsed hcontinues
  have hregions : ∀ r ∈ u.request.toList ++ u.player.requests.toList, r.OfRegion :=
    Player.ofRegion_update (fun r hr => absurd (h.idle ▸ hr) List.not_mem_nil) d.timer
  obtain ⟨hplayed, hnext⟩ := s.played_continues hcontinues
  rw [← hsame] at hagree' hready' herror htotal hheadway hkind hallows hwrites hpaced
  rw [← hplayed] at hheadway
  obtain ⟨stats, hstep⟩ := step_of_no_error herror
  rw [hstep]
  refine ⟨k', part', ?_, hnext, hheadway, hpaced⟩
  exact {
    active := h.active
    direct := h.direct
    held := h.held
    lastError := h.lastError
    idle := rfl
    regions := by
      intro r hr
      rcases List.mem_append.mp hr with hr | hr
      · exact h.regions r hr
      · exact hregions r hr
    ready := by
      -- what the player has asked for waits behind the rest, where it stood before
      unfold ChipReplay.Ready at hready' ⊢
      rw [List.append_assoc] at hready'
      dsimp only
      rw [Fifo.toList_empty, List.append_nil]
      exact hready'.congr rfl rfl rfl rfl
    midway := ⟨f', { hagree' with }, hmid'⟩
    accepts := hkind.accepts.trans h.accepts
    free := hkind.busy.trans h.free
    recording := hkind.recording.trans h.recording
    allows := hallows.trans h.allows
    writes := by
      rw [hplayed, s.writes_append, ← h.writes]
      dsimp only
      rw [hwrites, h.allows]
      rfl
    total := by
      rw [hplayed, samplesIn_append, ← h.total]
      exact htotal }

/-! ## Polls -/

theorem ingested (h : d.OnCourse s w waiting k part) (hkept : d.ingested.active = true) :
    d.ingested.OnCourse s w waiting k part ∧ d.ingested.chip = d.chip ∧
      d.ingested.timer = d.timer := by
  have hflush := flushDirect_of_empty h.direct
  have hquiet := d.quiet_ingested
  obtain ⟨active, window, samples, lastUploadError, stats, heq, -⟩ := d.ingested_eq
  rw [hflush] at heq
  have hstarts := hquiet.startPending
  rw [heq] at hkept hstarts ⊢
  exact ⟨h.congr (hkept.trans h.active.symm) rfl hstarts rfl rfl rfl rfl, rfl, rfl⟩

/-- A poll keeps the device on course if the packet that it takes does not end the playback, and if
its update reads only what has come. It gets on if the wait is over. -/
theorem poll (h : d.OnCourse s w waiting k part) (hplayable : s.Playable)
    (hkept : d.ingested.active = true)
    (hreads : ∀ i ∈ d.polledReads,
      d.ingested.window.byte i = w.byte i ∧ ∀ r ∈ waiting, ¬ r.Covers i) :
    ∃ k' part', d.poll.OnCourse s w (waiting ++ d.refillsOf .poll) k' part' ∧
      (k' = k ∨ k' = k + 1 ∧ part' = []) ∧
      headway d.chip (s.played k part) ≤ headway d.poll.chip (s.played k' part') ∧
      (d.timer.elapsed = true →
        headway d.chip (s.played k part) < headway d.poll.chip (s.played k' part')) ∧
      Paced s.first s.later k part d.timer k' part' d.poll.timer := by
  obtain ⟨hingested, hchip, htimer⟩ := h.ingested hkept
  -- what comes after the update leaves the playback alone
  have hafter {waiting' : List Refill} {k' : Nat} {part' : List Located}
      (hstepped : d.ingested.stepIfDue.OnCourse s w waiting' k' part') :
      d.poll.OnCourse s w waiting' k' part' ∧ d.poll.chip = d.ingested.stepIfDue.chip ∧
        d.poll.timer = d.ingested.stepIfDue.timer := by
    obtain ⟨session, endpoint, outbox, stats, hpoll⟩ := poll_of_held h.held
    have hpending := (poll_upcoming h.held).2.2
    rw [hpoll] at hpending ⊢
    exact ⟨hstepped.congr rfl rfl (hpending.trans hstepped.held.symm) rfl rfl rfl rfl, rfl, rfl⟩
  rw [refillsOf_poll h.held]
  by_cases hdue :
      (d.ingested.active && d.ingested.timer.elapsed && d.ingested.direct.isEmpty) = true
  · have hstepIfDue : d.ingested.stepIfDue = d.ingested.step := by
      rw [stepIfDue, if_pos hdue]
    have hrefills : d.ingested.updateRefills =
        (d.ingested.player.update d.ingested.window d.ingested.chip d.ingested.timer).request.toList
          ++ (d.ingested.player.update d.ingested.window d.ingested.chip
            d.ingested.timer).player.requests.toList := by
      rw [updateRefills, if_pos hdue]
    unfold polledReads at hreads
    dsimp only at hreads
    rw [if_pos hdue] at hreads
    have helapsed : d.ingested.timer.elapsed = true := by
      rw [Bool.and_eq_true, Bool.and_eq_true] at hdue
      exact hdue.1.2
    obtain ⟨k', part', hstepped, hnext, hheadway, hpaced⟩ :=
      hingested.step hplayable helapsed hreads
    rw [← hrefills, ← hstepIfDue] at hstepped
    obtain ⟨hpolled, hsame, hsameTimer⟩ := hafter hstepped
    rw [← hstepIfDue, ← hsame, hchip] at hheadway
    rw [← hstepIfDue, ← hsameTimer, htimer] at hpaced
    exact ⟨k', part', hpolled, hnext, Nat.le_of_lt hheadway, fun _ => hheadway, hpaced⟩
  · have hstepIfDue : d.ingested.stepIfDue = d.ingested := by
      rw [stepIfDue, if_neg hdue]
    have hrefills : d.ingested.updateRefills = [] := by
      rw [updateRefills, if_neg hdue]
    obtain ⟨hpolled, hsame, hsameTimer⟩ := hafter (hstepIfDue ▸ hingested)
    rw [hstepIfDue, hchip] at hsame
    rw [hstepIfDue, htimer] at hsameTimer
    rw [hrefills, List.append_nil, hsame, hsameTimer]
    refine ⟨k, part, hpolled, .inl rfl, Nat.le_refl _, fun helapsed => ?_, .refl⟩
    -- the player is active and no write waits, so an update is due once the wait is over
    refine absurd ?_ hdue
    rw [hkept, htimer, helapsed, (Fifo.isEmpty_iff _).mpr hingested.direct]
    rfl

end OnCourse
end Device
end ChipReplay
