import ChipReplay.Proofs.Player.Headway
import ChipReplay.Proofs.Upload.Overrun
/-!
# What a device counts and asks for

A poll counts itself and the bytes of the packet that it takes (`Device.counted_poll`), and reports
nothing about an upload as long as the packet is expected and fits (`Device.unrefused_poll`). In an
upload that fits, every packet is and does (`Device.Receiving.unrefused`). Whether a playback runs,
fails or is started meanwhile, the device asks its host for whole regions and nothing else
(`Device.AsksRegions.poll`).
-/

namespace ChipReplay

/-- Both have counted the same polls and the same about uploads. -/
structure DeviceStats.SameIntake (s s' : DeviceStats) : Prop where
  polls : s'.polls = s.polls
  bytesReceived : s'.bytesReceived = s.bytesReceived
  overruns : s'.overruns = s.overruns

namespace DeviceStats.SameIntake

variable {s₁ s₂ s₃ : DeviceStats}

theorem refl (s : DeviceStats) : s.SameIntake s := ⟨rfl, rfl, rfl⟩

theorem trans (h : s₁.SameIntake s₂) (h' : s₂.SameIntake s₃) : s₁.SameIntake s₃ where
  polls := h'.polls.trans h.polls
  bytesReceived := h'.bytesReceived.trans h.bytesReceived
  overruns := h'.overruns.trans h.overruns

end DeviceStats.SameIntake

/-- A playback that begins asks for what follows the linear region, and one that does not asks for
nothing. -/
theorem Player.ofRegion_begin (p : Player) (w : Window) :
    ∀ r ∈ (p.begin w).2.requests.toList, r.OfRegion := by
  cases hread : readHeader w with
  | error e =>
    have hnone : (p.begin w).2.requests = .empty := by
      unfold begin
      dsimp only
      rw [hread]
    rw [hnone]
    exact fun r hr => absurd hr List.not_mem_nil
  | ok header =>
    rw [begin_of_readHeader hread]
    have hasked : (p.begun header).requests.toList = [] ++ preload (UInt32.ofNat linearEnd) :=
      Fifo.toList_pushAll _ _
    rw [hasked]
    exact ofRegion_preload

namespace Device

variable {d d' old : Device}

/-! ## What is counted -/

theorem sameIntake_stepIfDue (d : Device) : d.stats.SameIntake d.stepIfDue.stats := by
  unfold stepIfDue
  split
  · unfold step
    dsimp only
    split
    · split <;> exact ⟨rfl, rfl, rfl⟩
    · exact ⟨rfl, rfl, rfl⟩
  · exact .refl _

theorem sameIntake_sendUpTo (limit : Nat) (d : Device) :
    d.stats.SameIntake (d.sendUpTo limit).stats := by
  induction limit generalizing d with
  | zero => exact .refl _
  | succ limit ih =>
    unfold sendUpTo
    split
    · exact .refl _
    · next message outbox _ =>
      split
      · have hcounted : d.stats.SameIntake (d.stats.countSent message) := by
          cases message <;> exact ⟨rfl, rfl, rfl⟩
        exact hcounted.trans (ih { d with
          session := _, endpoint := _, outbox, stats := d.stats.countSent message })
      · exact ⟨rfl, rfl, rfl⟩

theorem sameIntake_startIfAsked (d : Device) : d.stats.SameIntake d.startIfAsked.stats := by
  have hplay (d : Device) : d.startPlayback.stats = d.stats := by
    rcases hresult : d.player.begin d.window with ⟨error | _, q⟩
    · obtain ⟨active, voices, direct, lastError, heq⟩ := startPlayback_of_error hresult
      rw [heq]
    · rw [startPlayback_of_ok hresult]
  unfold startIfAsked
  dsimp only
  split
  · rw [hplay]
    exact .refl _
  · exact .refl _

/-- What is counted about uploads is counted before the player is updated. -/
theorem sameIntake_poll (d : Device) : d.ingested.stats.SameIntake d.poll.stats :=
  ((d.ingested.sameIntake_stepIfDue).trans (sameIntake_sendUpTo 2 _)).trans
    (sameIntake_startIfAsked _)

/-- A packet that is stored is counted with its bytes. -/
theorem stats_store (d : Device) (c : Chunk) :
    (d.store c).stats = { d.stats with
      packets := d.stats.packets + 1
      bytesReceived := d.stats.bytesReceived + c.bytes.size } := by
  unfold store
  dsimp only
  split
  · obtain ⟨samples, lastUploadError, heq, -⟩ := storeSamples_eq { d with stats := { d.stats with
      packets := d.stats.packets + 1
      bytesReceived := d.stats.bytesReceived + c.bytes.size } } c.offset c.bytes
    rw [heq]
  · obtain ⟨active, window, lastUploadError, heq, -⟩ :=
      storeWindow_eq { d with stats := { d.stats with
        packets := d.stats.packets + 1
        bytesReceived := d.stats.bytesReceived + c.bytes.size } } c.offset c.bytes
    rw [heq]

theorem counted_ingest (d : Device) :
    d.ingest.stats.polls = d.stats.polls ∧
      d.ingest.stats.bytesReceived = d.stats.bytesReceived + d.polled.elim 0 (·.bytes.size) := by
  unfold ingest polled
  rcases d.session.poll d.endpoint with ⟨_ | _ | c, session, endpoint⟩
  · exact ⟨rfl, rfl⟩
  · exact ⟨rfl, rfl⟩
  · dsimp only
    rw [stats_store]
    exact ⟨rfl, rfl⟩

/-- A poll counts itself, and the bytes of the packet that it takes. -/
theorem counted_poll (d : Device) :
    d.poll.stats.polls = d.stats.polls + 1 ∧
      d.poll.stats.bytesReceived = d.stats.bytesReceived + d.polled.elim 0 (·.bytes.size) := by
  obtain ⟨hpolls, hbytes⟩ := counted_ingest
    ({ d with stats := { d.stats with polls := d.stats.polls + 1 } } : Device).flushDirect
  have hsame := d.sameIntake_poll
  exact ⟨hsame.polls.trans hpolls, hsame.bytesReceived.trans hbytes⟩

/-! ## What is reported -/

theorem lastUploadError_store_of_fits (d : Device) {c : Chunk}
    (hfits : c.offset + c.bytes.size ≤ c.destination.capacity) :
    (d.store c).lastUploadError = d.lastUploadError := by
  unfold Destination.capacity at hfits
  unfold store
  dsimp only
  cases hsamples : c.destination.isSamples with
  | true =>
    rw [hsamples, if_pos rfl] at hfits
    rw [if_pos rfl, storeSamples]
    dsimp only
    rw [if_pos hfits]
    rfl
  | false =>
    rw [hsamples, if_neg Bool.false_ne_true] at hfits
    rw [if_neg Bool.false_ne_true, storeWindow]
    dsimp only
    rw [dif_pos hfits]
    split <;> rfl

theorem unrefused_ingest (hexpected : ∀ error, (d.session.poll d.endpoint).1 ≠ .error error)
    (hfits : ∀ c, d.polled = some c → c.offset + c.bytes.size ≤ c.destination.capacity) :
    d.ingest.lastUploadError = d.lastUploadError ∧ d.ingest.stats.overruns = d.stats.overruns := by
  unfold polled at hfits
  unfold ingest
  rcases hpoll : d.session.poll d.endpoint with ⟨error | _ | c, session, endpoint⟩
  · exact absurd (congrArg Prod.fst hpoll) (hexpected error)
  · exact ⟨rfl, rfl⟩
  · rw [hpoll] at hfits
    dsimp only
    rw [lastUploadError_store_of_fits _ (hfits c rfl), stats_store]
    exact ⟨rfl, rfl⟩

/-- A poll reports nothing and counts no overrun if the packet that it takes is expected and fits.
-/
theorem unrefused_poll (hexpected : ∀ error, (d.session.poll d.endpoint).1 ≠ .error error)
    (hfits : ∀ c, d.polled = some c → c.offset + c.bytes.size ≤ c.destination.capacity) :
    d.poll.lastUploadError = d.lastUploadError ∧ d.poll.stats.overruns = d.stats.overruns := by
  obtain ⟨herror, hoverruns⟩ := unrefused_ingest
    (d := ({ d with stats := { d.stats with polls := d.stats.polls + 1 } } : Device).flushDirect)
    hexpected hfits
  rw [lastUploadError_poll, d.sameIntake_poll.overruns]
  exact ⟨herror, hoverruns⟩

/-- Without an upload nothing is refused. -/
theorem unrefused_of_inactive (hover : d.session.active = false) :
    d.polled = none ∧ d.poll.lastUploadError = d.lastUploadError ∧
      d.poll.stats.overruns = d.stats.overruns := by
  have hpoll := Session.poll_of_inactive hover d.endpoint
  have hnone : d.polled = none := by
    rw [polled, hpoll]
    rfl
  refine ⟨hnone, unrefused_poll (fun error => ?_) fun c hc => ?_⟩
  · rw [hpoll]
    simp
  · exact absurd (hnone.symm.trans hc) (by simp)

/-- In an upload that fits nothing is refused. -/
theorem Receiving.unrefused {u : Upload} {done rest : ByteArray} {waiting coming : List Packet}
    (h : Receiving old u done rest waiting coming d)
    (hfits : u.offset.toNat + u.data.size ≤ u.destination.capacity) :
    d.poll.lastUploadError = d.lastUploadError ∧ d.poll.stats.overruns = d.stats.overruns := by
  obtain ⟨done', rest', hpolled, -⟩ := h.poll hfits
  refine unrefused_poll (fun error herror => ?_) fun c hc => ?_
  -- an overrun would disable the endpoint, which goes on holding what waits
  · exact Bool.false_ne_true ((spent_of_error herror).1.disabled.symm.trans hpolled.holds.enabled)
  · obtain ⟨-, hdestination, hoffset, hstop⟩ := Session.range_of_poll (poll_of_polled hc)
    have hsame : u.destination = c.destination :=
      Option.some.inj (h.destination.symm.trans hdestination)
    rw [h.stop] at hstop
    rw [← hsame]
    omega

/-! ## What is asked for -/

/-- The device asks for whole regions only, in the messages that it is going to send and in those
that its player has not handed out. -/
structure AsksRegions (d : Device) : Prop where
  upcoming : ∀ r ∈ d.upcoming.filterMap Notification.refillIn, r.OfRegion
  requests : ∀ r ∈ d.player.requests.toList, r.OfRegion

namespace AsksRegions

theorem of_quiet (h : d.AsksRegions) (hquiet : d.Quiet d') (hplayer : d'.player = d.player) :
    d'.AsksRegions where
  upcoming := hquiet.upcoming_eq.1 ▸ h.upcoming
  requests := hplayer ▸ h.requests

/-- What the host reads is a part of what was upcoming. -/
theorem read (h : d.AsksRegions) : (d.react .read).AsksRegions := by
  refine ⟨fun r hr => h.upcoming r ?_, h.requests⟩
  have hupcoming : d.upcoming = d.endpoint.inSlot.toList ++ (d.react .read).upcoming := rfl
  rw [hupcoming, List.filterMap_append]
  exact List.mem_append_right _ hr

/-- The refill that the message in the slot asks for is upcoming. -/
theorem inSlot (h : d.AsksRegions) {message : ByteArray} {r : Refill}
    (hslot : d.endpoint.inSlot = some message) (hr : Notification.refillIn message = some r) :
    r.OfRegion := by
  refine h.upcoming r (List.mem_filterMap.mpr ⟨message, ?_, hr⟩)
  rw [Device.upcoming, hslot]
  exact List.mem_cons_self

theorem stepIfDue (h : d.AsksRegions) : d.stepIfDue.AsksRegions := by
  obtain ⟨hupcoming, -⟩ := d.stepIfDue_upcoming
  let u := d.player.update d.window d.chip d.timer
  have hupdate : ∀ r ∈ u.request.toList ++ u.player.requests.toList, r.OfRegion :=
    Player.ofRegion_update h.requests d.timer
  refine ⟨fun r hr => ?_, ?_⟩
  · rw [hupcoming, List.filterMap_append, Outgoing.refillsIn_wire, Outgoing.filterMap_refills,
      List.mem_append] at hr
    rcases hr with hr | hr
    · exact h.upcoming r hr
    · unfold updateRefills at hr
      split at hr
      · exact hupdate r hr
      · exact absurd hr List.not_mem_nil
  · unfold Device.stepIfDue
    split
    · obtain ⟨active, voices, direct, lastError, stats, heq⟩ := d.step_eq
      rw [heq]
      exact fun r hr => absurd hr List.not_mem_nil
    · exact h.requests

theorem sendMessages (h : d.AsksRegions) : d.sendMessages.AsksRegions := by
  obtain ⟨hupcoming, -⟩ := d.sendMessages_upcoming
  obtain ⟨session, endpoint, outbox, stats, heq⟩ := sendUpTo_eq 2 d
  have hplayer : d.sendMessages.player = d.player := by rw [Device.sendMessages, heq]
  exact ⟨hupcoming ▸ h.upcoming, hplayer ▸ h.requests⟩

theorem startPlayback (h : d.AsksRegions) : d.startPlayback.AsksRegions := by
  obtain ⟨houtbox, -, hendpoint⟩ := d.startPlayback_outbox
  have hbegun := d.player.ofRegion_begin d.window
  refine ⟨fun r hr => ?_, ?_⟩
  · rw [Device.upcoming, houtbox, hendpoint, List.filterMap_append, Outgoing.refillsIn_wire,
      List.filterMap_cons_none rfl, Outgoing.filterMap_refills, List.mem_append] at hr
    rcases hr with hr | hr
    · refine h.upcoming r ?_
      rw [Device.upcoming, List.filterMap_append]
      exact List.mem_append_left _ hr
    · unfold startRefills at hr
      rcases hbegin : d.player.begin d.window with ⟨error | _, q⟩
      · rw [hbegin] at hr
        exact absurd hr List.not_mem_nil
      · rw [hbegin] at hr hbegun
        exact hbegun r hr
  · rcases hbegin : d.player.begin d.window with ⟨error | _, q⟩
    · obtain ⟨active, voices, direct, lastError, heq⟩ := startPlayback_of_error hbegin
      rw [heq]
      rw [hbegin] at hbegun
      exact hbegun
    · rw [startPlayback_of_ok hbegin]
      exact fun r hr => absurd hr List.not_mem_nil

theorem startIfAsked (h : d.AsksRegions) : d.startIfAsked.AsksRegions := by
  have hsequence : d.session.takeStart.2.sequence = d.session.sequence := by
    unfold Session.takeStart
    split <;> rfl
  have htaken : ({ d with session := d.session.takeStart.2 } : Device).AsksRegions := by
    refine ⟨?_, h.requests⟩
    unfold Device.upcoming
    dsimp only
    rw [hsequence]
    exact h.upcoming
  unfold Device.startIfAsked
  dsimp only
  split
  · exact htaken.startPlayback
  · exact htaken

theorem poll (h : d.AsksRegions) : d.poll.AsksRegions := by
  have hplayer : d.ingested.player = d.player := by
    obtain ⟨active, window, samples, lastUploadError, stats, heq, -⟩ := d.ingested_eq
    rw [heq]
  exact (h.of_quiet d.quiet_ingested hplayer).stepIfDue.sendMessages.startIfAsked

end AsksRegions
end Device
end ChipReplay
