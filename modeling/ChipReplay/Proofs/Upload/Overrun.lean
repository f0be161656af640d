import ChipReplay.Proofs.Upload.Confinement
/-!
# More bytes than were negotiated

The packets that a device may still store are those that it holds and those that are pushed later
(`Device.storedIn_sublist`). When a packet begins inside the range of an upload and ends behind it,
the device disables the endpoint and so loses every packet that it holds: nothing of that packet or
of those behind it is ever stored (`Device.excess_refused`). Excess that begins with a packet of its
own is another matter. The upload is over before the device looks at it, so that it waits in its
descriptor for the next upload (`Device.excess_kept`).
-/

namespace ChipReplay

/-- Bytes in all the pieces. -/
def totalSize : List ByteArray → Nat
  | [] => 0
  | bytes :: pieces => bytes.size + totalSize pieces

/-- A packet that goes beyond the end of the upload ends it. -/
theorem Session.poll_of_over {s : Session} {e : Endpoint} {t : Destination} {bytes : ByteArray}
    {ps : List Packet} (hactive : s.active = true) (hdestination : s.destination = some t)
    (h : e.Holds s.turn (.data bytes :: ps)) (hover : s.remaining < bytes.size) :
    s.poll e = (.error (.overrun bytes.size s.remaining), { s with active := false },
      e.setEnabled false) := by
  have hready : (s.active && e.enabled) = true := by rw [hactive, h.enabled]; rfl
  have harrival : e.arrival s.turn = .received bytes.size := by
    rw [Endpoint.arrival, h.slot]
    rfl
  rw [poll, hready, hdestination]
  dsimp only
  rw [harrival]
  dsimp only
  rw [if_pos hover]

namespace Device

variable {d d' : Device} {e : Event} {events : List Event} {ps : List Packet}

/-! ## Runs -/

theorem pushedIn_cons (e : Event) (events : List Event) :
    pushedIn (e :: events) = e.pushed?.toList ++ pushedIn events := by
  unfold pushedIn
  cases hpushed : e.pushed? with
  | none => rw [List.filterMap_cons_none hpushed]; rfl
  | some p => rw [List.filterMap_cons_some hpushed]; rfl

theorem storedIn_append (d : Device) (first later : List Event) :
    d.storedIn (first ++ later) = d.storedIn first ++ (d.run first).storedIn later := by
  induction first generalizing d with
  | nil => rfl
  | cons e first ih =>
    show (d.storedBy e).toList ++ (d.react e).storedIn (first ++ later) = _
    rw [ih, ← List.append_assoc]
    rfl

/-- A byte that a run changes lies in a packet that the run stores. -/
theorem run_changes {t : Destination} {i : Nat} (h : (d.run events).memory t i ≠ d.memory t i) :
    ∃ c ∈ d.storedIn events, t.isSamples = c.destination.isSamples ∧ c.offset ≤ i ∧
      i < c.offset + c.bytes.size := by
  induction events generalizing d with
  | nil => exact absurd rfl h
  | cons e events ih =>
    by_cases hsame : (d.react e).memory t i = d.memory t i
    · rw [← hsame] at h
      obtain ⟨c, hc, hrange⟩ := ih h
      exact ⟨c, List.mem_append_right _ hc, hrange⟩
    · obtain ⟨c, hstored, hrange⟩ := react_changes hsame
      exact ⟨c, List.mem_append_left _ (Option.mem_toList.mpr hstored), hrange⟩

/-! ## Which packets may be stored -/

/-- The packets `ps` may still be taken by the device. -/
def Pending (d : Device) (ps : List Packet) : Prop := d.session.Pending d.endpoint ps

/-- An event stores a packet that the device holds, and only a packet that is pushed joins those
that it holds. -/
theorem Pending.react (h : d.Pending ps) (e : Event) :
    ∃ ps', (d.react e).Pending ps' ∧
      ((d.storedBy e).toList.map Chunk.packet ++ ps').Sublist (ps ++ e.pushed?.toList) := by
  cases e with
  | configure =>
    obtain ⟨ps', hpending, hsub⟩ := Session.Pending.enableBulk h {}
    exact ⟨ps', hpending, by simpa [storedBy, Event.pushed?] using hsub⟩
  | control setup data =>
    obtain ⟨ps', hpending, hsub⟩ := Session.Pending.control h setup data
    exact ⟨ps', hpending, by simpa [storedBy, Event.pushed?] using hsub⟩
  | push p =>
    obtain ⟨ps', hpending, hsub⟩ := Session.Pending.push h p
    exact ⟨ps', hpending, by simpa [storedBy, Event.pushed?] using hsub⟩
  | poll =>
    obtain ⟨ps', hpending, hsub⟩ := Session.Pending.poll h
    obtain ⟨hsession, hendpoint⟩ := d.sameUpload_polled
    exact ⟨ps', hpending.congr hsession.turn hendpoint,
      by simpa [storedBy, polled, Event.pushed?] using hsub⟩
  | read =>
    exact ⟨ps, Session.Pending.congr h rfl ⟨rfl, rfl, rfl, rfl, rfl⟩,
      by simp [storedBy, Event.pushed?]⟩
  | live event =>
    obtain ⟨filter, direct, voices, midi, pcmMuted, heq⟩ := d.steered_live event
    refine ⟨ps, ?_, by simp [storedBy, Event.pushed?]⟩
    show (d.live event).Pending ps
    rw [heq]
    exact h
  | time | chip => exact ⟨ps, h, by simp [storedBy, Event.pushed?]⟩

/-- A run stores, in order, packets that the device holds and packets that are pushed in it. -/
theorem storedIn_sublist (h : d.Pending ps) (events : List Event) :
    ((d.storedIn events).map Chunk.packet).Sublist (ps ++ pushedIn events) := by
  induction events generalizing d ps with
  | nil => exact List.nil_sublist _
  | cons e events ih =>
    obtain ⟨ps', hpending, hsub⟩ := h.react e
    rw [storedIn, List.map_append, pushedIn_cons, ← List.append_assoc]
    refine List.Sublist.trans ?_ (hsub.append (.refl _))
    rw [List.append_assoc]
    exact (List.Sublist.refl _).append (ih hpending)

theorem exists_pending (config : DeviceConfig) (chip : Recorder) (timer : Timer)
    (events : List Event) : ∃ ps, ((Device.new config chip timer).run events).Pending ps := by
  apply run_keeps (P := fun d => ∃ ps, d.Pending ps)
  · rintro d e ⟨ps, hpending⟩
    obtain ⟨ps', hpending', -⟩ := hpending.react e
    exact ⟨ps', hpending'⟩
  · exact ⟨[], .inr ⟨rfl, rfl⟩⟩

/-! ## A packet that goes beyond the end -/

/-- The packets that wait on the device and those that are still to come are the pieces `left`,
which the upload has room for, then `crossing`, which goes beyond the upload's end, and then
others. -/
structure Approaching (left : List ByteArray) (crossing : ByteArray) (rest : List ByteArray)
    (waiting coming : List Packet) (d : Device) : Prop where
  destination : ∃ t, d.session.destination = some t
  active : d.session.active = true
  holds : d.endpoint.Holds d.session.turn waiting
  packets : waiting ++ coming = (left ++ crossing :: rest).map .data
  sizes : ∀ bytes ∈ left, 0 < bytes.size ∧ bytes.size ≤ packetSize
  fits : totalSize left < d.session.remaining
  beyond : d.session.remaining < totalSize left + crossing.size

namespace Approaching

variable {left rest : List ByteArray} {crossing : ByteArray} {waiting coming : List Packet}

theorem congr (h : Approaching left crossing rest waiting coming d) (hsame : d.SameUpload d') :
    Approaching left crossing rest waiting coming d' ∧
      d'.session.remaining = d.session.remaining := by
  have hremaining : d'.session.remaining = d.session.remaining := by
    rw [Session.remaining, hsame.session.stop, hsame.session.write]
    rfl
  refine ⟨?_, hremaining⟩
  exact {
    destination := hsame.session.destination ▸ h.destination
    active := hsame.session.active.trans h.active
    holds := hsame.session.turn ▸ h.holds.congr hsame.endpoint
    packets := h.packets
    sizes := h.sizes
    fits := hremaining ▸ h.fits
    beyond := hremaining ▸ h.beyond }

theorem push {p : Packet} (h : Approaching left crossing rest waiting (p :: coming) d) :
    Approaching left crossing rest (waiting ++ [p]) coming (d.react (.push p)) where
  destination := h.destination
  active := h.active
  holds := h.holds.push p
  packets := by
    rw [List.append_assoc]
    exact h.packets
  sizes := h.sizes
  fits := h.fits
  beyond := h.beyond

/-- A poll takes a piece that the upload has room for. -/
theorem poll_of_piece {bytes : ByteArray} {p : Packet} {ps : List Packet}
    (h : Approaching (bytes :: left) crossing rest (p :: ps) coming d) :
    (∃ c, d.polled = some c ∧ c.bytes = bytes) ∧
      Approaching left crossing rest ps coming d.poll ∧
      d.poll.session.remaining + bytes.size = d.session.remaining := by
  obtain ⟨hsession, hendpoint⟩ := d.sameUpload_polled
  obtain ⟨t, hdestination⟩ := h.destination
  obtain ⟨rfl, hpackets⟩ := List.cons.inj h.packets
  obtain ⟨⟨hpos, hle⟩, hsizes⟩ := List.forall_mem_cons.mp h.sizes
  have htotal : totalSize (bytes :: left) = bytes.size + totalSize left := rfl
  have hfits := h.fits
  have hbeyond := h.beyond
  have hroom : bytes.size ≤ d.session.remaining := by omega
  have hpoll := Session.poll_of_data h.active hdestination h.holds hroom hle
  rw [if_neg (by omega)] at hpoll
  rw [hpoll] at hsession hendpoint
  have hremaining : d.poll.session.remaining = d.session.remaining - bytes.size := by
    rw [Session.remaining, hsession.stop, hsession.write]
    exact Nat.sub_add_eq _ _ _
  -- the position stays in front of the end, so the upload goes on
  have hahead : d.session.write + bytes.size ≠ d.session.stop := by
    unfold Session.remaining at hfits
    omega
  refine ⟨⟨_, by rw [polled, hpoll]; rfl, rfl⟩, ?_, by omega⟩
  exact {
    destination := ⟨t, hsession.destination.trans hdestination⟩
    active := by
      rw [hsession.active]
      show (d.session.active && d.session.write + bytes.size != d.session.stop) = true
      rw [h.active, bne_iff_ne.mpr hahead]
      rfl
    holds := hsession.turn ▸ h.holds.arm.congr hendpoint
    packets := hpackets
    sizes := hsizes
    fits := by omega
    beyond := by omega }

/-- A poll goes on towards the overrun, or ends with it. -/
theorem poll (h : Approaching left crossing rest waiting coming d) :
    (∃ left', left = d.polled.toList.map Chunk.bytes ++ left' ∧
      Approaching left' crossing rest waiting.tail coming d.poll ∧
      d.poll.session.remaining - totalSize left' = d.session.remaining - totalSize left) ∨
    left = [] ∧
      (d.session.poll d.endpoint).1 = .error (.overrun crossing.size d.session.remaining) := by
  cases waiting with
  | nil =>
    obtain ⟨hsession, hendpoint⟩ := d.sameUpload_polled
    have hpoll := Session.poll_of_drained h.holds
    have hpolled : d.polled = none := by rw [polled, hpoll]; rfl
    rw [hpoll] at hsession hendpoint
    obtain ⟨happroaching, hremaining⟩ := h.congr ⟨hsession, hendpoint⟩
    refine .inl ⟨left, ?_, happroaching, by rw [hremaining]⟩
    rw [hpolled]
    rfl
  | cons p ps =>
    cases left with
    | nil =>
      obtain ⟨t, hdestination⟩ := h.destination
      obtain ⟨rfl, -⟩ := List.cons.inj h.packets
      have hbeyond : d.session.remaining < 0 + crossing.size := h.beyond
      have hpoll := Session.poll_of_over h.active hdestination h.holds (by omega)
      exact .inr ⟨rfl, by rw [hpoll]⟩
    | cons bytes left =>
      obtain ⟨⟨c, hpolled, hbytes⟩, happroaching, hremaining⟩ := h.poll_of_piece
      have htotal : totalSize (bytes :: left) = bytes.size + totalSize left := rfl
      refine .inl ⟨left, ?_, happroaching, by omega⟩
      rw [hpolled, ← hbytes]
      rfl

/-- An event goes on towards the overrun, or is the poll that ends with it. -/
theorem react (h : Approaching left crossing rest waiting (e.pushed?.toList ++ coming) d)
    (hkeeps : e.KeepsUpload) :
    (∃ left', left = (d.storedBy e).toList.map Chunk.bytes ++ left' ∧
      Approaching left' crossing rest (waitingThen waiting e) coming (d.react e) ∧
      (d.react e).session.remaining - totalSize left' = d.session.remaining - totalSize left) ∨
    e = .poll ∧ left = [] ∧
      (d.session.poll d.endpoint).1 = .error (.overrun crossing.size d.session.remaining) := by
  have hquiet (hpush : e.pushed? = none) (hpoll : e.isPoll = false) :
      ∃ left', left = (d.storedBy e).toList.map Chunk.bytes ++ left' ∧
        Approaching left' crossing rest (waitingThen waiting e) coming (d.react e) ∧
        (d.react e).session.remaining - totalSize left' =
          d.session.remaining - totalSize left := by
    obtain ⟨hsame, -, hstored⟩ := sameUpload_react hkeeps hpush hpoll (d := d)
    rw [hpush] at h
    obtain ⟨happroaching, hremaining⟩ := h.congr hsame
    rw [hstored, waitingThen_of_quiet hpush hpoll]
    exact ⟨left, rfl, happroaching, by rw [hremaining]⟩
  cases e with
  | push p => exact .inl ⟨left, rfl, h.push, rfl⟩
  | poll => exact (Approaching.poll h).imp_right fun hover => ⟨rfl, hover⟩
  | configure | control | read | live | time | chip => exact .inl (hquiet rfl rfl)

/-- A run goes on towards the overrun, or has come to the poll that ends with it. -/
theorem run (h : Approaching left crossing rest waiting (pushedIn events ++ coming) d)
    (hkeep : ∀ e ∈ events, e.KeepsUpload) :
    (∃ left', Approaching left' crossing rest (waitingAfter waiting events) coming
      (d.run events)) ∨
    ∃ first later, events = first ++ .poll :: later ∧
      (d.storedIn first).map Chunk.bytes = left ∧
      ((d.run first).session.poll (d.run first).endpoint).1 =
        .error (.overrun crossing.size (d.session.remaining - totalSize left)) := by
  induction events generalizing d left waiting with
  | nil => exact .inl ⟨left, h⟩
  | cons e events ih =>
    obtain ⟨he, hkeep⟩ := List.forall_mem_cons.mp hkeep
    rw [pushedIn_cons, List.append_assoc] at h
    rcases h.react he with ⟨left', rfl, happroaching, hremaining⟩ | ⟨rfl, rfl, hover⟩
    · rcases ih happroaching hkeep with hgoes | ⟨first, later, rfl, hstored, hover⟩
      · exact .inl hgoes
      · refine .inr ⟨e :: first, later, rfl, ?_, hremaining ▸ hover⟩
        rw [storedIn, List.map_append, hstored]
    · exact .inr ⟨[], events, rfl, rfl, hover⟩

end Approaching

/-! ## After the overrun -/

/-- The device answers no control transfer with an error in the event. -/
def Event.Accepted : Event → Prop
  | .control setup data => ∃ r, Request.decode setup data = .ok r
  | _ => True

/-- No upload is active, and the bulk endpoint is disabled and holds no packet in its queue. -/
structure Spent (d : Device) : Prop where
  inactive : d.session.active = false
  disabled : d.endpoint.enabled = false
  queue : d.endpoint.queue.toList = []

/-- What is reported about an upload is decided when its packet is taken. -/
theorem lastUploadError_poll (d : Device) :
    d.poll.lastUploadError = d.ingested.lastUploadError := by
  have hstep (d : Device) : d.stepIfDue.lastUploadError = d.lastUploadError := by
    unfold stepIfDue
    split
    · obtain ⟨active, voices, direct, lastError, stats, heq⟩ := d.step_eq
      rw [heq]
    · rfl
  have hsend (d : Device) : d.sendMessages.lastUploadError = d.lastUploadError := by
    obtain ⟨session, endpoint, outbox, stats, heq⟩ := sendUpTo_eq 2 d
    rw [sendMessages, heq]
  have hplay (d : Device) : d.startPlayback.lastUploadError = d.lastUploadError := by
    rcases hresult : d.player.begin d.window with ⟨error | _, q⟩
    · obtain ⟨active, voices, direct, lastError, heq⟩ := startPlayback_of_error hresult
      rw [heq]
    · rw [startPlayback_of_ok hresult]
  have hstart (d : Device) : d.startIfAsked.lastUploadError = d.lastUploadError := by
    unfold startIfAsked
    dsimp only
    split
    · exact hplay _
    · rfl
  rw [poll_eq, hstart, hsend, hstep]

theorem lastUploadError_ingest_of_error {error : UploadError}
    (h : (d.session.poll d.endpoint).1 = .error error) :
    d.ingest.lastUploadError = some error := by
  unfold ingest
  dsimp only
  rw [h]

theorem lastUploadError_ingest_of_none (h : (d.session.poll d.endpoint).1 = .ok none) :
    d.ingest.lastUploadError = d.lastUploadError := by
  unfold ingest
  dsimp only
  rw [h]

/-- The poll that ends with an overrun reports it, and leaves the endpoint disabled. -/
theorem spent_of_error {error : UploadError} (h : (d.session.poll d.endpoint).1 = .error error) :
    d.poll.Spent ∧ d.poll.lastUploadError = some error := by
  obtain ⟨hsession, hendpoint⟩ := d.sameUpload_polled
  have houtcome := d.session.outcome_poll d.endpoint
  have hspent : (d.session.poll d.endpoint).2.1.active = false ∧
      (d.session.poll d.endpoint).2.2.enabled = false ∧
      (d.session.poll d.endpoint).2.2.queue.toList = [] := by
    generalize d.session.poll d.endpoint = r at h houtcome
    cases houtcome with
    | overrun => exact ⟨rfl, rfl, rfl⟩
    | idle | invalid | dropped | taken => cases h
  obtain ⟨hinactive, hdisabled, hqueue⟩ := hspent
  refine ⟨⟨?_, ?_, ?_⟩, ?_⟩
  · exact hsession.active.trans hinactive
  · exact hendpoint.enabled.trans hdisabled
  · rw [hendpoint.queue, hqueue]
  · rw [lastUploadError_poll]
    exact lastUploadError_ingest_of_error (d := Device.flushDirect _) h

namespace Spent

theorem congr (h : d.Spent) (hsame : d.SameUpload d') : d'.Spent where
  inactive := hsame.session.active.trans h.inactive
  disabled := hsame.endpoint.enabled.trans h.disabled
  queue := by rw [hsame.endpoint.queue, h.queue]

/-- Nothing is stored, and the endpoint stays disabled until another upload is opened. -/
theorem react (h : d.Spent) (hkeeps : e.KeepsUpload) :
    (d.react e).Spent ∧ d.storedBy e = none := by
  have hnone : d.storedBy e = none := by
    cases hstored : d.storedBy e with
    | none => rfl
    | some c => exact absurd (range_of_storedBy hstored).1 (by simp [h.inactive])
  refine ⟨?_, hnone⟩
  cases e with
  | push p =>
    have hpush : (d.endpoint.push p).enabled = false ∧ (d.endpoint.push p).queue.toList = [] := by
      rw [Endpoint.push, if_neg (by simp [h.disabled])]
      exact ⟨h.disabled, h.queue⟩
    exact ⟨h.inactive, hpush.1, hpush.2⟩
  | poll =>
    obtain ⟨hsession, hendpoint⟩ := d.sameUpload_polled
    rw [Session.poll_of_inactive h.inactive] at hsession hendpoint
    exact h.congr ⟨hsession, hendpoint⟩
  | configure | control | read | live | time | chip =>
    exact h.congr (sameUpload_react hkeeps rfl rfl).1

/-- What was reported stays reported until the device refuses a control transfer. -/
theorem lastUploadError_react (h : d.Spent) (hkeeps : e.KeepsUpload) (haccepted : e.Accepted) :
    (d.react e).lastUploadError = d.lastUploadError := by
  cases e with
  | configure => exact hkeeps.elim
  | control setup data =>
    obtain ⟨r, hrequest⟩ := haccepted
    obtain ⟨response, hresponse⟩ := d.session.response_of_decode d.endpoint hrequest
    show (d.control setup data).2.lastUploadError = _
    unfold Device.control
    dsimp only
    rw [hresponse]
  | poll =>
    show d.poll.lastUploadError = _
    rw [lastUploadError_poll]
    apply lastUploadError_ingest_of_none (d := Device.flushDirect _)
    show (d.session.poll d.endpoint).1 = .ok none
    rw [Session.poll_of_inactive h.inactive]
  | live event =>
    obtain ⟨filter, direct, voices, midi, pcmMuted, heq⟩ := d.steered_live event
    show (d.live event).lastUploadError = _
    rw [heq]
  | push | read | time | chip => rfl

theorem run (h : d.Spent) (hkeep : ∀ e ∈ events, e.KeepsUpload) :
    (d.run events).Spent ∧ d.storedIn events = [] ∧
      ((∀ e ∈ events, e.Accepted) → (d.run events).lastUploadError = d.lastUploadError) := by
  induction events generalizing d with
  | nil => exact ⟨h, rfl, fun _ => rfl⟩
  | cons e events ih =>
    obtain ⟨he, hkeep⟩ := List.forall_mem_cons.mp hkeep
    obtain ⟨hspent, hnone⟩ := h.react he
    obtain ⟨hspent', hnothing, hreported⟩ := ih hspent hkeep
    refine ⟨hspent', ?_, ?_⟩
    · rw [storedIn, hnone, hnothing]
      rfl
    · intro haccepted
      obtain ⟨hfirst, haccepted⟩ := List.forall_mem_cons.mp haccepted
      exact (hreported haccepted).trans (h.lastUploadError_react he hfirst)

end Spent

/-! ## The whole upload -/

/-- When as many more polls have come as packets wait, the overrun has come. -/
theorem Approaching.not_run {left rest : List ByteArray} {crossing : ByteArray}
    {waiting : List Packet} {later : List Event}
    (h : Approaching left crossing rest waiting (pushedIn events ++ []) d)
    (hkeep : ∀ e ∈ events ++ later, e.KeepsUpload) (hnone : pushedIn later = [])
    (hpolls : (d.run events).endpoint.waiting ≤ later.countP Event.isPoll)
    (left' : List ByteArray) :
    ¬ Approaching left' crossing rest (waitingAfter waiting (events ++ later)) []
      (d.run (events ++ later)) := by
  intro hgoes
  have hfirst : ∀ e ∈ events, e.KeepsUpload := fun e he => hkeep e (List.mem_append_left _ he)
  have hlater : ∀ e ∈ later, e.KeepsUpload := fun e he => hkeep e (List.mem_append_right _ he)
  rcases h.run hfirst with ⟨left'', hsent⟩ | ⟨first, last, rfl, -, hover⟩
  -- no packet waits any more, but one that goes beyond the end should
  · have hlength := hsent.holds.waiting
    have hempty : waitingAfter waiting (events ++ later) = [] := by
      rw [waitingAfter, List.foldl_append]
      exact (waitingAfter_of_no_push hnone _).trans (List.drop_eq_nil_of_le (hlength ▸ hpolls))
    have hpackets := hgoes.packets
    rw [hempty] at hpackets
    exact absurd hpackets (by simp)
  -- the overrun has disabled the endpoint
  · have hspent : (d.run (first ++ .poll :: last ++ later)).Spent := by
      rw [List.append_assoc, run_append]
      refine ((spent_of_error hover).1.run fun e he => ?_).1
      rcases List.mem_append.mp he with he | he
      · exact hfirst e (List.mem_append_right _ (List.mem_cons_of_mem _ he))
      · exact hlater e he
    exact absurd (hspent.disabled.symm.trans hgoes.holds.enabled) Bool.false_ne_true

theorem Event.KeepsUpload.not_opens (h : e.KeepsUpload) : ¬ e.Opens := by
  intro hopens
  cases e with
  | control setup data =>
    obtain ⟨t, start, length, hrequest⟩ := hopens
    exact h t start length hrequest
  | configure | push | read | poll | live | time | chip => exact hopens

/-- An upload that is opened has nothing taken, and no packet waits for it that has not been pushed
since. -/
theorem session_open (hpending : d.Pending ps)
    (hdrained : d.endpoint.enabled = true → d.endpoint.Drained) {setup : Setup}
    {payload : ByteArray} {t : Destination} {start length : UInt32}
    (hrequest : Request.decode setup payload = .ok (some (.openUpload t start length))) :
    let opened := d.react (.control setup payload)
    opened.session.active = true ∧ opened.session.destination = some t ∧
      opened.session.write = start.toNat ∧
      opened.session.stop = start.toNat + length.toNat ∧
      opened.endpoint.Holds opened.session.turn [] ∧ opened.memory = d.memory := by
  intro opened
  obtain ⟨hstop, -⟩ := d.session.range_opened t start (Request.length_of_decode hrequest)
  have hcontrol := d.session.control_of_open d.endpoint hrequest
  have hsession : opened.session = (d.session.control d.endpoint setup payload).2.1 := rfl
  have hendpoint : opened.endpoint = (d.session.control d.endpoint setup payload).2.2 := rfl
  rw [hcontrol] at hsession hendpoint
  dsimp only at hsession hendpoint
  rcases hpending with hholds | ⟨hdisabled, hqueue⟩
  · obtain rfl := hholds.drained_iff.mp (hdrained hholds.enabled)
    rw [if_pos hholds.enabled] at hsession hendpoint
    rw [hsession, hendpoint]
    exact ⟨rfl, rfl, rfl, hstop, hholds, rfl⟩
  · rw [if_neg (by simp [hdisabled])] at hsession hendpoint
    rw [hsession, hendpoint]
    exact ⟨rfl, rfl, rfl, hstop, hqueue ▸ d.endpoint.holds_enable, rfl⟩

/-- A packet that goes beyond the end of an upload is a protocol error. Let an upload of `length`
bytes be opened in any run while no packet waits, and let the host send packets for it: first those
of `fitting`, which the upload has room for, then `crossing`, which begins inside the upload's range
and ends behind it, and then any others. Let the device be polled as often as packets wait, while no
control transfer is refused and nothing configures the device or opens another upload. Then:

* the overrun is reported, the upload is over, and the bulk endpoint is disabled;
* exactly the packets of `fitting` have been stored, and no byte outside of the upload's range has
  changed;
* whatever happens afterwards, only packets that are pushed afterwards are stored. -/
theorem excess_refused (config : DeviceConfig) (chip : Recorder) (timer : Timer)
    (before : List Event) {t : Destination} {start length : UInt32} {setup : Setup}
    {payload : ByteArray} {fitting rest : List ByteArray} {crossing : ByteArray}
    {events later : List Event}
    (hdrained : ((Device.new config chip timer).run before).endpoint.enabled = true →
      ((Device.new config chip timer).run before).endpoint.Drained)
    (hrequest : Request.decode setup payload = .ok (some (.openUpload t start length)))
    (hsizes : ∀ bytes ∈ fitting, 0 < bytes.size ∧ bytes.size ≤ packetSize)
    (hfits : totalSize fitting < length.toNat)
    (hbeyond : length.toNat < totalSize fitting + crossing.size)
    (hpushed : pushedIn events = (fitting ++ crossing :: rest).map .data)
    (hnone : pushedIn later = [])
    (hkeep : ∀ e ∈ events ++ later, e.KeepsUpload)
    (haccepted : ∀ e ∈ events ++ later, e.Accepted)
    (hpolls : ((((Device.new config chip timer).run before).react
      (.control setup payload)).run events).endpoint.waiting ≤ later.countP Event.isPoll) :
    let old := (Device.new config chip timer).run before
    let d := old.react (.control setup payload)
    let after := d.run (events ++ later)
    after.lastUploadError = some (.overrun crossing.size (length.toNat - totalSize fitting)) ∧
    after.session.active = false ∧ after.endpoint.enabled = false ∧
    (d.storedIn (events ++ later)).map Chunk.bytes = fitting ∧
    (∀ t' i, after.memory t' i ≠ old.memory t' i →
      t'.isSamples = t.isSamples ∧ start.toNat ≤ i ∧ i < start.toNat + length.toNat) ∧
    ∀ afterwards, ((after.storedIn afterwards).map Chunk.packet).Sublist
      (pushedIn afterwards) := by
  intro old d after
  obtain ⟨ps, hpending⟩ := exists_pending config chip timer before
  obtain ⟨hactive, hdestination, hwrite, hstop, hholds, hmemory⟩ :=
    session_open hpending hdrained hrequest
  have hremaining : d.session.remaining = length.toNat := by
    rw [Session.remaining, hstop, hwrite]
    omega
  have happroaching : Approaching fitting crossing rest [] (pushedIn events ++ []) d := {
    destination := ⟨t, hdestination⟩
    active := hactive
    holds := hholds
    packets := by rw [List.append_nil, List.nil_append, hpushed]
    sizes := hsizes
    fits := hremaining ▸ hfits
    beyond := hremaining ▸ hbeyond }
  have hover : ∃ first rest, events ++ later = first ++ .poll :: rest ∧
      (d.storedIn first).map Chunk.bytes = fitting ∧
      ((d.run first).session.poll (d.run first).endpoint).1 =
        .error (.overrun crossing.size (d.session.remaining - totalSize fitting)) := by
    have hsent : pushedIn (events ++ later) = pushedIn events := by
      rw [pushedIn, List.filterMap_append, ← pushedIn, ← pushedIn, hnone, List.append_nil]
    rcases (hsent ▸ happroaching).run hkeep with ⟨left, hleft⟩ | hover
    · exact absurd hleft (happroaching.not_run hkeep hnone hpolls left)
    · exact hover
  obtain ⟨first, last, hsplit, hstored, hover⟩ := hover
  obtain ⟨hspent, hreported⟩ := spent_of_error hover
  have hafter : after = (d.run first).poll.run last := by
    show d.run (events ++ later) = _
    rw [hsplit, run_append]
    rfl
  have hlast : ∀ e ∈ last, e ∈ events ++ later := by
    intro e he
    rw [hsplit]
    exact List.mem_append_right _ (List.mem_cons_of_mem _ he)
  obtain ⟨hspent', hnothing, hstays⟩ := hspent.run fun e he => hkeep e (hlast e he)
  have hall : d.storedIn (events ++ later) = d.storedIn first := by
    have hnow : (d.run first).storedBy .poll = none := by
      rw [storedBy, polled, hover]
      rfl
    rw [hsplit, storedIn_append, storedIn, hnow]
    show _ ++ ([] ++ (d.run first).poll.storedIn last) = _
    rw [hnothing, List.append_nil, List.append_nil]
  refine ⟨?_, ?_, ?_, ?_, ?_, ?_⟩
  · rw [hafter, hstays fun e he => haccepted e (hlast e he), hreported, hremaining]
  · rw [hafter]
    exact hspent'.inactive
  · rw [hafter]
    exact hspent'.disabled
  · rw [hall, hstored]
  · intro t' i hchanged
    rw [← hmemory] at hchanged
    obtain ⟨c, hc, hsamples, hle, hlt⟩ := run_changes hchanged
    obtain ⟨-, hranges⟩ := stored_in_order fun e he => (hkeep e he).not_opens
    obtain ⟨-, hdestination', hfrom, hto⟩ := hranges c hc
    obtain rfl : t = c.destination := Option.some.inj (hdestination.symm.trans hdestination')
    rw [hwrite] at hfrom
    rw [hstop] at hto
    exact ⟨hsamples, by omega, by omega⟩
  · intro afterwards
    have hpending' : after.Pending [] := hafter ▸ .inr ⟨hspent'.disabled, hspent'.queue⟩
    exact storedIn_sublist hpending' afterwards

/-- The host opens an upload for sample memory. -/
def Event.openSamples (start length : UInt32) : Event :=
  .control (Request.openUpload .adpcmA start length).encode.1
    (Request.openUpload .adpcmA start length).encode.2

/-- The host sends eight bytes in two packets. -/
def eightBytesSent : List Event :=
  [.push (.data ⟨#[1, 2, 3, 4]⟩), .push (.data ⟨#[5, 6, 7, 8]⟩)]

/-- They are sent for an upload of six bytes, so that the second packet goes beyond the end. -/
theorem excess_refused_six :
    let old := (Device.new {} (.fresh (fun _ => true) true) { manual := true }).run [.configure]
    let d := old.react (.openSamples 0x10 6)
    let after := d.run (eightBytesSent ++ [.poll, .poll])
    after.lastUploadError = some (.overrun 4 2) ∧
      (d.storedIn (eightBytesSent ++ [.poll, .poll])).map Chunk.bytes = [⟨#[1, 2, 3, 4]⟩] := by
  intro old d after
  have hdrained : old.endpoint.enabled = true → old.endpoint.Drained :=
    fun _ => ⟨rfl, rfl, rfl, rfl⟩
  have hrequest : Request.decode (Request.openUpload .adpcmA 0x10 6).encode.1
      (Request.openUpload .adpcmA 0x10 6).encode.2 = .ok (some (.openUpload .adpcmA 0x10 6)) := by
    rfl
  have hsizes : ∀ bytes ∈ [(⟨#[1, 2, 3, 4]⟩ : ByteArray)],
      0 < bytes.size ∧ bytes.size ≤ packetSize := by
    decide
  have hpushed : pushedIn eightBytesSent =
      ([(⟨#[1, 2, 3, 4]⟩ : ByteArray)] ++ (⟨#[5, 6, 7, 8]⟩ : ByteArray) :: []).map .data := rfl
  have hkeep : ∀ e ∈ eightBytesSent ++ [.poll, .poll], e.KeepsUpload := by
    simp [eightBytesSent, Event.KeepsUpload]
  have haccepted : ∀ e ∈ eightBytesSent ++ [.poll, .poll], e.Accepted := by
    simp [eightBytesSent, Event.Accepted]
  obtain ⟨hreported, -, -, hstored, -⟩ :=
    excess_refused {} (.fresh (fun _ => true) true) { manual := true } [.configure] hdrained
      hrequest hsizes (by decide) (by decide) hpushed rfl hkeep haccepted (by decide +kernel)
  have herror : UploadError.overrun (⟨#[5, 6, 7, 8]⟩ : ByteArray).size
      ((6 : UInt32).toNat - totalSize [⟨#[1, 2, 3, 4]⟩]) = .overrun 4 2 := by decide
  rw [herror] at hreported
  exact ⟨hreported, hstored⟩

/-- Four bytes of excess in a packet of their own are not refused: no error is reported, the
endpoint stays enabled, and the next upload stores them as its own. -/
theorem excess_kept :
    let old := (Device.new {} (.fresh (fun _ => true) true) { manual := true }).run [.configure]
    let sent := old.run (.openSamples 0x10 4 :: eightBytesSent ++ [.poll, .poll])
    let again := sent.run [.openSamples 0x20 4, .poll]
    old.endpoint.Drained ∧ sent.session.active = false ∧ sent.lastUploadError = none ∧
      sent.endpoint.enabled = true ∧ sent.endpoint.waiting = 1 ∧
      (List.range 4).map (fun i => again.samples.byte (0x20 + i)) = [8, 7, 6, 5] := by
  refine ⟨⟨rfl, rfl, rfl, rfl⟩, ?_⟩
  decide +kernel

end Device
end ChipReplay
