import ChipReplay.Proofs.Upload.Outcome
/-!
# Uploads are confined

An upload changes nothing outside of the range that was negotiated for it, whatever the host sends
and in which order. Events that open no upload only move the one that is active forward
(`Device.advances_react`). So the packets that are stored in one upload lie one behind the other
inside its range (`Device.stored_in_order`), and after an overrun nothing is stored at all
(`Device.memory_run_of_inactive`).
-/

namespace ChipReplay
namespace Device

variable {d : Device} {events : List Event}

/-! ## Events -/

/-- The event opens an upload. -/
def Event.Opens : Event → Prop
  | .control setup data => ∃ t start length,
    Request.decode setup data = .ok (some (.openUpload t start length))
  | _ => False

/-- Sending messages changes the number of the next one. -/
theorem session_sendUpTo (limit : Nat) (d : Device) : ∃ sequence,
    (d.sendUpTo limit).session = { d.session with sequence } := by
  induction limit generalizing d with
  | zero => exact ⟨_, rfl⟩
  | succ limit ih =>
    unfold sendUpTo
    split
    · exact ⟨_, rfl⟩
    · next m outbox _ =>
      rw [sendMessage_eq]
      by_cases hbusy : d.endpoint.isBusy = true
      · rw [if_pos hbusy]
        exact ⟨_, rfl⟩
      · rw [if_neg hbusy]
        obtain ⟨sequence, heq⟩ := ih _
        exact ⟨sequence, heq⟩

/-- Taking the start that waits, and starting, leave the upload alone. -/
theorem session_startIfAsked (d : Device) : ∃ sequence startPending,
    d.startIfAsked.session = { d.session with sequence, startPending } := by
  obtain ⟨startPending, htaken⟩ : ∃ startPending,
      d.session.takeStart.2 = { d.session with startPending } := by
    unfold Session.takeStart
    split
    · exact ⟨_, rfl⟩
    · exact ⟨_, rfl⟩
  unfold startIfAsked
  dsimp only
  split
  · obtain ⟨-, hsession, -⟩ := startPlayback_outbox { d with session := d.session.takeStart.2 }
    rw [hsession, htaken]
    exact ⟨_, _, rfl⟩
  · exact ⟨_, _, htaken⟩

/-- After a poll, the session is what the packet that was taken has left, but for the messages and
the start. -/
theorem session_poll (d : Device) : ∃ sequence startPending,
    d.poll.session = { (d.session.poll d.endpoint).2.1 with sequence, startPending } := by
  obtain ⟨active, window, samples, lastUploadError, stats, heq, -⟩ := d.ingested_eq
  obtain ⟨-, hstep, -⟩ := d.ingested.stepIfDue_outbox
  obtain ⟨sequence, hsend⟩ := d.ingested.stepIfDue.session_sendUpTo 2
  obtain ⟨sequence', startPending, hstart⟩ :=
    d.ingested.stepIfDue.sendMessages.session_startIfAsked
  rw [poll_eq, hstart, sendMessages, hsend, hstep, heq]
  exact ⟨_, _, rfl⟩

/-- The position of an upload lies in its range in every run. -/
theorem within_react (h : d.session.Within) (e : Event) : (d.react e).session.Within := by
  cases e with
  | configure => exact Session.within_of_inactive rfl
  | control setup data => exact h.control setup data
  | poll =>
    obtain ⟨sequence, startPending, heq⟩ := d.session_poll
    have hpoll : (d.session.poll d.endpoint).2.1.Within := h.poll
    show d.poll.session.Within
    rw [heq]
    exact hpoll
  | live event =>
    obtain ⟨filter, direct, voices, midi, pcmMuted, heq⟩ := d.steered_live event
    show (d.live event).session.Within
    rw [heq]
    exact h
  | push | read | time | chip => exact h

/-- An event that opens no upload moves an upload forward over the packet that it stores. -/
theorem advances_react {e : Event} (hopens : ¬ e.Opens)
    (hactive : (d.react e).session.active = true) :
    d.session.Advances (d.storedBy e) (d.react e).session := by
  have hsame : (d.react e).session = d.session → d.storedBy e = none →
      d.session.Advances (d.storedBy e) (d.react e).session := by
    intro heq hnone
    rw [heq] at hactive ⊢
    rw [hnone]
    exact ⟨hactive, rfl, rfl, rfl, Nat.le_refl _⟩
  cases e with
  | configure => exact absurd hactive Bool.false_ne_true
  | control setup data =>
    rcases d.session.control_cases d.endpoint setup data with hopen | ⟨startPending, hcontrol⟩
    · exact absurd hopen hopens
    · have heq : (d.react (.control setup data)).session = { d.session with startPending } :=
        congrArg Prod.fst hcontrol
      rw [heq] at hactive ⊢
      exact ⟨hactive, rfl, rfl, rfl, Nat.le_refl _⟩
  | poll =>
    obtain ⟨sequence, startPending, heq⟩ := d.session_poll
    change d.poll.session.active = true at hactive
    change d.session.Advances d.polled d.poll.session
    rw [heq] at hactive ⊢
    have hadvances := Session.advances_poll (s := d.session) (e := d.endpoint) hactive
    exact ⟨hadvances.active, hadvances.destination, hadvances.start, hadvances.stop,
      hadvances.write⟩
  | live event =>
    obtain ⟨filter, direct, voices, midi, pcmMuted, heq⟩ := d.steered_live event
    refine hsame ?_ rfl
    show (d.live event).session = _
    rw [heq]
  | push | read | time | chip => exact hsame rfl rfl

/-! ## What is stored -/

theorem poll_of_polled {c : Chunk} (h : d.polled = some c) :
    (d.session.poll d.endpoint).1 = .ok (some c) := by
  unfold polled at h
  rcases hpoll : (d.session.poll d.endpoint).1 with _ | packet
  · rw [hpoll] at h
    exact absurd h (by simp [Except.toOption])
  · rw [hpoll] at h
    exact congrArg Except.ok h

/-- A packet that does not fit in its destination is refused whole. -/
theorem memory_store_of_not_fits (d : Device) {c : Chunk}
    (h : ¬ c.offset + c.bytes.size ≤ c.destination.capacity) :
    (d.store c).memory = d.memory := by
  unfold Destination.capacity at h
  unfold store
  cases hsamples : c.destination.isSamples with
  | true =>
    rw [hsamples, if_pos rfl] at h
    dsimp only
    rw [if_pos rfl, storeSamples]
    dsimp only
    rw [if_neg h]
    rfl
  | false =>
    rw [hsamples, if_neg Bool.false_ne_true] at h
    dsimp only
    rw [if_neg Bool.false_ne_true, storeWindow]
    dsimp only
    rw [dif_neg h]
    split <;> rfl

theorem memory_ingest_of_error {error : UploadError}
    (h : (d.session.poll d.endpoint).1 = .error error) : d.ingest.memory = d.memory := by
  unfold ingest
  dsimp only
  rw [h]
  rfl

/-- A poll that ends with an overrun stores nothing. -/
theorem memory_poll_of_error {error : UploadError}
    (h : (d.session.poll d.endpoint).1 = .error error) : d.poll.memory = d.memory := by
  rw [memory_poll]
  exact memory_ingest_of_error (d := Device.flushDirect _) h

theorem memory_ingest_of_not_fits {c : Chunk} (h : (d.session.poll d.endpoint).1 = .ok (some c))
    (hfits : ¬ c.offset + c.bytes.size ≤ c.destination.capacity) :
    d.ingest.memory = d.memory := by
  unfold ingest
  dsimp only
  rw [h]
  exact memory_store_of_not_fits _ hfits

theorem memory_poll_of_not_fits {c : Chunk} (h : (d.session.poll d.endpoint).1 = .ok (some c))
    (hfits : ¬ c.offset + c.bytes.size ≤ c.destination.capacity) : d.poll.memory = d.memory := by
  rw [memory_poll]
  exact memory_ingest_of_not_fits (d := Device.flushDirect _) h hfits

/-- A byte that a poll changes lies in the packet that the poll takes. -/
theorem poll_changes {t : Destination} {i : Nat} (h : d.poll.memory t i ≠ d.memory t i) :
    ∃ c, d.polled = some c ∧ t.isSamples = c.destination.isSamples ∧ c.offset ≤ i ∧
      i < c.offset + c.bytes.size := by
  rcases hpoll : (d.session.poll d.endpoint).1 with error | _ | c
  · exact absurd (congrFun (congrFun (memory_poll_of_error hpoll) t) i) h
  · exact absurd (congrFun (congrFun (memory_poll_of_none hpoll) t) i) h
  · refine ⟨c, by rw [polled, hpoll]; rfl, ?_⟩
    by_cases hfits : c.offset + c.bytes.size ≤ c.destination.capacity
    · have hstored := stored_poll hpoll hfits t i
      split at hstored
      · next hinside => exact hinside
      · exact absurd hstored h
    · exact absurd (congrFun (congrFun (memory_poll_of_not_fits hpoll hfits) t) i) h

/-- A byte that an event changes lies in the packet that the event stores. -/
theorem react_changes {e : Event} {t : Destination} {i : Nat}
    (h : (d.react e).memory t i ≠ d.memory t i) :
    ∃ c, d.storedBy e = some c ∧ t.isSamples = c.destination.isSamples ∧ c.offset ≤ i ∧
      i < c.offset + c.bytes.size := by
  cases e with
  | poll => exact poll_changes h
  | live event =>
    obtain ⟨filter, direct, voices, midi, pcmMuted, heq⟩ := d.steered_live event
    change (d.live event).memory t i ≠ _ at h
    rw [heq] at h
    exact absurd rfl h
  | configure | control | push | read | time | chip => exact absurd rfl h

/-- The packets that the events store, in order. -/
def storedIn (d : Device) : List Event → List Chunk
  | [] => []
  | e :: events => (d.storedBy e).toList ++ (d.react e).storedIn events

/-- What an event stores goes to where the upload is, and stays in its range. -/
theorem range_of_storedBy {e : Event} {c : Chunk} (h : d.storedBy e = some c) :
    d.session.active = true ∧ d.session.destination = some c.destination ∧
      c.offset = d.session.write ∧ d.session.write + c.bytes.size ≤ d.session.stop := by
  cases e with
  | poll => exact Session.range_of_poll (poll_of_polled h)
  | configure | control | push | read | live | time | chip => cases h

/-- The packets of one upload are stored one behind the other, from its position on and inside its
range. -/
theorem stored_in_order (hopens : ∀ e ∈ events, ¬ e.Opens) :
    (d.storedIn events).Pairwise (fun c c' => c.offset + c.bytes.size ≤ c'.offset) ∧
      ∀ c ∈ d.storedIn events, d.session.active = true ∧
        d.session.destination = some c.destination ∧ d.session.write ≤ c.offset ∧
        c.offset + c.bytes.size ≤ d.session.stop := by
  induction events generalizing d with
  | nil => exact ⟨.nil, fun c hc => absurd hc List.not_mem_nil⟩
  | cons e events ih =>
    obtain ⟨he, hopens⟩ := List.forall_mem_cons.mp hopens
    obtain ⟨hordered, hranges⟩ := ih (d := d.react e) hopens
    -- a later packet is of the same upload, and behind the one that is stored now
    have hlater : ∀ c ∈ (d.react e).storedIn events, d.session.active = true ∧
        d.session.destination = some c.destination ∧
        d.session.write + (d.storedBy e).elim 0 (·.bytes.size) ≤ c.offset ∧
        c.offset + c.bytes.size ≤ d.session.stop := by
      intro c hc
      obtain ⟨hactive, hdestination, hwrite, hstop⟩ := hranges c hc
      have hadvances := advances_react he hactive
      have hmoved := hadvances.write
      rw [hadvances.destination] at hdestination
      rw [hadvances.stop] at hstop
      exact ⟨hadvances.active, hdestination, by omega, hstop⟩
    unfold storedIn
    cases hstored : d.storedBy e with
    | none =>
      rw [hstored] at hlater
      exact ⟨hordered, hlater⟩
    | some c =>
      obtain ⟨hactive, hdestination, hoffset, hstop⟩ := range_of_storedBy hstored
      rw [hstored] at hlater
      refine ⟨List.pairwise_cons.mpr ⟨fun c' hc' => ?_, hordered⟩,
        List.forall_mem_cons.mpr ⟨⟨hactive, hdestination, by omega, by omega⟩, fun c' hc' => ?_⟩⟩
      · obtain ⟨-, -, hbehind, -⟩ := hlater c' hc'
        rw [hoffset]
        exact hbehind
      · obtain ⟨-, hdestination', hbehind, hstop'⟩ := hlater c' hc'
        exact ⟨hactive, hdestination', Nat.le_of_add_right_le hbehind, hstop'⟩

theorem size_pos_of_mem_storedIn {c : Chunk} (h : c ∈ d.storedIn events) : 0 < c.bytes.size := by
  induction events generalizing d with
  | nil => cases h
  | cons e events ih =>
    rcases List.mem_append.mp h with hnow | hlater
    · have hstored : d.storedBy e = some c := Option.mem_toList.mp hnow
      cases e with
      | poll => exact (size_le_of_polled hstored).1
      | configure | control | push | read | live | time | chip => cases hstored
    · exact ih hlater

/-- Without an active upload, nothing is stored until one is opened. -/
theorem memory_run_of_inactive (hinactive : d.session.active = false)
    (hopens : ∀ e ∈ events, ¬ e.Opens) : (d.run events).memory = d.memory := by
  induction events generalizing d with
  | nil => rfl
  | cons e events ih =>
    obtain ⟨he, hopens⟩ := List.forall_mem_cons.mp hopens
    have hstill : (d.react e).session.active = false := by
      cases hactive : (d.react e).session.active with
      | false => rfl
      | true => exact absurd (advances_react he hactive).active (by simp [hinactive])
    have hmemory : (d.react e).memory = d.memory := by
      funext t i
      apply Decidable.byContradiction
      intro hchanged
      obtain ⟨c, hstored, -⟩ := react_changes hchanged
      exact absurd (range_of_storedBy hstored).1 (by simp [hinactive])
    exact (ih hstill hopens).trans hmemory

theorem inactive_of_error {error : UploadError}
    (h : (d.session.poll d.endpoint).1 = .error error) : d.poll.session.active = false := by
  obtain ⟨sequence, startPending, heq⟩ := d.session_poll
  have houtcome := d.session.outcome_poll d.endpoint
  rw [heq]
  generalize d.session.poll d.endpoint = r at h houtcome
  cases houtcome with
  | overrun => rfl
  | idle | invalid | dropped | taken => cases h

/-- Uploads are confined to what was negotiated, whatever the host sends and the user does. At any
point of any run:

* the position of an active upload lies in the range of the upload;
* a byte that the next event changes belongs to the memory that the active upload goes to, and lies
  in its range, where a packet of it is stored;
* until another upload is opened, each packet that is stored has a byte, and lies behind all those
  that were stored before it;
* when a packet overruns the upload, nothing is stored from then on until another upload is
  opened. -/
theorem uploads_confined (config : DeviceConfig) (chip : Recorder) (timer : Timer)
    (events : List Event) :
    let d := (Device.new config chip timer).run events
    (d.session.active = true →
      d.session.start ≤ d.session.write ∧ d.session.write < d.session.stop) ∧
    (∀ e t i, (d.react e).memory t i ≠ d.memory t i →
      ∃ c, d.storedBy e = some c ∧ c.offset ≤ i ∧ i < c.offset + c.bytes.size ∧
        d.session.active = true ∧ d.session.destination = some c.destination ∧
        t.isSamples = c.destination.isSamples ∧ d.session.start ≤ i ∧ i < d.session.stop) ∧
    (∀ later, (∀ e ∈ later, ¬ e.Opens) →
      (∀ c ∈ d.storedIn later, 0 < c.bytes.size) ∧
        (d.storedIn later).Pairwise (fun c c' => c.offset + c.bytes.size ≤ c'.offset)) ∧
    (∀ error, (d.session.poll d.endpoint).1 = .error error →
      ∀ later, (∀ e ∈ later, ¬ e.Opens) → (d.poll.run later).memory = d.memory) := by
  intro d
  have hwithin : d.session.Within :=
    run_keeps (P := fun d => d.session.Within) (fun _ e h => within_react h e)
      (Session.within_of_inactive rfl) events
  refine ⟨hwithin, ?_, ?_, ?_⟩
  · intro e t i hchanged
    obtain ⟨c, hstored, hmemory, hle, hlt⟩ := react_changes hchanged
    obtain ⟨hactive, hdestination, hoffset, hstop⟩ := range_of_storedBy hstored
    obtain ⟨hstart, -⟩ := hwithin hactive
    exact ⟨c, hstored, hle, hlt, hactive, hdestination, hmemory, by omega, by omega⟩
  · intro later hopens
    exact ⟨fun c => size_pos_of_mem_storedIn, (stored_in_order hopens).1⟩
  · intro error hpoll later hopens
    exact (memory_run_of_inactive (inactive_of_error hpoll) hopens).trans
      (memory_poll_of_error hpoll)

end Device
end ChipReplay
