import ChipReplay.Proofs.Upload.Storing
/-!
# Uploads are delivered exactly

Once an upload has been opened on a drained endpoint, the host sends its bytes in packets, cut
wherever it likes (`Carry`), while the device is polled at any time. `Receiving` says how far such
an upload is: which bytes have been stored, which packets wait, and which are still to be sent. Each
event keeps it, and a poll moves one packet from those that wait to what is stored, so that the
upload ends with its last byte in place and nothing else touched (`Device.delivers_exactly`).
-/

namespace ChipReplay

/-! ## Packets of an upload -/

/-- The packets that carry `data` to a destination. The data may be cut anywhere into pieces that
fit in a packet; only for sample memory, each piece but the last has whole words. Before the last
piece there may be transfers that end with an error, and packets without a byte. -/
inductive Carry (t : Destination) : List Packet → ByteArray → Prop
  | last {bytes : ByteArray} (hpos : 0 < bytes.size) (hle : bytes.size ≤ packetSize) :
    Carry t [.data bytes] bytes
  | piece {bytes data : ByteArray} {ps : List Packet} (hpos : 0 < bytes.size)
    (hle : bytes.size ≤ packetSize) (hwords : t.isSamples = true → 4 ∣ bytes.size)
    (rest : Carry t ps data) : Carry t (.data bytes :: ps) (bytes ++ data)
  | invalid {data : ByteArray} {ps : List Packet} (rest : Carry t ps data) :
    Carry t (.invalid :: ps) data
  | empty {data : ByteArray} {ps : List Packet} (rest : Carry t ps data) :
    Carry t (.data .empty :: ps) data

namespace Carry

variable {t : Destination} {ps : List Packet} {data : ByteArray}

theorem size_pos (h : Carry t ps data) : 0 < data.size := by
  induction h with
  | last hpos _ => exact hpos
  | piece hpos _ _ _ _ =>
    rw [ByteArray.size_append]
    omega
  | invalid _ ih => exact ih
  | empty _ ih => exact ih

theorem ne_nil (h : Carry t ps data) : ps ≠ [] := by
  cases h <;> exact List.cons_ne_nil _ _

end Carry

namespace Device

/-! ## Events -/

/-- The event neither configures the device nor opens another upload. -/
def Event.KeepsUpload : Event → Prop
  | .configure => False
  | .control setup data => ∀ t start length,
    Request.decode setup data ≠ .ok (some (.openUpload t start length))
  | _ => True

/-- The packet that the host sends in an event. -/
def Event.pushed? : Event → Option Packet
  | .push p => some p
  | _ => none

/-- The packets that the host sends, in order. -/
def pushedIn (events : List Event) : List Packet := events.filterMap Event.pushed?

/-- Whether the event is a poll. -/
def Event.isPoll : Event → Bool
  | .poll => true
  | _ => false

/-- How many bytes the polls among the events take. -/
def receivedIn (d : Device) : List Event → Nat
  | [] => 0
  | e :: events => ((d.storedBy e).elim 0 (·.bytes.size)) + (d.react e).receivedIn events

/-- The packets that wait after an event, if `waiting` do before. -/
def waitingThen (waiting : List Packet) : Event → List Packet
  | .push p => waiting ++ [p]
  | .poll => waiting.tail
  | _ => waiting

/-- The packets that wait after the events, if `waiting` do before. -/
def waitingAfter (waiting : List Packet) (events : List Event) : List Packet :=
  events.foldl waitingThen waiting

theorem waitingThen_of_quiet {e : Event} (hpush : e.pushed? = none) (hpoll : e.isPoll = false)
    (waiting : List Packet) : waitingThen waiting e = waiting := by
  cases e with
  | push p => exact absurd hpush (by simp [Event.pushed?])
  | poll => exact absurd hpoll (by simp [Event.isPoll])
  | configure | control | read | live | time | chip => rfl

/-- Without packets that are sent, each poll takes one of those that wait. -/
theorem waitingAfter_of_no_push {events : List Event} (h : pushedIn events = [])
    (waiting : List Packet) :
    waitingAfter waiting events = waiting.drop (events.countP Event.isPoll) := by
  induction events generalizing waiting with
  | nil => rfl
  | cons e events ih =>
    have hpush : e.pushed? = none := List.filterMap_eq_nil_iff.mp h e List.mem_cons_self
    rw [pushedIn, List.filterMap_cons_none hpush] at h
    rw [waitingAfter, List.foldl_cons]
    cases hpoll : e.isPoll with
    | true =>
      obtain rfl : e = .poll := by
        cases e <;> first | rfl | exact absurd hpoll Bool.false_ne_true
      rw [List.countP_cons_of_pos rfl, Nat.add_comm, ← List.drop_drop, List.drop_one]
      exact ih h waiting.tail
    | false =>
      rw [waitingThen_of_quiet hpush hpoll, List.countP_cons_of_neg (by simp [hpoll])]
      exact ih h waiting

/-- An event that neither sends a packet nor is a poll leaves the upload and both memories alone. -/
theorem sameUpload_react {d : Device} {e : Event} (hkeeps : e.KeepsUpload)
    (hpush : e.pushed? = none) (hpoll : e.isPoll = false) :
    d.SameUpload (d.react e) ∧ (d.react e).memory = d.memory ∧ d.storedBy e = none := by
  cases e with
  | configure => exact hkeeps.elim
  | control setup data =>
    refine ⟨?_, rfl, rfl⟩
    have hcontrol : d.session.SameUpload (d.session.control d.endpoint setup data).2.1 ∧
        (d.session.control d.endpoint setup data).2.2 = d.endpoint := by
      unfold Session.control
      split
      · exact ⟨⟨rfl, rfl, rfl, rfl, rfl⟩, rfl⟩
      · exact ⟨⟨rfl, rfl, rfl, rfl, rfl⟩, rfl⟩
      · exact ⟨⟨rfl, rfl, rfl, rfl, rfl⟩, rfl⟩
      · exact ⟨⟨rfl, rfl, rfl, rfl, rfl⟩, rfl⟩
      · next hopen => exact absurd hopen (hkeeps _ _ _)
    refine ⟨hcontrol.1, ?_⟩
    show d.endpoint.SamePackets (d.session.control d.endpoint setup data).2.2
    rw [hcontrol.2]
    exact ⟨rfl, rfl, rfl, rfl, rfl⟩
  | push p => exact absurd hpush (by simp [Event.pushed?])
  | read => exact ⟨⟨⟨rfl, rfl, rfl, rfl, rfl⟩, ⟨rfl, rfl, rfl, rfl, rfl⟩⟩, rfl, rfl⟩
  | poll => exact absurd hpoll (by simp [Event.isPoll])
  | live event =>
    obtain ⟨filter, direct, voices, midi, pcmMuted, heq⟩ := d.steered_live event
    show d.SameUpload (d.live event) ∧ (d.live event).memory = d.memory ∧ none = none
    rw [heq]
    exact ⟨.of_eq rfl rfl, rfl, rfl⟩
  | time change => exact ⟨.of_eq rfl rfl, rfl, rfl⟩
  | chip change => exact ⟨.of_eq rfl rfl, rfl, rfl⟩

/-! ## An upload under way -/

/-- How far an upload is on a device that was `old` when the upload began: `done` has been stored,
`rest` is missing, the packets `waiting` have been sent but not taken, and those of `coming` have
not been sent. -/
structure Receiving (old : Device) (u : Upload) (done rest : ByteArray)
    (waiting coming : List Packet) (d : Device) : Prop where
  data : u.data = done ++ rest
  words : u.destination.isSamples = true → 0 < rest.size → 4 ∣ done.size
  destination : d.session.destination = some u.destination
  write : d.session.write = u.offset.toNat + done.size
  stop : d.session.stop = u.offset.toNat + u.data.size
  active : d.session.active = decide (0 < rest.size)
  holds : d.endpoint.Holds d.session.turn waiting
  carry : Carry u.destination (waiting ++ coming) rest ∨ waiting ++ coming = [] ∧ rest.size = 0
  stored : old.Stored d u.destination u.offset.toNat done

namespace Receiving

variable {old d : Device} {u : Upload} {done rest : ByteArray} {waiting coming : List Packet}

theorem size_data (h : Receiving old u done rest waiting coming d) :
    u.data.size = done.size + rest.size := by
  rw [h.data, ByteArray.size_append]

theorem congr (h : Receiving old u done rest waiting coming d) {d' : Device}
    (hsame : d.SameUpload d') (hmemory : d'.memory = d.memory) :
    Receiving old u done rest waiting coming d' where
  data := h.data
  words := h.words
  destination := hsame.session.destination.trans h.destination
  write := hsame.session.write.trans h.write
  stop := hsame.session.stop.trans h.stop
  active := hsame.session.active.trans h.active
  holds := hsame.session.turn ▸ h.holds.congr hsame.endpoint
  carry := h.carry
  stored := by
    unfold Stored
    rw [hmemory]
    exact h.stored

/-- A packet that the host sends waits behind the others. -/
theorem push {p : Packet} (h : Receiving old u done rest waiting (p :: coming) d) :
    Receiving old u done rest (waiting ++ [p]) coming (d.react (.push p)) where
  data := h.data
  words := h.words
  destination := h.destination
  write := h.write
  stop := h.stop
  active := h.active
  holds := h.holds.push p
  carry := by
    rw [List.append_assoc]
    exact h.carry
  stored := h.stored

/-- A poll that stores nothing leaves the upload as far as it was, even if it takes a packet. -/
theorem poll_of_none {ps : List Packet} {turn : Descriptor} {e : Endpoint}
    (h : Receiving old u done rest waiting coming d)
    (hpoll : d.session.poll d.endpoint = (.ok none, { d.session with turn }, e))
    (hholds : e.Holds turn ps)
    (hcarry : Carry u.destination (ps ++ coming) rest ∨ ps ++ coming = [] ∧ rest.size = 0) :
    Receiving old u done rest ps coming d.poll := by
  obtain ⟨hsession, hendpoint⟩ := d.sameUpload_polled
  rw [hpoll] at hsession hendpoint
  have hmemory : d.poll.memory = d.memory := memory_poll_of_none (by rw [hpoll])
  exact {
    data := h.data
    words := h.words
    destination := hsession.destination.trans h.destination
    write := hsession.write.trans h.write
    stop := hsession.stop.trans h.stop
    active := hsession.active.trans h.active
    holds := hsession.turn ▸ hholds.congr hendpoint
    carry := hcarry
    stored := by
      unfold Stored
      rw [hmemory]
      exact h.stored }

/-- A poll that takes a piece of the upload stores it behind those before. -/
theorem poll_of_piece {bytes data : ByteArray} {ps : List Packet}
    (h : Receiving old u done (bytes ++ data) (.data bytes :: ps) coming d)
    (hfits : u.offset.toNat + u.data.size ≤ u.destination.capacity)
    (hpos : 0 < bytes.size) (hle : bytes.size ≤ packetSize)
    (hwords : u.destination.isSamples = true → 0 < data.size → 4 ∣ bytes.size)
    (hcarry : Carry u.destination (ps ++ coming) data ∨ ps ++ coming = [] ∧ data.size = 0) :
    Receiving old u (done ++ bytes) data ps coming d.poll ∧
      d.polled = some ⟨u.destination, u.offset.toNat + done.size, bytes⟩ := by
  have hrest : (bytes ++ data).size = bytes.size + data.size := ByteArray.size_append
  have hsize := h.size_data
  have hmissing : 0 < (bytes ++ data).size := by omega
  have hactive : d.session.active = true := h.active.trans (decide_eq_true hmissing)
  have hremaining : bytes.size ≤ d.session.remaining := by
    rw [Session.remaining, h.stop, h.write]
    omega
  have hpoll := Session.poll_of_data hactive h.destination h.holds hremaining hle
  rw [if_neg (by omega), h.write] at hpoll
  obtain ⟨hsession, hendpoint⟩ := d.sameUpload_polled
  have hstored : d.Stored d.poll u.destination (u.offset.toNat + done.size) bytes := by
    refine stored_poll (c := ⟨u.destination, u.offset.toNat + done.size, bytes⟩) (by rw [hpoll]) ?_
    show u.offset.toNat + done.size + bytes.size ≤ u.destination.capacity
    omega
  rw [hpoll] at hsession hendpoint
  have hpolled : d.polled = some ⟨u.destination, u.offset.toNat + done.size, bytes⟩ := by
    rw [polled, hpoll]
    rfl
  refine ⟨?_, hpolled⟩
  exact {
    data := by rw [h.data, ByteArray.append_assoc]
    words := by
      intro hsamples hdata
      rw [ByteArray.size_append]
      exact Nat.dvd_add (h.words hsamples hmissing) (hwords hsamples hdata)
    destination := hsession.destination.trans h.destination
    write := by
      rw [hsession.write, ByteArray.size_append, ← Nat.add_assoc, ← h.write]
      rfl
    stop := hsession.stop.trans h.stop
    active := by
      rw [hsession.active]
      show (d.session.active && d.session.write + bytes.size != d.session.stop) = _
      rw [hactive, h.write, h.stop, Bool.true_and]
      by_cases hdata : 0 < data.size
      · rw [decide_eq_true hdata, bne_iff_ne]
        omega
      · rw [decide_eq_false hdata, bne_eq_false_iff_eq]
        omega
    holds := hsession.turn ▸ h.holds.arm.congr hendpoint
    carry := hcarry
    stored := h.stored.append hstored fun hsamples => h.words hsamples hmissing }

/-- A poll takes one of the packets that wait, if there is one, and stores what it carries. -/
theorem poll (h : Receiving old u done rest waiting coming d)
    (hfits : u.offset.toNat + u.data.size ≤ u.destination.capacity) :
    ∃ done' rest', Receiving old u done' rest' waiting.tail coming d.poll ∧
      done'.size = done.size + d.polled.elim 0 (·.bytes.size) := by
  have hnone {turn : Descriptor} {e : Endpoint} (hpoll : d.session.poll d.endpoint =
      (.ok none, { d.session with turn }, e)) : d.polled.elim 0 (·.bytes.size) = 0 := by
    rw [polled, hpoll]
    rfl
  cases waiting with
  | nil =>
    have hpoll := Session.poll_of_drained h.holds
    exact ⟨done, rest, h.poll_of_none hpoll h.holds h.carry, by rw [hnone hpoll]; rfl⟩
  | cons p ps =>
    rcases h.carry with hcarry | ⟨hempty, -⟩
    · have hactive : d.session.active = true := h.active.trans (decide_eq_true hcarry.size_pos)
      rw [List.cons_append] at hcarry
      generalize hpackets : ps ++ coming = packets at hcarry
      cases hcarry with
      | last hpos hle =>
        have hpiece : Receiving old u done (rest ++ .empty) (.data rest :: ps) coming d := by
          rw [ByteArray.append_empty]
          exact h
        obtain ⟨hreceiving, hpolled⟩ := hpiece.poll_of_piece hfits hpos hle
          (fun _ hdata => absurd hdata (Nat.lt_irrefl 0)) (.inr ⟨hpackets, rfl⟩)
        refine ⟨_, _, hreceiving, ?_⟩
        rw [hpolled, ByteArray.size_append]
        rfl
      | piece hpos hle hwords hrest =>
        obtain ⟨hreceiving, hpolled⟩ := h.poll_of_piece hfits hpos hle
          (fun hsamples _ => hwords hsamples) (.inl (hpackets ▸ hrest))
        refine ⟨_, _, hreceiving, ?_⟩
        rw [hpolled, ByteArray.size_append]
        rfl
      | invalid hrest =>
        have hpoll := Session.poll_of_invalid hactive h.destination h.holds
        exact ⟨done, rest, h.poll_of_none hpoll h.holds.arm (.inl (hpackets ▸ hrest)),
          by rw [hnone hpoll]; rfl⟩
      | empty hrest =>
        have hpoll := Session.poll_of_data hactive h.destination h.holds (Nat.zero_le _)
          (Nat.zero_le _)
        have hahead : d.session.write ≠ d.session.stop := by
          have hsize := h.size_data
          have hpos := hrest.size_pos
          rw [h.write, h.stop]
          omega
        rw [if_pos ByteArray.size_empty, ByteArray.size_empty, Session.moved_zero hahead] at hpoll
        exact ⟨done, rest, h.poll_of_none hpoll h.holds.arm (.inl (hpackets ▸ hrest)),
          by rw [hnone hpoll]; rfl⟩
    · exact absurd hempty (by simp)

/-- How far the upload is after a run. -/
theorem run {events : List Event}
    (h : Receiving old u done rest waiting (pushedIn events ++ coming) d)
    (hfits : u.offset.toNat + u.data.size ≤ u.destination.capacity)
    (hkeep : ∀ e ∈ events, e.KeepsUpload) :
    ∃ done' rest', Receiving old u done' rest' (waitingAfter waiting events) coming
      (d.run events) ∧ done'.size = done.size + d.receivedIn events := by
  induction events generalizing d done rest waiting with
  | nil => exact ⟨done, rest, h, rfl⟩
  | cons e events ih =>
    have hkeep' : ∀ e ∈ events, e.KeepsUpload := fun e he => hkeep e (List.mem_cons_of_mem _ he)
    have hquiet (hpush : e.pushed? = none) (hpoll : e.isPoll = false) :
        ∃ done' rest', Receiving old u done' rest' (waitingAfter waiting (e :: events)) coming
          (d.run (e :: events)) ∧ done'.size = done.size + d.receivedIn (e :: events) := by
      obtain ⟨hsame, hmemory, hstored⟩ :=
        sameUpload_react (hkeep e List.mem_cons_self) hpush hpoll (d := d)
      rw [pushedIn, List.filterMap_cons_none hpush] at h
      obtain ⟨done', rest', hreceiving, hsize⟩ := ih (h.congr hsame hmemory) hkeep'
      refine ⟨done', rest', ?_, ?_⟩
      · rw [waitingAfter, List.foldl_cons, waitingThen_of_quiet hpush hpoll]
        exact hreceiving
      · rw [hsize, receivedIn, hstored, Option.elim_none, Nat.zero_add]
    cases e with
    | push p =>
      obtain ⟨done', rest', hreceiving, hsize⟩ := ih h.push hkeep'
      exact ⟨done', rest', hreceiving, hsize.trans (by rw [receivedIn]; simp [storedBy])⟩
    | poll =>
      obtain ⟨done₁, rest₁, hpolled, hsize₁⟩ := h.poll hfits
      obtain ⟨done', rest', hreceiving, hsize⟩ := ih hpolled hkeep'
      exact ⟨done', rest', hreceiving, by rw [hsize, hsize₁, Nat.add_assoc]; rfl⟩
    | configure | control | read | live | time | chip => exact hquiet rfl rfl

/-- An upload is active as long as bytes of it are missing. -/
theorem active_eq (h : Receiving old u done rest waiting coming d) :
    d.session.active = decide (done.size < u.data.size) := by
  have hsize := h.size_data
  rw [h.active, decide_eq_decide]
  omega

/-- What holds when nothing is missing. -/
theorem complete (h : Receiving old u done rest waiting coming d)
    (hdone : done.size = u.data.size) :
    d.endpoint.Drained ∧ old.Stored d u.destination u.offset.toNat u.data := by
  have hsize := h.size_data
  have hrest : rest.size = 0 := by omega
  obtain ⟨hnone, -⟩ : waiting ++ coming = [] ∧ rest.size = 0 :=
    h.carry.resolve_left fun hcarry => absurd hcarry.size_pos (by omega)
  have hdata : u.data = done := by
    rw [h.data, ByteArray.size_eq_zero_iff.mp hrest, ByteArray.append_empty]
  refine ⟨h.holds.drained_iff.mpr (List.append_eq_nil_iff.mp hnone).1, ?_⟩
  rw [hdata]
  exact h.stored

end Receiving

/-! ## The whole upload -/

/-- A request for an upload that fits is accepted, and then everything is missing. -/
theorem receiving_control {d : Device} (hstep : d.InStep) (hdrained : d.endpoint.Drained)
    {u : Upload} {setup : Setup} {payload : ByteArray}
    (hrequest : Request.decode setup payload = .ok (some u.request))
    (hfits : u.offset.toNat + u.data.size ≤ u.destination.capacity) {packets : List Packet}
    (hcarry : Carry u.destination packets u.data) :
    (d.control setup payload).1 = .ok .acknowledge ∧
      Receiving d u .empty u.data [] packets (d.react (.control setup payload)) := by
  have hcapacity : u.destination.capacity ≤ 0x800000 := u.destination.capacity_le
  have hpos := hcarry.size_pos
  have hlength : (UInt32.ofNat u.data.size).toNat = u.data.size :=
    UInt32.toNat_ofNat_of_lt' (show u.data.size < 2 ^ 32 by omega)
  have hopened := Session.control_openUpload d.session hrequest (by omega) hdrained.enabled
  rw [hlength] at hopened
  obtain ⟨ps, hholds⟩ := hstep hdrained.enabled
  obtain rfl := hholds.drained_iff.mp hdrained
  have hresponse :
      (d.control setup payload).1 = (d.session.control d.endpoint setup payload).1 := rfl
  have hsession : (d.react (.control setup payload)).session =
      (d.session.control d.endpoint setup payload).2.1 := rfl
  have hendpoint : (d.react (.control setup payload)).endpoint =
      (d.session.control d.endpoint setup payload).2.2 := rfl
  rw [hopened] at hresponse hsession hendpoint
  refine ⟨hresponse, ?_⟩
  exact {
    data := ByteArray.empty_append.symm
    words := fun _ _ => Nat.dvd_zero 4
    destination := by rw [hsession]
    write := by rw [hsession]; rfl
    stop := by
      rw [hsession]
      exact Nat.min_eq_left (show u.offset.toNat + u.data.size ≤ 0xFFFFFFFFFFFFFFFF by omega)
    active := by rw [hsession]; exact (decide_eq_true hpos).symm
    holds := by rw [hsession, hendpoint]; exact hholds
    carry := .inl hcarry
    stored := Stored.empty d u.destination u.offset.toNat }

/-- Uploads are delivered exactly. Let the endpoint of a device be drained at some point of a run,
and let the host open an upload that fits in its destination. Then the request is accepted. Let the
host send the packets of the upload, while polls and anything else but a configuration or another
upload happen in between:

* the session is active exactly as long as the polls have taken fewer bytes than the upload has;
* when they have taken all of them, the endpoint is drained again, the bytes are in their
  destination, for sample memory with the words reversed, and every other byte of both memories is
  what it was;
* they take all of them if there are as many more polls as packets wait at the end. -/
theorem delivers_exactly (config : DeviceConfig) (chip : Recorder) (timer : Timer)
    (before : List Event) {u : Upload} {setup : Setup} {payload : ByteArray}
    {packets : List Packet} {events : List Event}
    (hdrained : ((Device.new config chip timer).run before).endpoint.Drained)
    (hrequest : Request.decode setup payload = .ok (some u.request))
    (hfits : u.offset.toNat + u.data.size ≤ u.destination.capacity)
    (hcarry : Carry u.destination packets u.data)
    (hkeep : ∀ e ∈ events, e.KeepsUpload) (hpushed : pushedIn events = packets) :
    let old := (Device.new config chip timer).run before
    let d := old.react (.control setup payload)
    (old.control setup payload).1 = .ok .acknowledge ∧
    (∀ first later, events = first ++ later →
      (d.run first).session.active = decide (d.receivedIn first < u.data.size)) ∧
    (d.receivedIn events = u.data.size →
      (d.run events).endpoint.Drained ∧
        old.Stored (d.run events) u.destination u.offset.toNat u.data) ∧
    ∀ later, (∀ e ∈ later, e.KeepsUpload) → pushedIn later = [] →
      (d.run events).endpoint.waiting ≤ later.countP Event.isPoll →
        d.receivedIn (events ++ later) = u.data.size := by
  intro old d
  subst hpushed
  obtain ⟨hresponse, hopened⟩ :=
    receiving_control (inStep_run config chip timer before) hdrained hrequest hfits hcarry
  have hrun (first : List Event) (coming : List Packet) (hfirst : ∀ e ∈ first, e.KeepsUpload)
      (hsplit : pushedIn events = pushedIn first ++ coming) :
      ∃ done rest, Receiving old u done rest (waitingAfter [] first) coming (d.run first) ∧
        done.size = d.receivedIn first := by
    rw [hsplit] at hopened
    obtain ⟨done, rest, hreceiving, hsize⟩ := hopened.run hfits hfirst
    exact ⟨done, rest, hreceiving, hsize.trans (Nat.zero_add _)⟩
  refine ⟨hresponse, ?_, ?_, ?_⟩
  · rintro first later rfl
    obtain ⟨done, rest, hreceiving, hsize⟩ :=
      hrun first (pushedIn later) (fun e he => hkeep e (List.mem_append_left _ he))
        List.filterMap_append
    rw [hreceiving.active_eq, hsize]
  · intro hall
    obtain ⟨done, rest, hreceiving, hsize⟩ := hrun events [] hkeep (List.append_nil _).symm
    exact hreceiving.complete (hsize.trans hall)
  · intro later hlater hnone hpolls
    obtain ⟨_, _, hsent, -⟩ := hrun events [] hkeep (List.append_nil _).symm
    obtain ⟨done, rest, hreceiving, hsize⟩ := hrun (events ++ later) []
      (fun e he => (List.mem_append.mp he).elim (hkeep e) (hlater e))
      (by rw [pushedIn, pushedIn, List.filterMap_append, show later.filterMap _ = [] from hnone,
        List.append_nil, List.append_nil])
    -- no packet waits any more, so nothing is missing
    have hempty : waitingAfter [] (events ++ later) = [] := by
      rw [waitingAfter, List.foldl_append]
      exact (waitingAfter_of_no_push hnone _).trans
        (List.drop_eq_nil_of_le (hsent.holds.waiting ▸ hpolls))
    rw [hempty] at hreceiving
    have hdata := hreceiving.size_data
    rcases hreceiving.carry with hcarry | ⟨-, hrest⟩
    · exact absurd rfl hcarry.ne_nil
    · omega

/-- Six bytes for sample memory: a word and a half. -/
def sixBytes : Upload := ⟨.adpcmA, 0x10, ⟨#[1, 2, 3, 4, 5, 6]⟩⟩

/-- The host sends them in two packets, with a transfer that fails and an empty packet among them;
a poll comes in between. -/
def sixBytesSent : List Event :=
  [.push .invalid, .push (.data ⟨#[1, 2, 3, 4]⟩), .push (.data .empty), .poll,
    .push (.data ⟨#[5, 6]⟩)]

theorem carry_sixBytes : Carry .adpcmA (pushedIn sixBytesSent) sixBytes.data := by
  have hcut : sixBytes.data = ⟨#[1, 2, 3, 4]⟩ ++ ⟨#[5, 6]⟩ := by decide
  rw [hcut]
  exact .invalid (.piece (by decide) (by decide) (fun _ => by decide)
    (.empty (.last (by decide) (by decide))))

/-- A device at power-on that the host has configured takes them. -/
theorem delivers_exactly_six :
    let old := (Device.new {} (.fresh (fun _ => true) true) { manual := true }).run [.configure]
    let d := old.react (.control sixBytes.request.encode.1 sixBytes.request.encode.2)
    let after := d.run (sixBytesSent ++ [.poll, .poll, .poll])
    after.endpoint.Drained ∧
      (List.range 8).map (fun i => after.samples.byte (0x0F + i)) = [0, 4, 3, 2, 1, 5, 6, 0] := by
  intro old d after
  have hdrained : old.endpoint.Drained := ⟨rfl, rfl, rfl, rfl⟩
  have hrequest : Request.decode sixBytes.request.encode.1 sixBytes.request.encode.2 =
      .ok (some sixBytes.request) := by rfl
  have hfits : sixBytes.offset.toNat + sixBytes.data.size ≤ sixBytes.destination.capacity := by
    decide
  have hkeep : ∀ e ∈ sixBytesSent ++ [.poll, .poll, .poll], e.KeepsUpload := by
    simp [sixBytesSent, Event.KeepsUpload]
  obtain ⟨-, -, -, hpolls⟩ := delivers_exactly {} (.fresh (fun _ => true) true)
    { manual := true } [.configure] hdrained hrequest hfits carry_sixBytes
    (fun e he => hkeep e (List.mem_append_left _ he)) rfl
  have hall := hpolls [.poll, .poll, .poll] (fun e he => hkeep e (List.mem_append_right _ he)) rfl
    (by decide +kernel)
  obtain ⟨-, -, hdone, -⟩ := delivers_exactly {} (.fresh (fun _ => true) true)
    { manual := true } [.configure] hdrained hrequest hfits carry_sixBytes hkeep rfl
  obtain ⟨hafter, hstored⟩ := hdone hall
  refine ⟨hafter, ?_⟩
  have hbyte : ∀ i ∈ List.range 8, after.samples.byte (0x0F + i) = _ :=
    fun i _ => (memory_of_samples rfl after (0x0F + i)).symm.trans (hstored .adpcmA (0x0F + i))
  rw [List.map_congr_left hbyte]
  decide +kernel

end Device
end ChipReplay
