import ChipReplay.Proofs.Bytes.Checked
import ChipReplay.Proofs.Upload.Delivery
/-!
# What a poll does to an upload

What a poll can end with is listed once (`Session.Outcome`). From the list follow that the position
of an active upload lies in its range (`Session.Within`), that it only moves forward over the
packets that are handed on (`Session.Advances`), and which packets are left behind them
(`Session.Pending`).
-/

namespace ChipReplay

namespace Request

variable {t : Destination} {start length : UInt32} {data : ByteArray}

theorem length_of_decodeOpenUpload {value : UInt16}
    (h : decodeOpenUpload value data = .ok (.openUpload t start length)) : length ≠ 0 := by
  unfold decodeOpenUpload at h
  obtain ⟨t', -, h⟩ := ok_of_bind h
  obtain ⟨-, h⟩ := ok_of_ite h
  obtain ⟨start', -, h⟩ := ok_of_bind h
  obtain ⟨length', -, h⟩ := ok_of_bind h
  obtain ⟨hpos, h⟩ := ok_of_ite h
  obtain ⟨-, -, rfl⟩ := Request.openUpload.inj (Except.ok.inj h)
  exact hpos

/-- Only an upload of some length can be asked for. -/
theorem length_of_decode {setup : Setup}
    (h : decode setup data = .ok (some (.openUpload t start length))) : length ≠ 0 := by
  unfold decode at h
  split at h
  · exact absurd h (by simp)
  · obtain ⟨-, h⟩ := ok_of_ite h
    obtain ⟨-, h⟩ := ok_of_ite h
    split at h
    · exact absurd h (by simp)
    · split at h
      · exact absurd h (by simp)
      · split at h
        · cases hpayload : decodeOpenUpload setup.value data with
          | error _ =>
            rw [hpayload] at h
            cases h
          | ok r =>
            rw [hpayload] at h
            obtain rfl := Option.some.inj (Except.ok.inj h)
            exact length_of_decodeOpenUpload hpayload
        · cases h

end Request

/-- The packet that carried a chunk. -/
def Chunk.packet (c : Chunk) : Packet := .data c.bytes

/-! ## What a poll can do -/

/-- A packet that has arrived stands in its descriptor. -/
theorem Endpoint.slot_of_received {e : Endpoint} {d : Descriptor} {length : Nat}
    (h : e.arrival d = .received length) :
    ∃ bytes, e.slot d = .full bytes ∧ bytes.size = length := by
  unfold arrival at h
  split at h
  · next bytes hslot => exact ⟨bytes, hslot, Arrival.received.inj h⟩
  · cases h
  · cases h
  · cases h

namespace Session

variable {s s' : Session} {e : Endpoint}

/-- What a poll of the session can end with. -/
inductive Outcome (s : Session) (e : Endpoint) :
    Except UploadError (Option Chunk) × Session × Endpoint → Prop
  /-- There is no upload or no packet. -/
  | idle : Outcome s e (.ok none, s, e)
  /-- A transfer that ended with an error is passed over. -/
  | invalid (henabled : e.enabled = true) (harrival : e.arrival s.turn = .invalid) :
    Outcome s e (.ok none, s.rearm e s.turn)
  /-- More bytes have come than the upload has left. -/
  | overrun {length : Nat} (harrival : e.arrival s.turn = .received length)
    (hover : s.remaining < length) :
    Outcome s e
      (.error (.overrun length s.remaining), { s with active := false }, e.setEnabled false)
  /-- A packet that is empty or too long is counted and dropped. -/
  | dropped {length : Nat} (henabled : e.enabled = true)
    (harrival : e.arrival s.turn = .received length) (hfits : length ≤ s.remaining) :
    Outcome s e (.ok none, (s.moved length).rearm e s.turn)
  /-- A packet is handed on. -/
  | taken {destination : Destination} {bytes : ByteArray} (henabled : e.enabled = true)
    (hslot : e.slot s.turn = .full bytes) (hactive : s.active = true)
    (hdestination : s.destination = some destination) (hpos : 0 < bytes.size)
    (hfits : bytes.size ≤ s.remaining) :
    Outcome s e (.ok (some ⟨destination, s.write, bytes⟩), (s.moved bytes.size).rearm e s.turn)

theorem outcome_poll (s : Session) (e : Endpoint) : s.Outcome e (s.poll e) := by
  unfold poll
  split
  · next destination hready hdestination =>
    obtain ⟨hactive, henabled⟩ := Bool.and_eq_true_iff.mp hready
    dsimp only
    split
    · exact .idle
    · next harrival => exact .invalid henabled harrival
    · next length harrival =>
      obtain ⟨bytes, hslot, rfl⟩ := Endpoint.slot_of_received harrival
      have hpayload : e.payload s.turn = bytes := by rw [Endpoint.payload, hslot]
      split
      · next hover => exact .overrun harrival hover
      · next hfits =>
        by_cases hdropped : bytes.size = 0 ∨ packetSize < bytes.size
        · rw [if_pos hdropped]
          exact .dropped henabled harrival (by omega)
        · rw [if_neg hdropped, hpayload]
          exact .taken henabled hslot hactive hdestination (by omega) (by omega)
  · exact .idle

/-- A packet that is handed on starts at the position of an active upload, and ends in its range. -/
theorem range_of_poll {c : Chunk} (h : (s.poll e).1 = .ok (some c)) :
    s.active = true ∧ s.destination = some c.destination ∧ c.offset = s.write ∧
      s.write + c.bytes.size ≤ s.stop := by
  have houtcome := s.outcome_poll e
  generalize s.poll e = r at h houtcome
  cases houtcome with
  | idle | invalid | overrun | dropped => exact absurd h (by simp)
  | taken _ _ hactive hdestination _ hfits =>
    obtain rfl := Option.some.inj (Except.ok.inj h)
    unfold remaining at hfits
    exact ⟨hactive, hdestination, rfl, by dsimp only; omega⟩

/-! ## What a request can do -/

/-- The session in which an upload has been opened. -/
def opened (s : Session) (t : Destination) (start length : Nat) : Session :=
  { s with
    destination := some t, start, write := start
    stop := min (start + length) offsetLimit, active := true }

/-- A request for an upload is always accepted, and enables the endpoint. -/
theorem control_of_open {setup : Setup} {data : ByteArray} {t : Destination}
    {start length : UInt32} (s : Session) (e : Endpoint)
    (h : Request.decode setup data = .ok (some (.openUpload t start length))) :
    s.control e setup data = (.ok .acknowledge,
      if e.enabled then (s.opened t start.toNat length.toNat, e)
      else (s.opened t start.toNat length.toNat).enableBulk e) := by
  have hlength : length.toNat ≠ 0 := by
    intro hzero
    exact Request.length_of_decode h (UInt32.toNat_inj.mp hzero)
  rw [control, h]
  dsimp only
  rw [openUpload, if_neg hlength]
  rfl

/-- Any other request leaves the upload and the endpoints alone. -/
theorem control_cases (s : Session) (e : Endpoint) (setup : Setup) (data : ByteArray) :
    (∃ t start length, Request.decode setup data = .ok (some (.openUpload t start length))) ∨
      ∃ startPending, (s.control e setup data).2 = ({ s with startPending }, e) := by
  unfold control
  split
  · exact .inr ⟨_, rfl⟩
  · exact .inr ⟨_, rfl⟩
  · exact .inr ⟨_, rfl⟩
  · exact .inr ⟨_, rfl⟩
  · next t start length hrequest => exact .inl ⟨t, start, length, hrequest⟩

/-- Every request that can be read is answered. -/
theorem response_of_decode {setup : Setup} {data : ByteArray} {r : Option Request}
    (s : Session) (e : Endpoint) (h : Request.decode setup data = .ok r) :
    ∃ response, (s.control e setup data).1 = .ok response := by
  rcases r with _ | _ | _ | ⟨t, start, length⟩
  · exact ⟨_, by rw [control, h]⟩
  · exact ⟨_, by rw [control, h]⟩
  · exact ⟨_, by rw [control, h]⟩
  · exact ⟨_, by rw [s.control_of_open e h]⟩

/-- An upload is opened at a position in its range. -/
theorem range_opened (s : Session) (t : Destination) (start : UInt32) {length : UInt32}
    (h : length ≠ 0) :
    (s.opened t start.toNat length.toNat).stop = start.toNat + length.toNat ∧
      start.toNat < start.toNat + length.toNat := by
  have hstart : start.toNat < 2 ^ 32 := start.toNat_lt
  have hlength : length.toNat < 2 ^ 32 := length.toNat_lt
  have hpos : length.toNat ≠ 0 := by
    intro hzero
    exact h (UInt32.toNat_inj.mp hzero)
  constructor
  · apply Nat.min_eq_left
    unfold offsetLimit
    omega
  · omega

/-! ## The position of an upload -/

/-- The position of an upload that is active lies in the upload's range. -/
def Within (s : Session) : Prop := s.active = true → s.start ≤ s.write ∧ s.write < s.stop

theorem within_of_inactive (h : s.active = false) : s.Within := by
  intro hactive
  exact absurd (h.symm.trans hactive) Bool.false_ne_true

/-- If a packet ends at the end of the range, the upload is over. -/
theorem Within.moved (h : s.Within) {length : Nat} (hfits : length ≤ s.remaining) :
    (s.moved length).Within := by
  intro hactive
  obtain ⟨hold, hmore⟩ := Bool.and_eq_true_iff.mp (show (_ && _) = true from hactive)
  have hne : s.write + length ≠ s.stop := bne_iff_ne.mp hmore
  obtain ⟨hstart, hstop⟩ := h hold
  unfold remaining at hfits
  show s.start ≤ s.write + length ∧ s.write + length < s.stop
  omega

theorem Within.poll (h : s.Within) : (s.poll e).2.1.Within := by
  have houtcome := s.outcome_poll e
  generalize s.poll e = r at houtcome
  cases houtcome with
  | idle => exact h
  | invalid => exact h
  | overrun => exact within_of_inactive rfl
  | dropped _ _ hfits => exact h.moved hfits
  | taken _ _ _ _ _ hfits => exact h.moved hfits

theorem Within.control (h : s.Within) (setup : Setup) (data : ByteArray) :
    (s.control e setup data).2.1.Within := by
  rcases s.control_cases e setup data with ⟨t, start, length, hrequest⟩ | ⟨startPending, heq⟩
  · obtain ⟨hstop, hpos⟩ := s.range_opened t start (Request.length_of_decode hrequest)
    have hopened : (s.opened t start.toNat length.toNat).Within :=
      fun _ => ⟨Nat.le_refl _, hstop ▸ hpos⟩
    rw [s.control_of_open e hrequest]
    dsimp only
    split
    · exact hopened
    · exact hopened
  · rw [heq]
    exact h

/-- `s'` goes on with the upload of `s`, and its position has moved over the packet. -/
structure Advances (s : Session) (packet : Option Chunk) (s' : Session) : Prop where
  active : s.active = true
  destination : s'.destination = s.destination
  start : s'.start = s.start
  stop : s'.stop = s.stop
  write : s.write + packet.elim 0 (·.bytes.size) ≤ s'.write

theorem advances_poll (h : (s.poll e).2.1.active = true) :
    s.Advances (s.poll e).1.toOption.join (s.poll e).2.1 := by
  have houtcome := s.outcome_poll e
  generalize s.poll e = r at h houtcome
  cases houtcome with
  | idle => exact ⟨h, rfl, rfl, rfl, Nat.le_refl _⟩
  | invalid => exact ⟨h, rfl, rfl, rfl, Nat.le_refl _⟩
  | overrun => exact absurd h Bool.false_ne_true
  | dropped =>
    obtain ⟨hactive, -⟩ := Bool.and_eq_true_iff.mp (show (_ && _) = true from h)
    exact ⟨hactive, rfl, rfl, rfl, Nat.le_add_right _ _⟩
  | taken _ _ hactive => exact ⟨hactive, rfl, rfl, rfl, Nat.le_refl _⟩

/-! ## The packets that are left -/

/-- The packets `ps` may still be taken: an enabled endpoint holds them, and a disabled one has
none. -/
def Pending (s : Session) (e : Endpoint) (ps : List Packet) : Prop :=
  e.Holds s.turn ps ∨ e.enabled = false ∧ e.queue.toList = []

theorem Pending.congr {ps : List Packet} (h : s.Pending e ps) {e' : Endpoint}
    (hturn : s'.turn = s.turn) (hsame : e.SamePackets e') : s'.Pending e' ps := by
  rcases h with hholds | ⟨hdisabled, hqueue⟩
  · exact .inl (hturn ▸ hholds.congr hsame)
  · exact .inr ⟨hsame.enabled.trans hdisabled, by rw [hsame.queue, hqueue]⟩

/-- What has arrived is the oldest packet. -/
theorem head_of_arrived {d : Descriptor} {ps : List Packet} (h : e.Holds d ps)
    (harrived : e.arrival d ≠ .pending) : ∃ p rest, ps = p :: rest ∧ e.slot d = p.toSlot := by
  cases ps with
  | nil => exact absurd (by rw [Endpoint.arrival, h.lined.1]) harrived
  | cons p rest => exact ⟨p, rest, rfl, h.slot⟩

variable {ps : List Packet}

theorem Pending.rearm (h : s.Pending e ps) (henabled : e.enabled = true)
    (harrived : e.arrival s.turn ≠ .pending) (s' : Session) :
    ∃ p rest, ps = p :: rest ∧ e.slot s.turn = p.toSlot ∧
      (s'.rearm e s.turn).1.Pending (s'.rearm e s.turn).2 rest := by
  rcases h with hholds | ⟨hdisabled, -⟩
  · obtain ⟨p, rest, rfl, hslot⟩ := head_of_arrived hholds harrived
    exact ⟨p, rest, rfl, hslot, .inl hholds.arm⟩
  · exact absurd (hdisabled.symm.trans henabled) Bool.false_ne_true

/-- A poll hands on the oldest packet, or loses it, or leaves it. -/
theorem Pending.poll (h : s.Pending e ps) :
    ∃ ps', (s.poll e).2.1.Pending (s.poll e).2.2 ps' ∧
      ((s.poll e).1.toOption.join.toList.map Chunk.packet ++ ps').Sublist ps := by
  have houtcome := s.outcome_poll e
  generalize s.poll e = r at houtcome
  cases houtcome with
  | idle => exact ⟨ps, h, .refl _⟩
  | invalid henabled harrival =>
    obtain ⟨p, rest, rfl, -, hrest⟩ := h.rearm henabled (by simp [harrival]) s
    exact ⟨rest, hrest, List.sublist_cons_self p rest⟩
  | overrun => exact ⟨[], .inr ⟨rfl, rfl⟩, List.nil_sublist _⟩
  | @dropped length henabled harrival =>
    obtain ⟨p, rest, rfl, -, hrest⟩ := h.rearm henabled (by simp [harrival]) (s.moved length)
    exact ⟨rest, hrest, List.sublist_cons_self p rest⟩
  | @taken destination bytes henabled hslot =>
    have harrived : e.arrival s.turn ≠ .pending := by simp [Endpoint.arrival, hslot]
    obtain ⟨p, rest, rfl, hhead, hrest⟩ := h.rearm henabled harrived (s.moved bytes.size)
    have hpacket : p = .data bytes := by
      cases p with
      | data bytes' => rw [Slot.full.inj (hhead.symm.trans hslot)]
      | invalid => cases hhead.symm.trans hslot
    refine ⟨rest, hrest, ?_⟩
    rw [hpacket]
    exact List.Sublist.refl _

theorem Pending.push (h : s.Pending e ps) (p : Packet) :
    ∃ ps', s.Pending (e.push p) ps' ∧ ps'.Sublist (ps ++ [p]) := by
  rcases h with hholds | ⟨hdisabled, hqueue⟩
  · exact ⟨ps ++ [p], .inl (hholds.push p), .refl _⟩
  · refine ⟨ps, .inr ?_, List.sublist_append_left ps [p]⟩
    rw [Endpoint.push, if_neg (by simp [hdisabled])]
    exact ⟨hdisabled, hqueue⟩

/-- Enabling the endpoint loses the packets in the descriptors. -/
theorem Pending.enableBulk (h : s.Pending e ps) (s' : Session) :
    ∃ ps', (s'.enableBulk e).1.Pending (s'.enableBulk e).2 ps' ∧ ps'.Sublist ps := by
  refine ⟨e.queue.toList, .inl e.holds_enable, ?_⟩
  rcases h with hholds | ⟨-, hqueue⟩
  · rw [hholds.queue]
    exact List.drop_sublist 2 ps
  · rw [hqueue]
    exact List.nil_sublist ps

theorem Pending.control (h : s.Pending e ps) (setup : Setup) (data : ByteArray) :
    ∃ ps', (s.control e setup data).2.1.Pending (s.control e setup data).2.2 ps' ∧
      ps'.Sublist ps := by
  rcases s.control_cases e setup data with ⟨t, start, length, hrequest⟩ | ⟨startPending, heq⟩
  · rw [s.control_of_open e hrequest]
    dsimp only
    split
    · exact ⟨ps, h, .refl _⟩
    · exact h.enableBulk _
  · rw [heq]
    exact ⟨ps, h, .refl _⟩

end Session
end ChipReplay
