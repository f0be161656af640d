import ChipReplay.Proofs.Device.Messages
/-!
# The two descriptors

The packets that the device has not taken stand in the two descriptors and, behind these, in the
host's queue. The device and the endpoint each keep a turn of their own: one says where the oldest
packet is looked for, the other where the next one goes. `Endpoint.Holds` is the list of packets as
seen from the device's turn, and it ties the two turns together. A packet that is pushed joins at
the end of the list (`Holds.push`), and arming the descriptor that the device has read takes the
first one off (`Holds.arm`).
-/

namespace ChipReplay

@[simp] theorem Descriptor.other_other (d : Descriptor) : d.other.other = d := by
  cases d <;> rfl

theorem Descriptor.other_ne (d : Descriptor) : d.other ≠ d := by
  cases d <;> decide

theorem Packet.toSlot_ne_armed (p : Packet) : p.toSlot ≠ .armed := by
  cases p <;> exact Slot.noConfusion

@[simp] theorem Packet.isTaken_toSlot (p : Packet) : p.toSlot.isTaken = true := by
  cases p <;> rfl

namespace Endpoint

variable {e : Endpoint} {d : Descriptor} {p : Packet} {ps : List Packet}

/-- The descriptors hold `taken`, the oldest packet in `d`, and the next packet goes where it
belongs. A descriptor without a packet is armed. -/
def Lined (e : Endpoint) (d : Descriptor) : List Packet → Prop
  | [] => e.slot d = .armed ∧ e.slot d.other = .armed ∧ e.turn = d
  | [p] => e.slot d = p.toSlot ∧ e.slot d.other = .armed ∧ e.turn = d.other
  | [p, q] => e.slot d = p.toSlot ∧ e.slot d.other = q.toSlot ∧ e.turn = d
  | _ => False

/-- The packets that the device has not taken, oldest first, when it looks at descriptor `d` next.
The first two stand in the descriptors, the others in the queue. -/
structure Holds (e : Endpoint) (d : Descriptor) (ps : List Packet) : Prop where
  enabled : e.enabled = true
  lined : e.Lined d (ps.take 2)
  queue : e.queue.toList = ps.drop 2

theorem Holds.slot (h : e.Holds d (p :: ps)) : e.slot d = p.toSlot := by
  have hlined := h.lined
  cases ps with
  | nil => exact hlined.1
  | cons q rest => exact hlined.1

/-- As many packets wait as are in the list. -/
theorem Holds.waiting (h : e.Holds d ps) : e.waiting = ps.length := by
  have hslots : e.waiting =
      (ps.drop 2).length + ((e.slot d).isTaken.toNat + (e.slot d.other).isTaken.toNat) := by
    rw [Endpoint.waiting, Fifo.size_eq_length, h.queue, Nat.add_assoc]
    cases d
    · rfl
    · rw [Nat.add_comm e.first.isTaken.toNat]
      rfl
  have hlined := h.lined
  rw [hslots]
  match ps, hlined with
  | [], ⟨hslot, hother, _⟩ => rw [hslot, hother]; rfl
  | [p], ⟨hslot, hother, _⟩ => rw [hslot, hother, p.isTaken_toSlot]; rfl
  | p :: q :: rest, ⟨hslot, hother, _⟩ =>
    rw [hslot, hother, p.isTaken_toSlot, q.isTaken_toSlot]
    rfl

/-! ## Pumping -/

theorem slot_setSlot (e : Endpoint) (d d' : Descriptor) (s : Slot) :
    (e.setSlot d s).slot d' = if d' = d then s else e.slot d' := by
  cases d <;> cases d' <;> rfl

theorem setSlot_eq (e : Endpoint) (d : Descriptor) (s : Slot) :
    ∃ first second, e.setSlot d s = { e with first, second } := by
  cases d
  · exact ⟨s, e.second, rfl⟩
  · exact ⟨e.first, s, rfl⟩

theorem pumpOne_of_empty (h : e.queue.toList = []) : e.pumpOne = e := by
  have hpop := (Fifo.pop?_eq_none_iff e.queue).mpr h
  unfold pumpOne
  split
  · rw [hpop]
  · rfl

theorem pumpOne_of_not_armed (h : e.slot e.turn ≠ .armed) : e.pumpOne = e := by
  unfold pumpOne
  split
  · next _ harmed => exact absurd harmed h
  · rfl

/-- The first packet of the queue goes into the descriptor whose turn it is, if that is armed. -/
theorem pumpOne_of_armed (henabled : e.enabled = true) (harmed : e.slot e.turn = .armed)
    (hqueue : e.queue.toList = p :: ps) :
    e.pumpOne.enabled = true ∧ e.pumpOne.slot e.turn = p.toSlot ∧
      e.pumpOne.slot e.turn.other = e.slot e.turn.other ∧ e.pumpOne.turn = e.turn.other ∧
      e.pumpOne.queue.toList = ps := by
  rcases hpop : e.queue.pop? with _ | ⟨q, queue⟩
  · rw [(Fifo.pop?_eq_none_iff e.queue).mp hpop] at hqueue
    exact absurd hqueue (by simp)
  · have htoList := Fifo.toList_of_pop? hpop
    rw [hqueue] at htoList
    obtain ⟨rfl, hrest⟩ := List.cons.inj htoList
    have hpumped : e.pumpOne = { e.setSlot e.turn p.toSlot with queue, turn := e.turn.other } := by
      rw [pumpOne, henabled, harmed, hpop]
    have hslots := e.slot_setSlot e.turn
    rw [hpumped]
    refine ⟨?_, ?_, ?_, rfl, hrest.symm⟩
    · obtain ⟨first, second, hset⟩ := e.setSlot_eq e.turn p.toSlot
      rw [hset]
      exact henabled
    · exact (hslots e.turn _).trans (if_pos rfl)
    · exact (hslots e.turn.other _).trans (if_neg (Descriptor.other_ne _))

/-- A packet of the queue goes into a descriptor that is free. -/
theorem Lined.pumpOne {taken : List Packet} (h : e.Lined d taken) (henabled : e.enabled = true)
    (hfree : taken.length < 2) (hqueue : e.queue.toList = p :: ps) :
    e.pumpOne.enabled = true ∧ e.pumpOne.Lined d (taken ++ [p]) ∧ e.pumpOne.queue.toList = ps := by
  match taken, h with
  | [], ⟨hslot, hother, hturn⟩ =>
    subst hturn
    obtain ⟨henabled', hfilled, hkept, hturn', hqueue'⟩ := pumpOne_of_armed henabled hslot hqueue
    exact ⟨henabled', ⟨hfilled, hkept.trans hother, hturn'⟩, hqueue'⟩
  | [q], ⟨hslot, hother, hturn⟩ =>
    obtain ⟨henabled', hfilled, hkept, hturn', hqueue'⟩ :=
      pumpOne_of_armed henabled (hturn ▸ hother) hqueue
    rw [hturn] at hfilled hkept hturn'
    rw [Descriptor.other_other] at hkept hturn'
    exact ⟨henabled', ⟨hkept.trans hslot, hfilled, hturn'⟩, hqueue'⟩

/-- With both descriptors taken, no packet moves. -/
theorem Lined.pumpOne_of_full {q : Packet} (h : e.Lined d [p, q]) : e.pumpOne = e := by
  obtain ⟨hslot, -, hturn⟩ := h
  apply pumpOne_of_not_armed
  rw [hturn, hslot]
  exact p.toSlot_ne_armed

theorem Lined.length_le {taken : List Packet} (h : e.Lined d taken) : taken.length ≤ 2 := by
  rcases taken with _ | ⟨p, _ | ⟨q, _ | ⟨r, rest⟩⟩⟩
  · exact Nat.zero_le 2
  · exact Nat.le_succ 1
  · exact Nat.le_refl 2
  · exact h.elim

/-- Pumping fills the descriptors from the queue. -/
theorem Lined.pump {taken queued : List Packet} (h : e.Lined d taken) (henabled : e.enabled = true)
    (hqueue : e.queue.toList = queued) : e.pump.Holds d (taken ++ queued) := by
  rw [Endpoint.pump]
  cases queued with
  | nil =>
    have htake : taken.take 2 = taken := List.take_of_length_le h.length_le
    have hdrop : taken.drop 2 = [] := List.drop_eq_nil_of_le h.length_le
    rw [pumpOne_of_empty hqueue, pumpOne_of_empty hqueue, List.append_nil]
    exact ⟨henabled, by rwa [htake], hqueue.trans hdrop.symm⟩
  | cons r queued =>
    -- as many packets move as descriptors are free
    rcases taken with _ | ⟨p, _ | ⟨q, _ | ⟨_, _⟩⟩⟩
    · obtain ⟨henabled', hlined', hqueue'⟩ := h.pumpOne henabled Nat.two_pos hqueue
      cases queued with
      | nil =>
        rw [pumpOne_of_empty hqueue']
        exact ⟨henabled', hlined', hqueue'⟩
      | cons s queued =>
        obtain ⟨henabled'', hlined'', hqueue''⟩ := hlined'.pumpOne henabled' Nat.one_lt_two hqueue'
        exact ⟨henabled'', hlined'', hqueue''⟩
    · obtain ⟨henabled', hlined', hqueue'⟩ := h.pumpOne henabled Nat.one_lt_two hqueue
      rw [hlined'.pumpOne_of_full]
      exact ⟨henabled', hlined', hqueue'⟩
    · rw [h.pumpOne_of_full, h.pumpOne_of_full]
      exact ⟨henabled, h, hqueue⟩
    · exact h.elim

/-! ## Operations -/

/-- A packet that is sent is the last to be taken. -/
theorem Holds.push (h : e.Holds d ps) (p : Packet) : (e.push p).Holds d (ps ++ [p]) := by
  rw [Endpoint.push, if_pos h.enabled]
  have hlined : Lined { e with queue := e.queue.push p } d (ps.take 2) := by
    match ps, h.lined with
    | [], hlined => exact hlined
    | [_], hlined => exact hlined
    | _ :: _ :: _, hlined => exact hlined
  have hpump := hlined.pump h.enabled (Fifo.toList_push e.queue p)
  rwa [h.queue, ← List.append_assoc, List.take_append_drop] at hpump

/-- Arming the descriptor of the oldest packet makes way for the others. -/
theorem Holds.arm (h : e.Holds d (p :: ps)) : (e.arm d).Holds d.other ps := by
  obtain ⟨first, second, hset⟩ := e.setSlot_eq d .armed
  have henabled : (e.setSlot d .armed).enabled = true := by
    rw [hset]
    exact h.enabled
  have hturn : (e.setSlot d .armed).turn = e.turn := by rw [hset]
  have hqueue : (e.setSlot d .armed).queue.toList = (p :: ps).drop 2 := by
    rw [hset]
    exact h.queue
  have harmed : (e.setSlot d .armed).slot d = .armed := by rw [slot_setSlot, if_pos rfl]
  have hkept : (e.setSlot d .armed).slot d.other = e.slot d.other := by
    rw [slot_setSlot, if_neg (Descriptor.other_ne d)]
  -- the other descriptor holds the next packet, if there is one
  match ps, h.lined with
  | [], ⟨_, hother, hold⟩ =>
    have hlined : (e.setSlot d .armed).Lined d.other [] :=
      ⟨hkept.trans hother, by rwa [Descriptor.other_other], hturn.trans hold⟩
    exact hlined.pump henabled hqueue
  | q :: rest, ⟨_, hother, hold⟩ =>
    have hlined : (e.setSlot d .armed).Lined d.other [q] := by
      refine ⟨hkept.trans hother, ?_, ?_⟩
      · rwa [Descriptor.other_other]
      · rw [hturn, hold, Descriptor.other_other]
    exact hlined.pump henabled hqueue

/-- If only the first descriptor is armed, one packet moves, and arming the second one moves
another. -/
theorem holds_arm_second (henabled : e.enabled = true) (hfirst : e.first = .armed)
    (hsecond : e.second = .idle) (hturn : e.turn = .first) :
    (e.pump.arm .second).Holds .first e.queue.toList := by
  rw [Endpoint.pump]
  cases hqueue : e.queue.toList with
  | nil =>
    rw [pumpOne_of_empty hqueue, pumpOne_of_empty hqueue]
    have hlined : (e.setSlot .second .armed).Lined .first [] := ⟨hfirst, rfl, hturn⟩
    exact hlined.pump henabled hqueue
  | cons p rest =>
    obtain ⟨henabled', hfilled, hidle, hturn', hrest⟩ :=
      pumpOne_of_armed henabled (by rw [hturn]; exact hfirst) hqueue
    rw [hturn] at hfilled hidle hturn'
    have hstays : e.pumpOne.pumpOne = e.pumpOne := by
      apply pumpOne_of_not_armed
      rw [hturn', hidle]
      exact fun h => Slot.noConfusion (hsecond.symm.trans h)
    rw [hstays]
    have hlined : (e.pumpOne.setSlot .second .armed).Lined .first [p] := ⟨hfilled, rfl, hturn'⟩
    exact hlined.pump henabled' hrest

/-- Enabling arms both descriptors, so that the first packets of the queue fill them. -/
theorem holds_enable (e : Endpoint) :
    (((e.setEnabled true).arm .first).arm .second).Holds .first e.queue.toList :=
  holds_arm_second
    (e := { e with enabled := true, first := .armed, second := .idle, turn := .first })
    rfl rfl rfl rfl

/-- The bulk endpoint is enabled, both descriptors wait for a packet, and the queue is empty. -/
structure Drained (e : Endpoint) : Prop where
  enabled : e.enabled = true
  first : e.first = .armed
  second : e.second = .armed
  queue : e.queue.toList = []

theorem drained_iff (d : Descriptor) :
    e.Drained ↔ e.enabled = true ∧ e.slot d = .armed ∧ e.slot d.other = .armed ∧
      e.queue.toList = [] := by
  cases d with
  | first => exact ⟨fun h => ⟨h.1, h.2, h.3, h.4⟩, fun h => ⟨h.1, h.2.1, h.2.2.1, h.2.2.2⟩⟩
  | second => exact ⟨fun h => ⟨h.1, h.3, h.2, h.4⟩, fun h => ⟨h.1, h.2.2.1, h.2.1, h.2.2.2⟩⟩

/-- A drained endpoint is one that no packet waits in. -/
theorem Holds.drained_iff (h : e.Holds d ps) : e.Drained ↔ ps = [] := by
  rw [Endpoint.drained_iff d]
  constructor
  · rintro ⟨-, hslot, -, -⟩
    cases ps with
    | nil => rfl
    | cons p ps => exact absurd (h.slot.symm.trans hslot) p.toSlot_ne_armed
  · rintro rfl
    exact ⟨h.enabled, h.lined.1, h.lined.2.1, h.queue⟩

end Endpoint
end ChipReplay
