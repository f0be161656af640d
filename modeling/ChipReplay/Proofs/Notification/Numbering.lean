import ChipReplay.Device.Basic
import ChipReplay.Host
import ChipReplay.Proofs.Notification.Codec
/-!
# Numbered messages

Messages that go out one after the other are numbered on the way: a refill request takes the
current number and moves it on, a status report leaves it alone. Two things live here:

* `Outgoing.numbered`, what a list of messages becomes from a given number on, and what it says
  about the `i`-th refill;
* `Host.hear`, a host that reads messages and keeps the refills that it accepts: if it expects the
  number that the messages begin with, it accepts them all (`Host.foldl_hear_wire`).
-/

namespace ChipReplay

/-! ## Numbering -/

/-- The refill that the bytes of a message ask for, if they ask for one. -/
def Notification.refillIn (message : ByteArray) : Option Refill :=
  (decode message).bind request?

namespace Outgoing

/-- The refill that is asked for, if one is. -/
def refill? : Outgoing → Option Refill
  | .refill r => some r
  | .status _ => none

/-- The message once it is numbered. -/
def withNumber (sequence : UInt32) : Outgoing → Notification
  | .refill r => .ofRefill sequence r
  | .status word => .status word

/-- The number after the message. -/
def numberAfter (sequence : UInt32) : Outgoing → UInt32
  | .refill _ => Notification.nextSequence sequence
  | .status _ => sequence

/-- The messages once they are numbered from `sequence` on. -/
def numbered : UInt32 → List Outgoing → List Notification
  | _, [] => []
  | sequence, m :: ms => m.withNumber sequence :: numbered (m.numberAfter sequence) ms

/-- The bytes of the messages once they are numbered from `sequence` on. -/
def wire (sequence : UInt32) (ms : List Outgoing) : List ByteArray :=
  (numbered sequence ms).map Notification.encode

/-- The number after the messages. -/
def numberAfterAll (sequence : UInt32) (ms : List Outgoing) : UInt32 :=
  ms.foldl numberAfter sequence

theorem numbered_append (sequence : UInt32) (ms ns : List Outgoing) :
    numbered sequence (ms ++ ns) =
      numbered sequence ms ++ numbered (numberAfterAll sequence ms) ns := by
  induction ms generalizing sequence with
  | nil => rfl
  | cons m ms ih =>
    show m.withNumber sequence :: numbered (m.numberAfter sequence) (ms ++ ns) = _
    rw [ih]
    rfl

theorem wire_cons (sequence : UInt32) (m : Outgoing) (ms : List Outgoing) :
    wire sequence (m :: ms) = (m.withNumber sequence).encode :: wire (m.numberAfter sequence) ms :=
  rfl

theorem wire_append (sequence : UInt32) (ms ns : List Outgoing) :
    wire sequence (ms ++ ns) = wire sequence ms ++ wire (numberAfterAll sequence ms) ns := by
  rw [wire, numbered_append, List.map_append]
  rfl

theorem numberAfterAll_append (sequence : UInt32) (ms ns : List Outgoing) :
    numberAfterAll sequence (ms ++ ns) = numberAfterAll (numberAfterAll sequence ms) ns :=
  List.foldl_append

theorem decode_withNumber (sequence : UInt32) (m : Outgoing) :
    Notification.decode (m.withNumber sequence).encode = some (m.withNumber sequence) := by
  rw [Notification.decode_encode]
  cases m with
  | refill r => exact congrArg some (Notification.masked_ofRefill sequence r)
  | status word => rfl

/-- The numbers do not hide what is asked for. -/
theorem refillIn_withNumber (sequence : UInt32) (m : Outgoing) :
    Notification.refillIn (m.withNumber sequence).encode = m.refill? := by
  rw [Notification.refillIn, decode_withNumber]
  cases m <;> rfl

theorem refillsIn_wire (sequence : UInt32) (ms : List Outgoing) :
    (wire sequence ms).filterMap Notification.refillIn = ms.filterMap refill? := by
  induction ms generalizing sequence with
  | nil => rfl
  | cons m ms ih =>
    rw [wire_cons, List.filterMap_cons, refillIn_withNumber, ih, List.filterMap_cons]

theorem filterMap_refills (rs : List Refill) : (rs.map refill).filterMap refill? = rs := by
  rw [List.filterMap_map]
  exact List.filterMap_some

/-- Of refills that are numbered from `k` on, the `i`-th has number `k + i`. -/
theorem getElem?_numbered_refills (k i : Nat) (rs : List Refill) :
    (numbered (UInt32.ofNat (k % 2 ^ 24)) (rs.map refill))[i]? =
      rs[i]?.map (Notification.refill (UInt32.ofNat ((k + i) % 2 ^ 24))) := by
  induction rs generalizing k i with
  | nil => rfl
  | cons r rs ih =>
    -- the rest is numbered from `k + 1` on
    have hnext : numberAfter (UInt32.ofNat (k % 2 ^ 24)) (.refill r) =
        UInt32.ofNat ((k + 1) % 2 ^ 24) := Notification.nextSequence_ofNat k
    rw [List.map_cons, numbered, hnext]
    cases i with
    | zero =>
      show some (Notification.ofRefill _ r) = some (.refill _ r)
      rw [Notification.ofRefill, Notification.ofNat_and_sequenceMask, Nat.add_zero]
    | succ i =>
      have hsum : k + 1 + i = k + (i + 1) := by omega
      rw [List.getElem?_cons_succ, List.getElem?_cons_succ, ih, hsum]

/-- The first messages of a numbered list are the first messages, numbered. -/
theorem eq_wire_of_append {sequence : UInt32} {read rest : List ByteArray} {ms : List Outgoing}
    (h : read ++ rest = wire sequence ms) : ∃ first, read = wire sequence first ∧ first <+: ms := by
  induction read generalizing sequence ms with
  | nil => exact ⟨[], rfl, List.nil_prefix⟩
  | cons message read ih =>
    cases ms with
    | nil => exact absurd h (by simp [wire, numbered])
    | cons m ms =>
      rw [wire_cons, List.cons_append] at h
      obtain ⟨hmessage, hrest⟩ := List.cons.inj h
      obtain ⟨first, hread, hprefix⟩ := ih hrest
      refine ⟨m :: first, ?_, (List.prefix_cons_inj m).mpr hprefix⟩
      rw [wire_cons, hmessage, hread]

end Outgoing

/-! ## Hearing -/

namespace Host

/-- The refill that the host accepts: a refill request with the number that it expects. -/
def accepts? (h : Host) (message : ByteArray) : Option Refill :=
  match Notification.decode message with
  | some (.refill sequence r) => if sequence = h.sequence then some r else none
  | _ => none

/-- The host answers a message. The refills that it has accepted are kept, oldest first. -/
def hear (s : Host × List Refill) (message : ByteArray) : Host × List Refill :=
  ((s.1.answer message).2, s.2 ++ (s.1.accepts? message).toList)

variable {h : Host}

theorem answer_status (h : Host) (word : UInt32) :
    h.answer (Notification.status word).encode = (none, h) := by
  rw [answer, Notification.decode_encode]
  rfl

/-- A refill request with the number that is expected is answered with the part of the stream that
it asks for, if there is one. -/
theorem answer_refill (hmasked : h.sequence &&& Notification.sequenceMask = h.sequence)
    (r : Refill) :
    h.answer (Notification.ofRefill h.sequence r).encode =
      if (h.part r).size = 0 then
        (none, { h with sequence := Notification.nextSequence h.sequence })
      else
        (some ⟨.window, r.target, h.part r⟩, { h with
          sequence := Notification.nextSequence h.sequence, served := h.served + 1 }) := by
  have hdecode : Notification.decode (Notification.ofRefill h.sequence r).encode =
      some (.refill h.sequence r) := by
    rw [Notification.decode_encode, Notification.masked_ofRefill, Notification.ofRefill, hmasked]
  rw [answer, hdecode]
  dsimp only
  rw [if_neg (fun hne => hne rfl)]

theorem hear_status (accepted : List Refill) (word : UInt32) :
    hear (h, accepted) (Notification.status word).encode = (h, accepted) := by
  simp [hear, answer_status, accepts?, Notification.decode_encode, Notification.masked]

/-- A refill request with the number that is expected is accepted, whether or not the stream has
anything to answer it with. -/
theorem hear_refill (hmasked : h.sequence &&& Notification.sequenceMask = h.sequence)
    (accepted : List Refill) (r : Refill) :
    ∃ served, hear (h, accepted) (Notification.ofRefill h.sequence r).encode =
      ({ h with sequence := Notification.nextSequence h.sequence, served }, accepted ++ [r]) := by
  have hdecode : Notification.decode (Notification.ofRefill h.sequence r).encode =
      some (.refill h.sequence r) := by
    rw [Notification.decode_encode, Notification.masked_ofRefill, Notification.ofRefill, hmasked]
  have haccepts : h.accepts? (Notification.ofRefill h.sequence r).encode = some r := by
    rw [accepts?, hdecode]
    exact if_pos rfl
  rw [hear, haccepts, answer_refill hmasked]
  by_cases hempty : (h.part r).size = 0
  · rw [if_pos hempty]
    exact ⟨_, rfl⟩
  · rw [if_neg hempty]
    exact ⟨_, rfl⟩

/-- A host that expects the number that the messages begin with accepts every refill among them
and ignores none. -/
theorem foldl_hear_wire (hmasked : h.sequence &&& Notification.sequenceMask = h.sequence)
    (accepted : List Refill) (ms : List Outgoing) :
    ∃ served, (Outgoing.wire h.sequence ms).foldl hear (h, accepted) =
      ({ h with sequence := Outgoing.numberAfterAll h.sequence ms, served },
        accepted ++ ms.filterMap Outgoing.refill?) := by
  induction ms generalizing h accepted with
  | nil => exact ⟨_, by rw [List.filterMap_nil, List.append_nil]; rfl⟩
  | cons m ms ih =>
    cases m with
    | refill r =>
      -- the host's number moves on with that of the messages
      obtain ⟨served, hheard⟩ := hear_refill hmasked accepted r
      obtain ⟨served, hrest⟩ := ih (h := { h with
        sequence := Notification.nextSequence h.sequence, served })
        (Notification.nextSequence_and_sequenceMask h.sequence) (accepted ++ [r])
      refine ⟨served, ?_⟩
      show List.foldl hear (hear (h, accepted) (Notification.ofRefill h.sequence r).encode) _ = _
      rw [hheard]
      rw [List.append_assoc] at hrest
      exact hrest
    | status word =>
      obtain ⟨served, hrest⟩ := ih hmasked accepted
      refine ⟨served, ?_⟩
      show List.foldl hear (hear (h, accepted) (Notification.status word).encode) _ = _
      rw [hear_status]
      exact hrest

end Host
end ChipReplay
