import ChipReplay.Bench
import ChipReplay.Proofs.Upload.Sequence
/-!
# Uploads of the bench

The bench sends an upload whole and then polls until it is over. On a device that is ready for it,
an upload that fits is over after as many polls as it has packets, and what every one of these polls
keeps, the upload keeps (`Bench.upload_of_ready`).
-/

namespace ChipReplay

namespace Device

variable {old d : Device} {u : Upload} {done rest : ByteArray} {waiting coming : List Packet}

/-- The device once the host has opened an upload and sent all of it. -/
def sentWhole (d : Device) (u : Upload) : Device :=
  let d := (d.request u.request).2
  { d with endpoint := d.endpoint.pushBulk u.data }

theorem run_pushes (d : Device) (pieces : List ByteArray) :
    d.run ((pieces.map Packet.data).map .push) =
      { d with endpoint := pieces.foldl (fun e bytes => e.push (.data bytes)) d.endpoint } := by
  induction pieces generalizing d with
  | nil => rfl
  | cons bytes pieces ih =>
    rw [List.map_cons, List.map_cons, run, List.foldl_cons, ← run, ih]
    rfl

/-- Packets that are sent wait behind the others. -/
theorem Receiving.pushes (h : Receiving old u done rest waiting coming d) :
    Receiving old u done rest (waiting ++ coming) [] (d.run (coming.map .push)) := by
  induction coming generalizing d waiting with
  | nil =>
    rw [List.append_nil]
    exact h
  | cons p coming ih =>
    rw [List.append_cons]
    exact ih h.push

/-- An upload that fits is accepted by a device that is ready, and then all of it waits. -/
theorem receiving_sentWhole (hready : d.Ready) (hfits : u.Fits) :
    (d.request u.request).1 = .ok .acknowledge ∧
      Receiving d u .empty u.data (u.packets.map .data) [] (d.sentWhole u) := by
  obtain ⟨haccepted, hopened⟩ := receiving_request hready hfits
  have hsent := hopened.pushes
  rw [List.nil_append, run_pushes] at hsent
  exact ⟨haccepted, hsent⟩

/-- The session and the endpoint are in step while an upload comes in. -/
theorem Receiving.inStep (h : Receiving old u done rest waiting coming d) : d.InStep :=
  fun _ => ⟨_, h.holds⟩

/-- An upload that is over has come in. -/
theorem Receiving.of_inactive (h : Receiving old u done rest waiting coming d)
    (hover : d.session.active = false) : Receiving old u u.data .empty waiting coming d := by
  have hrest : rest = .empty := by
    have hmissing := h.active
    rw [hover] at hmissing
    exact ByteArray.size_eq_zero_iff.mp (Nat.eq_zero_of_not_pos (of_decide_eq_false hmissing.symm))
  have hdata := h.data
  subst hrest
  rw [ByteArray.append_empty] at hdata
  rw [hdata]
  exact h

end Device

namespace Bench

open Device

variable {old d : Device} {u : Upload} {done rest : ByteArray} {waiting : List Packet}

/-- The device in each of the polls that `finishUpload` makes. -/
def finishPolls : Nat → Device → List Device
  | 0, _ => []
  | limit + 1, d => if d.session.active then d :: finishPolls limit d.poll else []

/-- The device in each poll of an upload. -/
def uploadPolls (b : Bench) (u : Upload) : List Device :=
  finishPolls uploadPollLimit (b.device.sentWhole u)

/-- Polls until an upload is over are as many as packets wait. What each of them keeps holds in the
end. -/
theorem finishUpload_of_receiving {P : List Packet → Device → Prop} {limit : Nat}
    (h : Receiving old u done rest waiting [] d)
    (hfits : u.offset.toNat + u.data.size ≤ u.destination.capacity) (hP : P waiting d)
    (hpoll : ∀ d' ∈ finishPolls limit d, ∀ p ps done rest,
      Receiving old u done rest (p :: ps) [] d' → P (p :: ps) d' → P ps d'.poll)
    (hlimit : waiting.length < limit) :
    ∃ ps d', finishUpload limit d = (true, d') ∧ d'.session.active = false ∧
      Receiving old u u.data .empty ps [] d' ∧ P ps d' := by
  induction limit generalizing d done rest waiting with
  | zero => omega
  | succ limit ih =>
    cases hactive : d.session.active with
    | false =>
      refine ⟨waiting, d, ?_, hactive, h.of_inactive hactive, hP⟩
      rw [finishUpload, if_neg (by simp [hactive])]
    | true =>
      rw [finishPolls, if_pos hactive] at hpoll
      rw [finishUpload, if_pos hactive]
      obtain ⟨hfirst, hlater⟩ := List.forall_mem_cons.mp hpoll
      obtain ⟨done', rest', hreceiving, -⟩ := h.poll hfits
      cases waiting with
      | nil =>
        -- an upload that is active has a packet that waits
        rcases h.carry with hcarry | ⟨-, hrest⟩
        · exact absurd rfl hcarry.ne_nil
        · rw [h.active, hrest] at hactive
          exact absurd hactive Bool.false_ne_true
      | cons p ps =>
        rw [List.length_cons] at hlimit
        rw [List.tail_cons] at hreceiving
        exact ih hreceiving (hfirst _ _ _ _ h hP) hlater (by omega)

/-- What all polls of an upload keep, and what follows from that, holds in each of them. -/
theorem forall_finishPolls {P Q : Device → Prop} {limit : Nat}
    (h : Receiving old u done rest waiting [] d)
    (hfits : u.offset.toNat + u.data.size ≤ u.destination.capacity) (hP : P d)
    (hpoll : ∀ d' done rest waiting, Receiving old u done rest waiting [] d' → P d' →
      Q d' ∧ P d'.poll) :
    ∀ d' ∈ finishPolls limit d, Q d' := by
  induction limit generalizing d done rest waiting with
  | zero => exact fun d' hd' => absurd hd' List.not_mem_nil
  | succ limit ih =>
    rw [finishPolls]
    split
    · obtain ⟨done', rest', hreceiving, -⟩ := h.poll hfits
      obtain ⟨hnow, hnext⟩ := hpoll d done rest waiting h hP
      exact List.forall_mem_cons.mpr ⟨hnow, ih hreceiving hnext⟩
    · exact fun d' hd' => absurd hd' List.not_mem_nil

theorem length_packets (data : ByteArray) :
    (Endpoint.packets data).length = (data.size + (packetSize - 1)) / packetSize := by
  rw [Endpoint.packets, List.length_map, List.length_range]

theorem forall_uploadPolls {b : Bench} {P Q : Device → Prop} (hready : b.device.Ready)
    (hfits : u.Fits) (hP : P (b.device.sentWhole u))
    (hpoll : ∀ d done rest waiting, Receiving b.device u done rest waiting [] d → P d →
      Q d ∧ P d.poll) :
    ∀ d ∈ b.uploadPolls u, Q d :=
  forall_finishPolls (receiving_sentWhole hready hfits).2 hfits.fits hP hpoll

theorem request_of_accepted {b : Bench} {r : Request} {response : Response}
    (h : (b.device.request r).1 = .ok response) :
    b.request r = (none, { b with device := (b.device.request r).2 }) := by
  unfold request
  rcases hresult : b.device.request r with ⟨e | _, d⟩
  · rw [hresult] at h
    cases h
  · rfl

/-- The bench makes any upload that fits on a device that is ready, which is ready again afterwards.
What every poll on the way keeps holds in the end. -/
theorem upload_of_ready {b : Bench} {P : List Packet → Device → Prop} (hready : b.device.Ready)
    (hfits : u.Fits) (hP : P (u.packets.map .data) (b.device.sentWhole u))
    (hpoll : ∀ d ∈ b.uploadPolls u, ∀ p ps done rest,
      Receiving b.device u done rest (p :: ps) [] d → P (p :: ps) d → P ps d.poll) :
    ∃ ps d, b.upload u = (none, { b with device := d }) ∧ d.Ready ∧ d.session.active = false ∧
      b.device.Stored d u.destination u.offset.toNat u.data ∧ P ps d := by
  obtain ⟨haccepted, hsent⟩ := receiving_sentWhole hready hfits
  have hlimit : (u.packets.map Packet.data).length < uploadPollLimit := by
    have hroom := hfits.fits
    have hcapacity : u.destination.capacity ≤ 0x800000 := u.destination.capacity_le
    rw [List.length_map, Upload.packets, length_packets]
    unfold packetSize uploadPollLimit
    omega
  obtain ⟨ps, d, hfinish, hover, hreceived, hend⟩ :=
    finishUpload_of_receiving hsent hfits.fits hP hpoll hlimit
  obtain ⟨hdrained, hstored⟩ := hreceived.complete rfl
  refine ⟨ps, d, ?_, ⟨hreceived.inStep, hdrained⟩, hover, hstored, hend⟩
  unfold upload
  rw [request_of_accepted haccepted]
  show send { b with device := (b.device.request u.request).2 } u = _
  unfold send
  have hdevice : (({ b with device := (b.device.request u.request).2 } : Bench).onDevice
      fun d => { d with endpoint := d.endpoint.pushBulk u.data }).device =
        b.device.sentWhole u := rfl
  dsimp only
  rw [hdevice, hfinish]
  rfl

end Bench
end ChipReplay
