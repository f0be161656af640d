import ChipReplay.Proofs.Upload.Delivery
/-!
# One upload after the other

The host cuts an upload into full packets (`Upload.packets`), which carry its data
(`carry_packets`). `Takes` is a device taking a whole upload that comes in this way, and `TakesAll`
several of them in order. Uploads that share no byte do not disturb each other, so in the end each
is where it was sent (`memory_takesAll`); and a drained device can take any uploads that fit
(`exists_takesAll`).
-/

namespace ChipReplay

/-! ## Full packets -/

namespace Endpoint

theorem packets_of_le {data : ByteArray} (hpos : 0 < data.size) (hle : data.size ≤ packetSize) :
    packets data = [data] := by
  have hcount : (data.size + (packetSize - 1)) / packetSize = 1 := by
    unfold packetSize at hle ⊢
    omega
  have hall : data.extract 0 packetSize = data := by
    apply Bytes.ext_peek
    · rw [ByteArray.size_extract]
      omega
    · intro i hi
      rw [ByteArray.size_extract] at hi
      rw [Bytes.peek_extract, if_pos (by omega), Nat.zero_add]
  rw [packets, hcount, List.range_one, List.map_singleton, Nat.mul_zero, Nat.mul_one, hall]

/-- The first packet is full, and the others are those of what is left. -/
theorem packets_of_lt {data : ByteArray} (hlt : packetSize < data.size) :
    packets data = data.extract 0 packetSize :: packets (data.extract packetSize data.size) := by
  have hrest : (data.extract packetSize data.size).size = data.size - packetSize := by
    rw [ByteArray.size_extract]
    omega
  have hcount : (data.size + (packetSize - 1)) / packetSize =
      (data.size - packetSize + (packetSize - 1)) / packetSize + 1 := by
    unfold packetSize at hlt ⊢
    omega
  rw [packets, packets, hrest, hcount, List.range_succ_eq_map, List.map_cons, List.map_map,
    Nat.mul_zero, Nat.zero_add, Nat.mul_one]
  refine congrArg _ (List.map_congr_left fun i _ => ?_)
  have hsucc : packetSize * (i + 1) = packetSize * i + packetSize := Nat.mul_succ _ _
  have hsucc' : packetSize * (i + 1 + 1) = packetSize * (i + 1) + packetSize := Nat.mul_succ _ _
  apply Bytes.ext_peek
  · show (data.extract (packetSize * (i + 1)) (packetSize * (i + 1 + 1))).size = _
    rw [ByteArray.size_extract, ByteArray.size_extract, ByteArray.size_extract]
    omega
  · intro j _
    show Bytes.peek (data.extract (packetSize * (i + 1)) (packetSize * (i + 1 + 1))) j = _
    rw [Bytes.peek_extract, Bytes.peek_extract, Bytes.peek_extract, ByteArray.size_extract]
    by_cases hj : j < min (packetSize * (i + 1 + 1)) data.size - packetSize * (i + 1)
    · have hindex : packetSize * (i + 1) + j = packetSize + (packetSize * i + j) := by omega
      rw [if_pos hj, if_pos (by omega), if_pos (by omega), hindex]
    · rw [if_neg hj, if_neg (by omega)]

end Endpoint

/-- Full packets carry the data: each but the last has whole words. -/
theorem carry_packets (t : Destination) {data : ByteArray} (hpos : 0 < data.size) :
    Carry t ((Endpoint.packets data).map .data) data := by
  induction hsize : data.size using Nat.strongRecOn generalizing data with
  | ind n ih =>
    by_cases hle : data.size ≤ packetSize
    · rw [Endpoint.packets_of_le hpos hle]
      exact .last hpos hle
    · have hrest : (data.extract packetSize data.size).size = data.size - packetSize := by
        rw [ByteArray.size_extract]
        omega
      have hfirst : (data.extract 0 packetSize).size = packetSize := by
        rw [ByteArray.size_extract]
        omega
      have hcut : data = data.extract 0 packetSize ++ data.extract packetSize data.size := by
        rw [ByteArray.extract_append_extract, Nat.zero_min, Nat.max_eq_right (by omega),
          ByteArray.extract_zero_size]
      have hpacket : 0 < packetSize := by decide
      rw [Endpoint.packets_of_lt (by omega)]
      have hcarry :=
        ih _ (by omega) (show 0 < (data.extract packetSize data.size).size by omega) rfl
      have hpiece : Carry t
          (.data (data.extract 0 packetSize) :: (Endpoint.packets _).map .data) (_ ++ _) :=
        .piece (by omega) (by omega) (fun _ => by rw [hfirst]; decide) hcarry
      rwa [← hcut] at hpiece

/-! ## Requests -/

/-- The device reads the request for an upload as the host wrote it. -/
theorem Request.decode_openUpload (t : Destination) (start : UInt32) {length : UInt32}
    (hlength : length ≠ 0) : decode (encode (.openUpload t start length)).1
      (encode (.openUpload t start length)).2 = .ok (some (.openUpload t start length)) := by
  have hstart : Bytes.word32At (Bytes.le32 start ++ Bytes.le32 length) 0 = .ok start :=
    congrArg Except.ok (Bytes.word32_le32 start)
  have hlengthAt : Bytes.word32At (Bytes.le32 start ++ Bytes.le32 length) 4 = .ok length :=
    congrArg Except.ok (Bytes.word32_le32 length)
  have hpayload : decodeOpenUpload t.selector (Bytes.le32 start ++ Bytes.le32 length) =
      .ok (.openUpload t start length) := by
    unfold decodeOpenUpload
    rw [Destination.ofSelector_selector, hstart, hlengthAt]
    exact if_neg hlength
  have hdecode : decode (encode (.openUpload t start length)).1
      (encode (.openUpload t start length)).2 =
      (decodeOpenUpload t.selector (Bytes.le32 start ++ Bytes.le32 length)).map some := by
    have htype : ((64 ||| 1 : UInt8) &&& 96 = 64) ∧ ((64 ||| 1 : UInt8) &&& 128 = 0) ∧
        ((64 ||| 1 : UInt8) &&& 31 = 1) := by decide
    simp [decode, encode, Setup.vendor, Setup.isVendor, Setup.isInterfaceScoped, Setup.directionIn,
      openUploadCode, readStatusCode, startPlaybackCode, htype]
  rw [hdecode, hpayload]
  rfl

namespace Upload

/-- The upload has bytes, and there is room for them. -/
structure Fits (u : Upload) : Prop where
  pos : 0 < u.data.size
  fits : u.offset.toNat + u.data.size ≤ u.destination.capacity

/-- The device reads the request for the upload as the host wrote it. -/
theorem Fits.decode_request {u : Upload} (h : u.Fits) :
    Request.decode u.request.encode.1 u.request.encode.2 = .ok (some u.request) := by
  have hcapacity := u.destination.capacity_le
  have hroom := h.fits
  have hpos := h.pos
  refine Request.decode_openUpload u.destination u.offset fun hzero => ?_
  have hsize : (UInt32.ofNat u.data.size).toNat = u.data.size :=
    UInt32.toNat_ofNat_of_lt' (show u.data.size < 2 ^ 32 by unfold sampleMemorySize at *; omega)
  rw [hzero] at hsize
  exact absurd hsize.symm (Nat.ne_of_gt hpos)

/-- The upload writes byte `i` of the memory that `t` belongs to. -/
def Fills (u : Upload) (t : Destination) (i : Nat) : Prop :=
  t.isSamples = u.destination.isSamples ∧ u.offset.toNat ≤ i ∧ i < u.offset.toNat + u.data.size

/-- The uploads share no byte. -/
def Apart (u v : Upload) : Prop := ∀ t i, u.Fills t i → ¬ v.Fills t i

end Upload

namespace Device

variable {d d' : Device} {u : Upload} {us : List Upload}

/-! ## Taking uploads -/

/-- The device takes an upload and becomes `d'`. The host opens the upload and sends it in full
packets, and the session is over when it has come in; polls and anything that does not disturb the
upload may happen at any time. -/
def Takes (d : Device) (u : Upload) (d' : Device) : Prop :=
  ∃ setup payload events, Request.decode setup payload = .ok (some u.request) ∧
    (∀ e ∈ events, e.KeepsUpload) ∧ pushedIn events = u.packets.map .data ∧
    d' = (d.react (.control setup payload)).run events ∧ d'.session.active = false

/-- The device takes uploads one after the other and becomes the last device. -/
inductive TakesAll : Device → List Upload → Device → Prop
  | none (d : Device) : TakesAll d [] d
  | more {d d' d'' : Device} {u : Upload} {us : List Upload} (hfirst : Takes d u d')
    (hrest : TakesAll d' us d'') : TakesAll d (u :: us) d''

/-- The host can make uploads, and none is lost: session and endpoint are in step, and no packet
waits. -/
structure Ready (d : Device) : Prop where
  inStep : d.InStep
  drained : d.endpoint.Drained

/-- An upload that was taken is stored, and the device is ready for another. -/
theorem Takes.stored (h : d.Takes u d') (hready : d.Ready) (hfits : u.Fits) :
    d'.Ready ∧ d.Stored d' u.destination u.offset.toNat u.data := by
  obtain ⟨setup, payload, events, hrequest, hkeep, hpushed, rfl, hover⟩ := h
  have hcarry : Carry u.destination (u.packets.map .data) u.data :=
    carry_packets u.destination hfits.pos
  obtain ⟨-, hopened⟩ :=
    receiving_control hready.inStep hready.drained hrequest hfits.fits hcarry
  rw [← hpushed, ← List.append_nil (pushedIn events)] at hopened
  obtain ⟨done, rest, hreceiving, -⟩ := hopened.run hfits.fits hkeep
  have hdone : done.size = u.data.size := by
    have hsize := hreceiving.size_data
    have hall := hreceiving.active_eq
    rw [hover] at hall
    have hle := of_decide_eq_false hall.symm
    omega
  obtain ⟨hdrained, hstored⟩ := hreceiving.complete hdone
  have hstep : ((d.react (.control setup payload)).run events).InStep :=
    run_keeps (P := InStep) (fun _ e h => h.react e) (hready.inStep.react _) events
  exact ⟨⟨hstep, hdrained⟩, hstored⟩

/-- The events in which the host sends packets and then waits until they have been taken. -/
def sending (ps : List Packet) : List Event :=
  ps.map .push ++ List.replicate ps.length .poll

theorem pushedIn_sending (ps : List Packet) : pushedIn (sending ps) = ps := by
  have hpushed : pushedIn (ps.map .push) = ps := by
    rw [pushedIn, List.filterMap_map]
    exact List.filterMap_some
  have hpolls : pushedIn (List.replicate ps.length .poll) = [] :=
    List.filterMap_eq_nil_iff.mpr fun e he => by rw [List.eq_of_mem_replicate he]; rfl
  rw [sending, pushedIn, List.filterMap_append, ← pushedIn, ← pushedIn, hpushed, hpolls,
    List.append_nil]

theorem waitingAfter_sending (ps : List Packet) : waitingAfter [] (sending ps) = [] := by
  have hpushed (waiting : List Packet) : waitingAfter waiting (ps.map .push) = waiting ++ ps := by
    induction ps generalizing waiting with
    | nil => exact (List.append_nil _).symm
    | cons p ps ih =>
      rw [List.map_cons, waitingAfter, List.foldl_cons]
      exact (ih _).trans (List.append_assoc _ _ _)
  have hpolls : pushedIn (List.replicate ps.length .poll) = [] :=
    List.filterMap_eq_nil_iff.mpr fun e he => by rw [List.eq_of_mem_replicate he]; rfl
  have hcount : (List.replicate ps.length Event.poll).countP Event.isPoll = ps.length := by
    rw [List.countP_replicate]
    rfl
  rw [sending, waitingAfter, List.foldl_append, ← waitingAfter, ← waitingAfter, hpushed,
    waitingAfter_of_no_push hpolls, hcount]
  exact List.drop_length

/-- A device that is ready accepts an upload that fits, and then everything is missing. -/
theorem receiving_request (hready : d.Ready) (hfits : u.Fits) :
    (d.request u.request).1 = .ok .acknowledge ∧
      Receiving d u .empty u.data [] (u.packets.map .data) (d.request u.request).2 :=
  receiving_control hready.inStep hready.drained hfits.decode_request hfits.fits
    (carry_packets _ hfits.pos)

/-- A device that is ready can take any upload that fits: as many polls as there are packets are
enough. -/
theorem exists_takes (hready : d.Ready) (hfits : u.Fits) : ∃ d', d.Takes u d' := by
  have hroom := hfits.fits
  obtain ⟨-, hopened⟩ := receiving_request hready hfits
  have hkeep : ∀ e ∈ sending (u.packets.map .data), e.KeepsUpload := by
    intro e he
    rcases List.mem_append.mp he with he | he
    · obtain ⟨p, -, rfl⟩ := List.mem_map.mp he
      exact True.intro
    · rw [List.eq_of_mem_replicate he]
      exact True.intro
  have hsent := pushedIn_sending (u.packets.map .data)
  rw [← hsent, ← List.append_nil (pushedIn _)] at hopened
  obtain ⟨done, rest, hreceiving, -⟩ := hopened.run hroom hkeep
  rw [waitingAfter_sending] at hreceiving
  refine ⟨_, _, _, _, hfits.decode_request, hkeep, hsent, rfl, ?_⟩
  -- no packet waits any more, so nothing is missing
  refine hreceiving.active.trans ?_
  rcases hreceiving.carry with hmore | ⟨-, hrest⟩
  · exact absurd rfl hmore.ne_nil
  · exact decide_eq_false (by omega)

/-- Uploads that share no byte are all stored, and nothing else is touched. -/
theorem TakesAll.memory (h : TakesAll d us d') (hready : d.Ready) (hfits : ∀ u ∈ us, u.Fits)
    (hapart : us.Pairwise Upload.Apart) : d'.Ready ∧
      (∀ t i, (∀ u ∈ us, ¬ u.Fills t i) → d'.memory t i = d.memory t i) ∧
      ∀ u ∈ us, ∀ t i, u.Fills t i →
        d'.memory t i = Bytes.peek (u.destination.stored u.data) (i - u.offset.toNat) := by
  induction h with
  | none d => exact ⟨hready, fun _ _ _ => rfl, fun u hu => absurd hu List.not_mem_nil⟩
  | @more d d₁ d' u us hfirst hrest ih =>
    obtain ⟨hu, hus⟩ := List.forall_mem_cons.mp hfits
    obtain ⟨hhead, htail⟩ := List.pairwise_cons.mp hapart
    obtain ⟨hready₁, hstored⟩ := hfirst.stored hready hu
    obtain ⟨hready', hkept, hfilled⟩ := ih hready₁ hus htail
    refine ⟨hready', fun t i hnone => ?_, List.forall_mem_cons.mpr ⟨fun t i hin => ?_, hfilled⟩⟩
    · obtain ⟨hnot, hnone⟩ := List.forall_mem_cons.mp hnone
      rw [hkept t i hnone, hstored t i]
      exact if_neg hnot
    · rw [hkept t i fun v hv => hhead v hv t i hin, hstored t i]
      exact if_pos hin

theorem exists_takesAll (hready : d.Ready) (hfits : ∀ u ∈ us, u.Fits) :
    ∃ d', TakesAll d us d' := by
  induction us generalizing d with
  | nil => exact ⟨d, .none d⟩
  | cons u us ih =>
    obtain ⟨hu, hus⟩ := List.forall_mem_cons.mp hfits
    obtain ⟨d₁, hfirst⟩ := exists_takes hready hu
    obtain ⟨d', hrest⟩ := ih (hfirst.stored hready hu).1 hus
    exact ⟨d', .more hfirst hrest⟩

end Device
end ChipReplay
