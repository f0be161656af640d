import ChipReplay.Host
import ChipReplay.Proofs.Bytes.Words
import ChipReplay.Proofs.Upload.InStep
/-!
# Storing what arrives

Uploads go to one of two memories, the window and sample memory. `Device.memory` is the view of
both: a poll that takes a packet leaves the packet's bytes where they belong, in the byte order of
their destination, and every other byte of both memories as it was (`Device.memory_poll`).
-/

namespace ChipReplay

namespace Destination

/-- Bytes that the destination holds. -/
def capacity (t : Destination) : Nat := if t.isSamples then sampleMemorySize else windowSize

theorem capacity_le (t : Destination) : t.capacity ≤ sampleMemorySize := by
  unfold capacity
  split <;> decide

/-- What is stored of bytes that arrive: sample memory gets every whole word reversed. -/
def stored (t : Destination) (bytes : ByteArray) : ByteArray :=
  if t.isSamples then Bytes.swapWords bytes else bytes

@[simp] theorem size_stored (t : Destination) (bytes : ByteArray) :
    (t.stored bytes).size = bytes.size := by
  unfold stored
  split
  · exact Bytes.size_swapWords bytes
  · rfl

/-- Bytes are stored piece by piece, if the first piece has whole words where that matters. -/
theorem stored_append {t : Destination} {a : ByteArray} (h : t.isSamples = true → 4 ∣ a.size)
    (b : ByteArray) : t.stored (a ++ b) = t.stored a ++ t.stored b := by
  unfold stored
  split
  · next hsamples => exact Bytes.swapWords_append (h hsamples) b
  · rfl

end Destination

/-! ## Sample memory -/

namespace SampleMemory

theorem peek_extend (data : ByteArray) (size i : Nat) :
    Bytes.peek (extend data size) i = Bytes.peek data i := by
  unfold extend
  split
  · rw [Bytes.peek_append]
    split
    · rfl
    · next hi =>
      rw [Bytes.zeros, Bytes.peek_ofFn, ite_self, Bytes.peek_of_le (by omega)]
  · rfl

/-- A write changes the bytes it covers and no others. -/
theorem byte_write (m : SampleMemory) (offset : Nat) (bytes : ByteArray) (i : Nat) :
    (m.write offset bytes).byte i =
      if offset ≤ i ∧ i < offset + bytes.size then Bytes.peek bytes (i - offset) else m.byte i := by
  have hfits : offset + bytes.size ≤ (extend m.data (offset + bytes.size)).size := by
    rw [size_extend]
    omega
  have hwritten := Bytes.peek_overwrite hfits i
  rw [peek_extend] at hwritten
  exact hwritten

end SampleMemory

namespace Device

/-! ## Both memories -/

/-- The byte at offset `i` of the memory that `t` belongs to. -/
def memory (d : Device) (t : Destination) (i : Nat) : UInt8 :=
  if t.isSamples then d.samples.byte i else d.window.byte i

theorem memory_of_samples {t : Destination} (h : t.isSamples = true) (d : Device) (i : Nat) :
    d.memory t i = d.samples.byte i := if_pos h

theorem memory_window (d : Device) (i : Nat) : d.memory .window i = d.window.byte i := rfl

theorem memory_congr {d d' : Device} (hwindow : d'.window = d.window)
    (hsamples : d'.samples.data = d.samples.data) : d'.memory = d.memory := by
  funext t i
  rw [memory, memory, hwindow, SampleMemory.byte, SampleMemory.byte, hsamples]

/-- `d'` has the memories of `d` but for `bytes`, which were stored for `t` from `offset` on. -/
def Stored (d d' : Device) (t : Destination) (offset : Nat) (bytes : ByteArray) : Prop :=
  ∀ t' i, d'.memory t' i =
    if t'.isSamples = t.isSamples ∧ offset ≤ i ∧ i < offset + bytes.size then
      Bytes.peek (t.stored bytes) (i - offset)
    else d.memory t' i

theorem Stored.empty (d : Device) (t : Destination) (offset : Nat) :
    d.Stored d t offset .empty := by
  intro t' i
  rw [if_neg]
  rintro ⟨-, hle, hlt⟩
  exact absurd hlt (Nat.not_lt.mpr hle)

/-- Bytes that are stored behind others are stored with them. -/
theorem Stored.append {d₁ d₂ d₃ : Device} {t : Destination} {offset : Nat} {a b : ByteArray}
    (ha : d₁.Stored d₂ t offset a) (hb : d₂.Stored d₃ t (offset + a.size) b)
    (hwords : t.isSamples = true → 4 ∣ a.size) : d₁.Stored d₃ t offset (a ++ b) := by
  intro t' i
  have hsize : (a ++ b).size = a.size + b.size := ByteArray.size_append
  rw [hb t' i, ha t' i, hsize, Destination.stored_append hwords, Bytes.peek_append,
    Destination.size_stored]
  by_cases hsame : t'.isSamples = t.isSamples
  · -- in front of both, in the first, in the second, and behind both
    by_cases hbefore : i < offset
    · rw [if_neg (by omega), if_neg (by omega), if_neg (by omega)]
    · by_cases hfirst : i < offset + a.size
      · rw [if_neg (by omega), if_pos ⟨hsame, by omega, hfirst⟩, if_pos ⟨hsame, by omega, by omega⟩,
          if_pos (by omega)]
      · by_cases hsecond : i < offset + (a.size + b.size)
        · rw [if_pos ⟨hsame, by omega, by omega⟩, if_pos ⟨hsame, by omega, hsecond⟩,
            if_neg (by omega), Nat.sub_add_eq]
        · rw [if_neg (by omega), if_neg (by omega), if_neg (by omega)]
  · rw [if_neg (fun h => hsame h.1), if_neg (fun h => hsame h.1), if_neg (fun h => hsame h.1)]

theorem storeWindow_of_fits (d : Device) {offset : Nat} {bytes : ByteArray}
    (h : offset + bytes.size ≤ windowSize) :
    (d.storeWindow offset bytes).window = d.window.put offset bytes h ∧
      (d.storeWindow offset bytes).samples = d.samples := by
  unfold storeWindow
  dsimp only
  rw [dif_pos h]
  split
  · exact ⟨rfl, rfl⟩
  · exact ⟨rfl, rfl⟩

theorem storeSamples_of_fits (d : Device) {offset : Nat} {bytes : ByteArray}
    (h : offset + bytes.size ≤ sampleMemorySize) :
    (d.storeSamples offset bytes).window = d.window ∧
      (d.storeSamples offset bytes).samples =
        (d.samples.setPcmEnabled false).write offset (Bytes.swapWords bytes) := by
  unfold storeSamples
  dsimp only
  rw [if_pos h]
  exact ⟨rfl, rfl⟩

/-- A packet that fits is stored. -/
theorem stored_store (d : Device) {c : Chunk}
    (hfits : c.offset + c.bytes.size ≤ c.destination.capacity) :
    d.Stored (d.store c) c.destination c.offset c.bytes := by
  intro t i
  unfold Destination.capacity at hfits
  unfold store memory Destination.stored
  dsimp only
  cases hsamples : c.destination.isSamples with
  | true =>
    rw [hsamples, if_pos rfl] at hfits
    obtain ⟨hwindow, hsamples⟩ := storeSamples_of_fits { d with stats := { d.stats with
      packets := d.stats.packets + 1
      bytesReceived := d.stats.bytesReceived + c.bytes.size } } hfits
    rw [if_pos rfl, if_pos rfl, hwindow, hsamples, SampleMemory.byte_write, Bytes.size_swapWords]
    cases t.isSamples with
    | true => simp [SampleMemory.byte, SampleMemory.setPcmEnabled]
    | false => simp
  | false =>
    rw [hsamples, if_neg Bool.false_ne_true] at hfits
    obtain ⟨hwindow, hsamples⟩ := storeWindow_of_fits { d with stats := { d.stats with
      packets := d.stats.packets + 1
      bytesReceived := d.stats.bytesReceived + c.bytes.size } } hfits
    rw [if_neg Bool.false_ne_true, if_neg Bool.false_ne_true, hwindow, hsamples, Window.byte_put]
    cases t.isSamples with
    | true => simp
    | false => simp

/-! ## A poll -/

/-- Only the packet that a poll takes changes the memories. -/
theorem memory_poll (d : Device) : d.poll.memory = d.ingested.memory := by
  have hstep := d.ingested.stepIfDue_stores
  have hsend := d.ingested.stepIfDue.sendMessages_stores
  have hstart := d.ingested.stepIfDue.sendMessages.startIfAsked_stores
  apply memory_congr
  · rw [poll_eq, hstart.1, hsend.1, hstep.1]
  · rw [poll_eq, hstart.2, hsend.2, hstep.2]

theorem memory_ingest_of_none {d : Device} (h : (d.session.poll d.endpoint).1 = .ok none) :
    d.ingest.memory = d.memory := by
  unfold ingest
  dsimp only
  rw [h]
  rfl

theorem stored_ingest {d : Device} {c : Chunk} (h : (d.session.poll d.endpoint).1 = .ok (some c))
    (hfits : c.offset + c.bytes.size ≤ c.destination.capacity) :
    d.Stored d.ingest c.destination c.offset c.bytes := by
  unfold ingest
  dsimp only
  rw [h]
  exact stored_store _ hfits

/-- A poll that takes no packet stores nothing. -/
theorem memory_poll_of_none {d : Device} (h : (d.session.poll d.endpoint).1 = .ok none) :
    d.poll.memory = d.memory := by
  rw [memory_poll]
  exact memory_ingest_of_none (d := Device.flushDirect _) h

/-- A poll that takes a packet stores it, if it fits. -/
theorem stored_poll {d : Device} {c : Chunk} (h : (d.session.poll d.endpoint).1 = .ok (some c))
    (hfits : c.offset + c.bytes.size ≤ c.destination.capacity) :
    d.Stored d.poll c.destination c.offset c.bytes := by
  unfold Stored
  rw [memory_poll]
  exact stored_ingest (d := Device.flushDirect _) h hfits

end Device
end ChipReplay
