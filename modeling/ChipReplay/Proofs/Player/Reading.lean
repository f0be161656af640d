import Mathlib.Algebra.Group.Nat.Defs
import ChipReplay.Player.Update
/-!
# Reading bytes

What one read does to the player, said once for all proofs about it. Where the cursor goes does
not depend on the window (`Player.past`), so a read is the byte at `readOffset` beside a move
(`nextByte_eq`). A move asks for at most two refills: one for a region that is left and one for
the loop region (`toList_requests_past`). It keeps the cursor inside its region (`Inside.past`).
-/

namespace ChipReplay

/-! ## Regions -/

theorem toNat_regionSize : (UInt32.ofNat regionSize).toNat = regionSize :=
  UInt32.toNat_ofNat_of_lt' (by decide)

theorem toNat_add_regionSize {source : UInt32} (h : source.toNat + regionSize < 2 ^ 32) :
    (source + UInt32.ofNat regionSize).toNat = source.toNat + regionSize := by
  rw [UInt32.toNat_add, toNat_regionSize, Nat.mod_eq_of_lt h]

theorem toNat_linearEnd : (UInt32.ofNat linearEnd).toNat = linearEnd :=
  UInt32.toNat_ofNat_of_lt' (by decide)

namespace Region

theorem next_ne (r : Region) : r.next ≠ r := by cases r <;> decide

theorem next_ne_loop (r : Region) : r.next ≠ loop := by cases r <;> decide

theorem next_ne_linear (r : Region) : r.next ≠ linear := by cases r <;> decide

/-- Only the linear region is larger than `regionSize`. -/
theorem stop_eq {r : Region} (h : r ≠ linear) : r.stop = r.start + regionSize := by
  cases r <;> first | rfl | exact absurd rfl h

/-- The `length` bytes from window offset `offset` lie in the region. -/
def Spans (r : Region) (offset length : Nat) : Prop :=
  r.start ≤ offset ∧ offset + length ≤ r.stop

theorem spans_start {r : Region} (h : r ≠ linear) : r.Spans r.start regionSize :=
  ⟨Nat.le_refl _, Nat.le_of_eq (stop_eq h).symm⟩

theorem spans_linear : linear.Spans 0 linearEnd := ⟨Nat.le_refl _, Nat.le_refl _⟩

theorem isRefilled_next (r : Region) : r.next.isRefilled = true := by cases r <;> rfl

/-- A and B alternate. -/
theorem next_next {r : Region} (h : r.isRefilled = true) : r.next.next = r := by
  cases r <;> first | rfl | exact absurd h (by decide)

/-- A comes before B wherever the playback starts or goes on from. -/
theorem next_of_not_isRefilled {r : Region} (h : r.isRefilled = false) : r.next = a := by
  cases r <;> first | rfl | exact absurd h (by decide)

theorem ne_linear {r : Region} (h : r.isRefilled = true) : r ≠ linear := by
  rintro rfl
  exact absurd h (by decide)

theorem ne_loop {r : Region} (h : r.isRefilled = true) : r ≠ loop := by
  rintro rfl
  exact absurd h (by decide)

end Region

/-! ## Positions -/

namespace Position

/-- The cursor lies in its region, at or behind the place where it entered. -/
structure Inside (q : Position) : Prop where
  start_le : q.region.start ≤ q.entered
  entered_le : q.entered ≤ q.cursor
  le_stop : q.cursor ≤ q.region.stop

/-- The position past the next byte. -/
def past (q : Position) : Position :=
  (if q.atEnd then enter q.region.next q.region.next.start q.streamOffset else q).advance

theorem atEnd_iff {q : Position} : q.atEnd = true ↔ q.region.stop ≤ q.cursor := by
  simp [atEnd]

theorem Inside.enter {region : Region} {cursor : Nat} {base : UInt32}
    (hstart : region.start ≤ cursor) (hstop : cursor ≤ region.stop) :
    (enter region cursor base).Inside :=
  ⟨hstart, Nat.le_refl _, hstop⟩

theorem Inside.past {q : Position} (h : q.Inside) : q.past.Inside := by
  unfold Position.past
  split
  · next =>
    have := q.region.next.start_lt_stop
    exact ⟨Nat.le_refl _, Nat.le_succ _, this⟩
  · next hend =>
    rw [atEnd_iff] at hend
    exact ⟨h.start_le, Nat.le_succ_of_le h.entered_le, by simp only [advance]; omega⟩

/-- The region that the next byte is read from. -/
def readRegion (q : Position) : Region := if q.atEnd then q.region.next else q.region

theorem region_past (q : Position) : q.past.region = q.readRegion := by
  unfold past readRegion
  split <;> rfl

/-- The next byte lies in `readRegion`. -/
theorem Inside.readOffset_mem {q : Position} (h : q.Inside) :
    q.readRegion.start ≤ q.readOffset ∧ q.readOffset < q.readRegion.stop := by
  unfold readRegion readOffset
  split
  · exact ⟨Nat.le_refl _, q.region.next.start_lt_stop⟩
  · next hend =>
    rw [atEnd_iff] at hend
    exact ⟨Nat.le_trans h.start_le h.entered_le, by omega⟩

theorem Inside.readOffset_lt {q : Position} (h : q.Inside) : q.readOffset < windowSize :=
  Nat.lt_of_lt_of_le h.readOffset_mem.2 q.readRegion.stop_le_windowSize

/-- Entering the next region does not move the stream. -/
theorem streamOffset_enter (region : Region) (cursor : Nat) (base : UInt32) :
    (enter region cursor base).streamOffset = base := by
  simp [streamOffset, enter]

/-- A region that has just been entered does not end within two bytes. -/
theorem not_atEnd_past {q : Position} (h : q.atEnd = true) :
    ¬ q.past.atEnd = true ∧ ¬ q.past.past.atEnd = true := by
  -- the next region is not the linear one, so it has a known size
  have hstop : q.region.next.stop = q.region.next.start + 0x2000 :=
    Region.stop_eq (Region.next_ne_linear _)
  have hpast : q.past = (enter q.region.next q.region.next.start q.streamOffset).advance := by
    rw [past, if_pos h]
  have hfirst : ¬ q.past.atEnd = true := by
    rw [atEnd_iff, hpast]
    show ¬ q.region.next.stop ≤ q.region.next.start + 1
    omega
  refine ⟨hfirst, ?_⟩
  rw [past, if_neg hfirst, atEnd_iff, hpast]
  show ¬ q.region.next.stop ≤ q.region.next.start + 2
  omega

/-- The loop region is entered by a jump only. -/
theorem readRegion_ne_loop {q : Position} (h : q.region ≠ .loop) : q.readRegion ≠ .loop := by
  unfold readRegion
  split
  · exact Region.next_ne_loop _
  · exact h

end Position

/-! ## Players -/

namespace Player

/-- The player past its next byte. -/
def past (p : Player) : Player :=
  let p := (if p.position.atEnd then p.cross else p).noticeLoop
  { p with position := p.position.advance }

/-- The refill that leaving the region asks for. -/
def leaveRefills (p : Player) : List Refill :=
  if p.position.atEnd ∧ p.position.region.isRefilled then
    [.ofRegion p.position.region (p.streamOffset + UInt32.ofNat regionSize)]
  else []

/-- The refill that coming to the loop point asks for. -/
def loopRefills (p : Player) : List Refill :=
  if p.loop ≠ 0 ∧ p.loopCached = false ∧ p.loop ≤ p.streamOffset then [.ofRegion .loop p.loop]
  else []

theorem mem_leaveRefills {p : Player} {r : Refill} :
    r ∈ p.leaveRefills ↔ (p.position.atEnd = true ∧ p.position.region.isRefilled = true) ∧
      r = .ofRegion p.position.region (p.streamOffset + UInt32.ofNat regionSize) := by
  unfold leaveRefills
  split
  · next h => rw [List.mem_singleton, and_iff_right h]
  · next h => exact ⟨fun hr => absurd hr List.not_mem_nil, fun hr => absurd hr.1 h⟩

theorem mem_loopRefills {p : Player} {r : Refill} :
    r ∈ p.loopRefills ↔ (p.loop ≠ 0 ∧ p.loopCached = false ∧ p.loop ≤ p.streamOffset) ∧
      r = .ofRegion .loop p.loop := by
  unfold loopRefills
  split
  · next h => rw [List.mem_singleton, and_iff_right h]
  · next h => exact ⟨fun hr => absurd hr List.not_mem_nil, fun hr => absurd hr.1 h⟩

/-- Whether the loop region has been asked for once the next byte is read. -/
def loopCachedPast (p : Player) : Bool :=
  p.loopCached || decide (p.loop ≠ 0 ∧ p.loop ≤ p.streamOffset)

@[simp] theorem streamOffset_cross (p : Player) : p.cross.streamOffset = p.streamOffset := by
  simp [cross, streamOffset, Position.streamOffset_enter]

theorem cross_eq {p : Player} (h : p.position.atEnd = true) :
    p.cross = { p with
      position :=
        .enter p.position.region.next p.position.region.next.start p.streamOffset
      requests := p.requests.pushAll p.leaveRefills } := by
  unfold cross leaveRefills
  by_cases hr : p.position.region.isRefilled = true
  · simp [h, hr, ask, Fifo.pushAll]
  · simp [hr, Fifo.pushAll]

theorem noticeLoop_eq (p : Player) :
    p.noticeLoop = { p with
      loopCached := p.loopCachedPast, requests := p.requests.pushAll p.loopRefills } := by
  unfold noticeLoop loopRefills loopCachedPast
  by_cases hdue : p.loop ≠ 0 ∧ p.loop ≤ p.streamOffset
  -- a region that is cached already is not asked for again, and stays cached
  · by_cases hcached : p.loopCached = false
    · rw [if_pos ⟨hdue.1, hcached, hdue.2⟩, if_pos ⟨hdue.1, hcached, hdue.2⟩]
      simp [ask, Fifo.pushAll, hdue]
    · rw [if_neg (fun h => hcached h.2.1), if_neg (fun h => hcached h.2.1)]
      have : p.loopCached = true := by simpa using hcached
      cases p
      simp_all [Fifo.pushAll]
  · rw [if_neg (fun h => hdue ⟨h.1, h.2.2⟩), if_neg (fun h => hdue ⟨h.1, h.2.2⟩)]
    simp [hdue, Fifo.pushAll]

/-- A move changes nothing but the position, the requests and the mark that the loop region has
been asked for. -/
theorem past_eq (p : Player) :
    p.past = { p with
      position := p.position.past
      loopCached := p.loopCachedPast
      requests := (p.requests.pushAll p.leaveRefills).pushAll p.loopRefills } := by
  unfold past Position.past
  by_cases h : p.position.atEnd = true
  -- crossing does not move the stream, so the loop point is noticed as before it
  · have hloop : p.cross.loopRefills = p.loopRefills := by
      unfold loopRefills
      rw [streamOffset_cross, cross_eq h]
    have hcached : p.cross.loopCachedPast = p.loopCachedPast := by
      unfold loopCachedPast
      rw [streamOffset_cross, cross_eq h]
    rw [if_pos h, if_pos h, noticeLoop_eq, hloop, hcached, cross_eq h]
    rfl
  · have hleave : p.leaveRefills = [] := by simp [leaveRefills, h]
    rw [if_neg h, if_neg h, noticeLoop_eq, hleave]
    rfl

/-- A read gives the byte at `readOffset` and moves the cursor past it. -/
theorem nextByte_eq (p : Player) (w : Window) : p.nextByte w = (p.peek w, p.past) := by
  unfold nextByte past peek Position.readOffset
  split
  · next h => simp [noticeLoop_eq, cross_eq h, Position.enter]
  · simp [noticeLoop_eq]

@[simp] theorem position_past (p : Player) : p.past.position = p.position.past := by rw [past_eq]
@[simp] theorem loopCached_past (p : Player) : p.past.loopCached = p.loopCachedPast := by
  rw [past_eq]
@[simp] theorem start_past (p : Player) : p.past.start = p.start := by rw [past_eq]
@[simp] theorem loop_past (p : Player) : p.past.loop = p.loop := by rw [past_eq]
@[simp] theorem loopCount_past (p : Player) : p.past.loopCount = p.loopCount := by rw [past_eq]
@[simp] theorem filter_past (p : Player) : p.past.filter = p.filter := by rw [past_eq]
@[simp] theorem phase_past (p : Player) : p.past.phase = p.phase := by rw [past_eq]
@[simp] theorem started_past (p : Player) : p.past.started = p.started := by rw [past_eq]

@[simp] theorem toList_requests_past (p : Player) :
    p.past.requests.toList = p.requests.toList ++ (p.leaveRefills ++ p.loopRefills) := by
  rw [past_eq, Fifo.toList_pushAll, Fifo.toList_pushAll, List.append_assoc]

/-! ## Jumps -/

/-- The refills of A and B with the stream from `source` on. -/
def preload (source : UInt32) : List Refill :=
  [.ofRegion .a source, .ofRegion .b (source + UInt32.ofNat regionSize)]

/-- The end of the stream is a jump to the loop region or to the start, after which A and B are
asked for anew. -/
theorem endStream_eq (p : Player) :
    p.endStream =
      if p.loop ≠ 0 ∧ p.loopCached then
        { p with
          loopCount := p.loopCount + 1
          position := .enter .loop Region.loop.start p.loop
          requests := p.requests.pushAll (preload (p.loop + UInt32.ofNat regionSize)) }
      else
        { p with
          loopCount := p.loopCount + 1
          position := .enter .linear p.start.toNat p.start
          requests := p.requests.pushAll (preload (UInt32.ofNat linearEnd)) } := rfl

/-- The player at the first command of the stream with the given header, with A and B asked
for. -/
def begun (p : Player) (header : Header) : Player :=
  { p with
    phase := .playing
    started := true
    header := some header
    start := header.start
    loop := header.loop
    position := .enter .linear header.start.toNat header.start
    loopCached := false
    loopCount := 0
    filter := p.filter.resetLevel
    requests := Fifo.empty.pushAll (preload (UInt32.ofNat linearEnd)) }

theorem begin_of_readHeader {w : Window} {header : Header} (h : readHeader w = .ok header)
    (p : Player) : p.begin w = (.ok (), p.begun header) := by
  unfold begin
  dsimp only
  rw [h]
  rfl

theorem readHeader_eq_ok {w : Window} {header : Header} (h : readHeader w = .ok header) :
    Header.read w.bytes = .ok header ∧ header.start.toNat < linearEnd := by
  unfold readHeader at h
  split at h
  · exact absurd h (by simp)
  · next hread =>
    split at h
    · exact absurd h (by simp)
    · next hstart =>
      obtain rfl := Except.ok.inj h
      exact ⟨hread, Nat.lt_of_not_le hstart⟩

/-- A playback begins only if the first command lies in the linear region. -/
theorem begin_eq_ok {p q : Player} {w : Window} (h : p.begin w = (.ok (), q)) :
    ∃ header, readHeader w = .ok header ∧ header.start.toNat < linearEnd ∧
      q = p.begun header := by
  cases hread : readHeader w with
  | error e =>
    unfold begin at h
    simp [hread] at h
  | ok header =>
    rw [begin_of_readHeader hread] at h
    exact ⟨header, rfl, (readHeader_eq_ok hread).2, (Prod.mk.inj h).2.symm⟩

/-! ## Handing out -/

/-- Handing out a refill takes the oldest one and changes nothing else. -/
theorem takeRequest_eq (p : Player) :
    ∃ requests, p.takeRequest.2 = { p with requests } ∧
      p.requests.toList = p.takeRequest.1.toList ++ requests.toList := by
  unfold takeRequest
  split
  · next hpop => exact ⟨_, rfl, Fifo.toList_of_pop? hpop⟩
  · exact ⟨p.requests, rfl, rfl⟩

end Player
end ChipReplay
