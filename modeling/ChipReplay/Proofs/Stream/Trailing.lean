import ChipReplay.Proofs.Preparation.Passes
import ChipReplay.Proofs.Stream.Simulation
/-!
# Behind the end of the stream

A refill brings nothing from behind the end of the stream. What the player finds there is what the
window held before: nothing at first, and later what was two regions earlier (`Stream.trailing`). So
a player that comes to the end of the stream cannot tell it from the stream with this byte behind it
(`Stream.prolonged`). Two windows are served here, one from each of them. As long as a player reads
on without a jump, they differ in the loop region at most, which it does not read (`Trails`).
-/

namespace ChipReplay

open Bytes

namespace Stream

/-- The byte that the player finds behind the end of the stream. -/
def trailing (stream : ByteArray) : UInt8 :=
  if linearEnd + 2 * regionSize ≤ stream.size then peek stream (stream.size - 2 * regionSize) else 0

/-- The stream and the byte behind its end. -/
def prolonged (stream : ByteArray) : ByteArray := stream.push (trailing stream)

variable (stream : ByteArray)

@[simp] theorem size_prolonged : (prolonged stream).size = stream.size + 1 := ByteArray.size_push

theorem peek_prolonged (i : Nat) :
    peek (prolonged stream) i = if i = stream.size then trailing stream else peek stream i :=
  peek_push stream (trailing stream) i

end Stream

open ChipReplay.Stream (trailing prolonged size_prolonged peek_prolonged)

/-! ## Windows -/

/-- The windows differ in the loop region at most. -/
def Window.SameBeside (w w' : Window) : Prop :=
  ∀ i, ¬ (Region.loop.start ≤ i ∧ i < Region.loop.stop) → w.byte i = w'.byte i

/-- A refill of a region replaces the bytes for which the stream has others. -/
theorem byte_filled_ofRegion (stream : ByteArray) (w : Window) {region : Region}
    (h : region ≠ .linear) (source : UInt32) (i : Nat) :
    (filled stream w (.ofRegion region source)).byte i =
      if (region.start ≤ i ∧ i < region.stop) ∧
          source.toNat + (i - region.start) < stream.size then
        peek stream (source.toNat + (i - region.start))
      else w.byte i := by
  by_cases hin : region.start ≤ i ∧ i < region.stop
  · have hstop := Region.stop_eq h
    by_cases hend : source.toNat + (i - region.start) < stream.size
    · have hshown := shown_filled stream w h source (i - region.start) (by omega) hend
      rw [Nat.add_sub_of_le hin.1] at hshown
      rw [if_pos ⟨hin, hend⟩, hshown]
    · rw [if_neg (fun h => hend h.2)]
      unfold filled Playback.overwritten
      rw [Refill.target_ofRegion, Refill.length_ofRegion]
      show (if hfits : _ then _ else w).byte i = _
      split
      · have hsize : (stream.extract source.toNat (source.toNat + regionSize)).size =
            min (source.toNat + regionSize) stream.size - source.toNat := ByteArray.size_extract
        rw [Window.byte_put, if_neg]
        show ¬ (region.start ≤ i ∧
          i < region.start + (stream.extract source.toNat (source.toNat + regionSize)).size)
        omega
      · rfl
  · rw [if_neg (fun h => hin h.1), byte_filled_of_not_covers]
    rwa [Refill.covers_ofRegion h]

/-- A refill of a region keeps the windows the same if the byte behind the end of the stream is
there already. -/
theorem Window.SameBeside.filled {stream : ByteArray} {w w' : Window} (h : w.SameBeside w')
    {region : Region} (hlinear : region ≠ .linear) (source : UInt32)
    (htrailing : region ≠ .loop → ∀ k < regionSize, source.toNat + k = stream.size →
      w'.byte (region.start + k) = trailing stream) :
    (filled stream w (.ofRegion region source)).SameBeside
      (filled (prolonged stream) w' (.ofRegion region source)) := by
  intro i hi
  rw [byte_filled_ofRegion stream w hlinear, byte_filled_ofRegion _ w' hlinear, peek_prolonged,
    size_prolonged]
  by_cases hin : region.start ≤ i ∧ i < region.stop
  · have hloop : region ≠ .loop := by
      rintro rfl
      exact hi hin
    have hstop := Region.stop_eq hlinear
    rcases Nat.lt_trichotomy (source.toNat + (i - region.start)) stream.size with hlt | heq | hgt
    · rw [if_pos ⟨hin, hlt⟩, if_pos ⟨hin, by omega⟩, if_neg (by omega)]
    · have hbyte := htrailing hloop (i - region.start) (by omega) heq
      rw [Nat.add_sub_of_le hin.1] at hbyte
      rw [if_neg (by omega), if_pos ⟨hin, by omega⟩, if_pos heq, h i hi, hbyte]
    · rw [if_neg (by omega), if_neg (by omega), h i hi]
  · rw [if_neg (fun h => hin h.1), if_neg (fun h => hin h.1), h i hi]

/-! ## Positions -/

/-- A position that is reached from the first command without a jump: the linear region ends where
the refilled part of the stream begins, and A and B are entered at their first bytes. -/
structure Position.Onward (q : Position) : Prop where
  region_ne : q.region ≠ .loop
  linear : q.region = .linear → q.endOffset = linearEnd
  refilled : q.region.isRefilled = true → q.entered = q.region.start ∧ linearEnd ≤ q.base.toNat

theorem Position.Onward.le_endOffset {q : Position} (h : q.Onward) : linearEnd ≤ q.endOffset := by
  cases hregion : q.region with
  | linear => exact Nat.le_of_eq (h.linear hregion).symm
  | loop => exact absurd hregion h.region_ne
  | a | b =>
    have hbase := (h.refilled (by rw [hregion]; rfl)).2
    unfold endOffset
    omega

theorem Position.Onward.past {q : Position} (h : q.Onward)
    (hoffset : q.atEnd = true → q.streamOffset.toNat = q.endOffset) : q.past.Onward := by
  unfold Position.past
  split
  · next hend =>
    refine ⟨Region.next_ne_loop _, fun hlinear => absurd hlinear (Region.next_ne_linear _),
      fun _ => ⟨rfl, ?_⟩⟩
    show linearEnd ≤ q.streamOffset.toNat
    rw [hoffset hend]
    exact h.le_endOffset
  · exact ⟨h.region_ne, h.linear, h.refilled⟩

/-! ## Players -/

/-- The player has not jumped. Once every refill has been served, the window that is served from the
prolonged stream shows what the player is going to read, and the one that is served from the stream
is the same for it. -/
structure Trails (stream : ByteArray) (w w' : Window) (p : Player) : Prop where
  ready : Ready (prolonged stream) w' [] p
  onward : p.position.Onward
  same : (settled stream w p.requests.toList).SameBeside
    (settled (prolonged stream) w' p.requests.toList)

namespace Trails

variable {stream : ByteArray} {w w' : Window} {p : Player}

theorem shows (h : Trails stream w w' p) : Shows (prolonged stream) p
    (settled (prolonged stream) w' p.requests.toList) := h.ready

/-- Neither the filter nor the count matter. -/
theorem congr {q : Player} (h : Trails stream w w' p) (hstart : q.start = p.start)
    (hloop : q.loop = p.loop) (hposition : q.position = p.position)
    (hcached : q.loopCached = p.loopCached) (hrequests : q.requests = p.requests) :
    Trails stream w w' q where
  ready := by
    unfold Ready
    rw [hrequests]
    exact h.shows.congr hstart hloop hposition hcached
  onward := hposition ▸ h.onward
  same := hrequests ▸ h.same

/-- Serving what was asked for changes nothing of that. -/
theorem served {q : Player} (h : Trails stream w w' p) (hstart : q.start = p.start)
    (hloop : q.loop = p.loop) (hposition : q.position = p.position)
    (hcached : q.loopCached = p.loopCached) (hidle : q.requests.toList = []) :
    Trails stream (settled stream w p.requests.toList)
      (settled (prolonged stream) w' p.requests.toList) q where
  ready := by
    unfold Ready
    rw [hidle]
    exact h.shows.congr hstart hloop hposition hcached
  onward := hposition ▸ h.onward
  same := by
    rw [hidle]
    exact h.same

/-- What the region that is left is asked for with does not replace what stands there for the byte
behind the end. -/
theorem same_leave (h : Trails stream w w' p) :
    (settled stream (settled stream w p.requests.toList) p.leaveRefills).SameBeside
      (settled (prolonged stream) (settled (prolonged stream) w' p.requests.toList)
        p.leaveRefills) := by
  unfold Player.leaveRefills
  split
  · next hleft =>
    have hready := h.shows
    have hlinear := Region.ne_linear hleft.2
    have hstop := Region.stop_eq hlinear
    obtain ⟨hentered, hbase⟩ := h.onward.refilled hleft.2
    have hroom := hready.room
    have hend : p.position.endOffset = p.position.base.toNat + regionSize := by
      rw [Position.endOffset, hentered, hstop, Nat.add_sub_cancel_left]
    have hsource : (p.streamOffset + UInt32.ofNat regionSize).toNat =
        p.position.base.toNat + 2 * regionSize := by
      have hoffset : p.streamOffset.toNat = p.position.endOffset := by
        rw [hready.toNat_streamOffset, hready.sound.inside.offset_of_atEnd hleft.1]
      rw [toNat_add_regionSize (by omega), hoffset, hend, Nat.two_mul, Nat.add_assoc]
    rw [settled_cons, settled_nil, settled_cons, settled_nil]
    refine h.same.filled hlinear _ fun _ k hk hsize => ?_
    rw [hsource] at hsize
    -- the byte stands where the region showed the stream two regions earlier
    have hshown := hready.here k (by omega) (by rw [size_prolonged]; omega)
    rw [hentered, peek_prolonged, if_neg (by simp only [regionSize] at hsize; omega)] at hshown
    rw [hshown, trailing, if_pos (by omega)]
    exact congrArg (peek stream) (by omega)
  · exact h.same

/-- A read keeps the windows the same. -/
theorem past (h : Trails stream w w' p) (hsize : stream.size + 0x8001 < 2 ^ 32)
    (hread : p.position.offset ≤ stream.size) : Trails stream w w' p.past where
  ready := by
    have hlonger := size_prolonged stream
    exact h.ready.past (by omega) (by omega)
  onward := by
    rw [Player.position_past]
    refine h.onward.past fun hend => ?_
    rw [← h.shows.sound.inside.offset_of_atEnd hend]
    exact h.shows.toNat_streamOffset
  same := by
    rw [Player.toList_requests_past, settled_append, settled_append, settled_append, settled_append]
    have hleave := h.same_leave
    unfold Player.loopRefills
    split
    · rw [settled_cons, settled_nil, settled_cons, settled_nil]
      exact hleave.filled (by decide) _ fun hloop => absurd rfl hloop
    · exact hleave

theorem offset_past (h : Trails stream w w' p) :
    p.past.position.offset = p.position.offset + 1 := by
  rw [Player.position_past, h.shows.sound.inside.offset_past h.shows.endOffset_lt]

/-- So do three reads. -/
theorem past_three (h : Trails stream w w' p) (hsize : stream.size + 0x8001 < 2 ^ 32)
    (hread : p.position.offset + 2 ≤ stream.size) : Trails stream w w' p.past.past.past := by
  have hfirst := h.past hsize (by omega)
  have hoffset := h.offset_past
  have hsecond := hfirst.past hsize (by omega)
  have hoffset' := hfirst.offset_past
  exact hsecond.past hsize (by omega)

theorem emit (h : Trails stream w w' p) (chip : Recorder) (port : Port) (register data : UInt8) :
    Trails stream w w' (p.emit chip port register data).1 := by
  rw [Player.emit_fst]
  exact h.congr rfl rfl rfl rfl rfl

/-- A turn keeps the windows the same, unless it ends the stream or the playback. -/
theorem turn (h : Trails stream w w' p) (hsize : stream.size + 0x8001 < 2 ^ 32) (chip : Recorder)
    (hend : p.opcode w' ≠ .endOfStream)
    (hread : p.position.offset + (p.opcode w').operands ≤ stream.size)
    (hfails : ∀ e, (p.turn w' chip).1 ≠ .fails e) :
    Trails stream w w' (p.turn w' chip).2.1 := by
  have hone : p.position.offset ≤ stream.size := Nat.le_of_add_right_le hread
  unfold Player.turn at hfails ⊢
  rcases hanswer : p.askChip w' chip with ⟨_ | _, chip'⟩
  · exact h
  · rw [hanswer] at hfails
    dsimp only at hfails ⊢
    rw [Player.step_eq] at hfails ⊢
    cases hop : p.opcode w' with
    | write port =>
      have hthree : p.position.offset + 2 ≤ stream.size := by
        simpa only [hop, Opcode.operands] using hread
      have hemitted := (h.past_three hsize hthree).emit chip' port (p.past.peek w')
        (p.past.past.peek w')
      dsimp only
      exact hemitted
    | wait =>
      have hthree : p.position.offset + 2 ≤ stream.size := by
        simpa only [hop, Opcode.operands] using hread
      exact h.past_three hsize hthree
    | pause => exact h.past hsize hone
    | endOfStream => exact absurd hop hend
    | dataBlock | unknown =>
      rw [hop] at hfails
      exact absurd rfl (hfails _)

end Trails
end ChipReplay
