import ChipReplay.Proofs.Stream.Settled
/-!
# The window shows the stream around the player

`Shows` says what the window holds around the cursor once every refill asked for has been served:
the rest of the region the cursor is in, the region after it, and the loop region. It says this
in stream offsets as numbers, which do not wrap. Reads, jumps and the refills they ask for keep
it, as long as the cursor stays inside the stream.
-/

namespace ChipReplay

/-! ## Stream offsets as numbers -/

namespace Position

/-- Stream offset of the next byte, as a number. -/
def offset (q : Position) : Nat := q.base.toNat + (q.cursor - q.entered)

/-- Stream offset of the first byte past the region, as a number. -/
def endOffset (q : Position) : Nat := q.base.toNat + (q.region.stop - q.entered)

theorem streamOffset_eq (q : Position) : q.streamOffset = UInt32.ofNat q.offset := by
  rw [streamOffset, offset, UInt32.ofNat_add, UInt32.ofNat_toNat]

theorem Inside.offset_le {q : Position} (h : q.Inside) : q.offset ≤ q.endOffset := by
  have := h.le_stop
  unfold offset endOffset
  omega

theorem Inside.toNat_streamOffset {q : Position} (h : q.Inside) (hroom : q.endOffset < 2 ^ 32) :
    q.streamOffset.toNat = q.offset := by
  have := h.offset_le
  rw [streamOffset_eq, UInt32.toNat_ofNat_of_lt' (Nat.lt_of_le_of_lt this hroom)]

theorem Inside.offset_of_atEnd {q : Position} (h : q.Inside) (hend : q.atEnd = true) :
    q.offset = q.endOffset := by
  have hcursor : q.cursor = q.region.stop := Nat.le_antisymm h.le_stop (atEnd_iff.mp hend)
  rw [offset, endOffset, hcursor]

theorem Inside.offset_past {q : Position} (h : q.Inside) (hroom : q.endOffset < 2 ^ 32) :
    q.past.offset = q.offset + 1 := by
  have hentered := h.entered_le
  unfold Position.past
  split
  · show q.streamOffset.toNat + (q.region.next.start + 1 - q.region.next.start) = q.offset + 1
    rw [h.toNat_streamOffset hroom, Nat.add_sub_cancel_left]
  · show q.base.toNat + (q.cursor + 1 - q.entered) = q.base.toNat + (q.cursor - q.entered) + 1
    omega

end Position

/-! ## Refills of other regions -/

namespace Shown

variable {stream : ByteArray} {w : Window} {region : Region} {offset source length : Nat}

/-- Asking for the loop region changes no other. -/
theorem loopRefills (h : Shown stream w offset source length) (p : Player)
    (hregion : region ≠ .loop) (hspans : region.Spans offset length) :
    Shown stream (settled stream w p.loopRefills) offset source length := by
  refine h.after_refills hspans fun r hr => ?_
  exact ⟨.loop, p.loop, by decide, hregion.symm, (Player.mem_loopRefills.mp hr).2⟩

/-- Asking for the region that is left changes no other. -/
theorem leaveRefills (h : Shown stream w offset source length) (p : Player)
    (hregion : region = p.position.region → region.isRefilled = false)
    (hspans : region.Spans offset length) :
    Shown stream (settled stream w p.leaveRefills) offset source length := by
  refine h.after_refills hspans fun r hr => ?_
  obtain ⟨hleft, rfl⟩ := Player.mem_leaveRefills.mp hr
  refine ⟨p.position.region, _, Region.ne_linear hleft.2, ?_, rfl⟩
  intro heq
  exact absurd hleft.2 (by simp [heq, hregion heq.symm])

end Shown

/-! ## The invariant -/

/-- The window holds what the player is going to read. -/
structure Shows (stream : ByteArray) (p : Player) (w : Window) : Prop where
  sound : p.Sound
  /-- The next two refills are asked for below the end of the offsets. -/
  room : p.position.endOffset + 2 * regionSize < 2 ^ 32
  linear : Shown stream w 0 0 linearEnd
  here : Shown stream w p.position.entered p.position.base.toNat
    (p.position.region.stop - p.position.entered)
  next : Shown stream w p.position.region.next.start p.position.endOffset regionSize
  /-- Where no region is handed back on leaving, both A and B lie ahead. -/
  second : p.position.region.isRefilled = false →
    Shown stream w Region.b.start (p.position.endOffset + regionSize) regionSize
  loop : p.loopCached = true → Shown stream w Region.loop.start p.loop.toNat regionSize
  cached : p.loopCached = true → p.loop ≠ 0 ∧ p.loop.toNat < stream.size

namespace Shows

variable {stream : ByteArray} {p : Player} {w : Window}

/-- Neither the filter, nor the requests, nor the count matter. -/
theorem congr {q : Player} (h : Shows stream p w) (hstart : q.start = p.start)
    (hloop : q.loop = p.loop) (hposition : q.position = p.position)
    (hcached : q.loopCached = p.loopCached) : Shows stream q w where
  sound := h.sound.congr hstart hposition hcached
  room := hposition ▸ h.room
  linear := h.linear
  here := hposition ▸ h.here
  next := hposition ▸ h.next
  second := hposition ▸ h.second
  loop := hcached ▸ hloop ▸ h.loop
  cached := hcached ▸ hloop ▸ h.cached

theorem endOffset_lt (h : Shows stream p w) : p.position.endOffset < 2 ^ 32 := by
  have := h.room
  omega

theorem toNat_streamOffset (h : Shows stream p w) : p.streamOffset.toNat = p.position.offset :=
  h.sound.inside.toNat_streamOffset h.endOffset_lt

/-- The player reads the stream. -/
theorem peek (h : Shows stream p w) (hread : p.position.offset < stream.size) :
    p.peek w = Bytes.peek stream p.position.offset := by
  have hinside := h.sound.inside
  unfold Player.peek Position.readOffset
  split
  -- at the end of its region the cursor reads the first byte of the next one
  · next hend =>
    rw [hinside.offset_of_atEnd hend] at hread ⊢
    exact h.next 0 (by decide) hread
  · next hend =>
    rw [Position.atEnd_iff] at hend
    have hentered := hinside.entered_le
    have := h.here (p.position.cursor - p.position.entered) (by omega) hread
    rwa [show p.position.entered + (p.position.cursor - p.position.entered) = p.position.cursor by
      omega] at this

/-- The loop region is shown as soon as it has been asked for. -/
theorem loop_past (h : Shows stream p w) (hcached : p.loopCachedPast = true) :
    Shown stream (settled stream w (p.leaveRefills ++ p.loopRefills)) Region.loop.start
      p.loop.toNat regionSize := by
  rw [settled_append]
  by_cases hbefore : p.loopCached = true
  -- asked for before, and not by this read
  · have hnone : p.loopRefills = [] := by simp [Player.loopRefills, hbefore]
    rw [hnone, settled_nil]
    exact (h.loop hbefore).leaveRefills p (fun _ => rfl) (Region.spans_start (by decide))
  -- asked for by this read
  · have hdue : p.loop ≠ 0 ∧ p.loop ≤ p.streamOffset := by
      simpa [Player.loopCachedPast, hbefore] using hcached
    have hasked : p.loopRefills = [.ofRegion .loop p.loop] :=
      if_pos ⟨hdue.1, by simpa using hbefore, hdue.2⟩
    rw [hasked, settled_cons, settled_nil]
    exact shown_filled _ _ (by decide) _

/-- The loop point lies in the stream once it has been come to. -/
theorem cached_past (h : Shows stream p w) (hread : p.position.offset < stream.size)
    (hcached : p.loopCachedPast = true) : p.loop ≠ 0 ∧ p.loop.toNat < stream.size := by
  by_cases hbefore : p.loopCached = true
  · exact h.cached hbefore
  · have hdue : p.loop ≠ 0 ∧ p.loop ≤ p.streamOffset := by
      simpa [Player.loopCachedPast, hbefore] using hcached
    have hle : p.loop.toNat ≤ p.streamOffset.toNat := UInt32.le_iff_toNat_le.mp hdue.2
    have hoffset := h.toNat_streamOffset
    exact ⟨hdue.1, by omega⟩

/-- The linear region is never asked for. -/
theorem linear_past (h : Shows stream p w) :
    Shown stream (settled stream w (p.leaveRefills ++ p.loopRefills)) 0 0 linearEnd := by
  rw [settled_append]
  have hleft : Shown stream (settled stream w p.leaveRefills) 0 0 linearEnd :=
    h.linear.leaveRefills p (fun _ => rfl) Region.spans_linear
  exact hleft.loopRefills p (by decide) Region.spans_linear

/-- Reading on in a region keeps the invariant. -/
theorem past_within (h : Shows stream p w) (hread : p.position.offset < stream.size)
    (hend : ¬ p.position.atEnd = true) :
    Shows stream p.past (settled stream w (p.leaveRefills ++ p.loopRefills)) := by
  have hposition : p.past.position = p.position.advance := by
    rw [Player.position_past, Position.past, if_neg hend]
  have hleave : p.leaveRefills = [] := by simp [Player.leaveRefills, hend]
  have hinside := h.sound.inside
  refine
    { sound := h.sound.past
      room := hposition ▸ h.room
      linear := h.linear_past
      here := ?_
      next := ?_
      second := ?_
      loop := ?_
      cached := ?_ }
  · rw [hposition]
    have hspans : p.position.region.Spans p.position.entered
        (p.position.region.stop - p.position.entered) := by
      have hentered := hinside.entered_le
      have hstop := hinside.le_stop
      exact ⟨hinside.start_le, by omega⟩
    -- what is asked for is not the region that is read
    refine h.here.after_refills hspans fun r hr => ?_
    have hother := Player.other_of_asked h.sound hr
    rwa [Position.readRegion, if_neg hend] at hother
  · rw [hposition, hleave]
    exact h.next.loopRefills p (Region.next_ne_loop _)
      (Region.spans_start (Region.next_ne_linear _))
  · rw [hposition, hleave]
    intro hregion
    exact (h.second hregion).loopRefills p (by decide) (Region.spans_start (by decide))
  · rw [Player.loopCached_past, Player.loop_past]
    exact h.loop_past
  · rw [Player.loopCached_past, Player.loop_past]
    exact h.cached_past hread

/-- Beyond the region that is moved into lies the one that is handed back, or B if none is. -/
theorem next_past (h : Shows stream p w) (hend : p.position.atEnd = true) :
    Shown stream (settled stream w (p.leaveRefills ++ p.loopRefills))
      p.position.region.next.next.start (p.position.endOffset + regionSize) regionSize := by
  have hroom := h.room
  have hbase : p.streamOffset.toNat = p.position.endOffset := by
    rw [h.toNat_streamOffset, h.sound.inside.offset_of_atEnd hend]
  have hloop := Region.next_ne_loop p.position.region.next
  have hspans := Region.spans_start (Region.next_ne_linear p.position.region.next)
  rw [settled_append]
  -- the loop region is neither of the two, so its refill does not matter
  refine Shown.loopRefills ?_ p hloop hspans
  by_cases hregion : p.position.region.isRefilled = true
  · have hsource : (p.streamOffset + UInt32.ofNat regionSize).toNat =
        p.position.endOffset + regionSize := by
      rw [toNat_add_regionSize (by omega), hbase]
    rw [Player.leaveRefills, if_pos ⟨hend, hregion⟩, settled_cons, settled_nil,
      Region.next_next hregion, ← hsource]
    exact shown_filled _ _ (Region.ne_linear hregion) _
  · have hregion : p.position.region.isRefilled = false := by simpa using hregion
    rw [Player.leaveRefills, if_neg (by simp [hregion]), settled_nil,
      Region.next_of_not_isRefilled hregion]
    exact h.second hregion

/-- Moving into the next region keeps the invariant. -/
theorem past_across (h : Shows stream p w) (hsize : stream.size + 0x8000 < 2 ^ 32)
    (hread : p.position.offset < stream.size) (hend : p.position.atEnd = true) :
    Shows stream p.past (settled stream w (p.leaveRefills ++ p.loopRefills)) := by
  have hposition : p.past.position = (Position.enter p.position.region.next
      p.position.region.next.start p.streamOffset).advance := by
    rw [Player.position_past, Position.past, if_pos hend]
    rfl
  have hinside := h.sound.inside
  have hbase : p.streamOffset.toNat = p.position.endOffset := by
    rw [h.toNat_streamOffset, hinside.offset_of_atEnd hend]
  have hstop := Region.stop_eq (Region.next_ne_linear p.position.region)
  have hendOffset : p.past.position.endOffset = p.position.endOffset + regionSize := by
    rw [hposition]
    show p.streamOffset.toNat + (p.position.region.next.stop - p.position.region.next.start) = _
    omega
  have hnext : Shown stream (settled stream w (p.leaveRefills ++ p.loopRefills))
      p.position.region.next.start p.position.endOffset regionSize := by
    refine h.next.after_refills (Region.spans_start (Region.next_ne_linear _)) fun r hr => ?_
    have hother := Player.other_of_asked h.sound hr
    rwa [Position.readRegion, if_pos hend] at hother
  refine
    { sound := h.sound.past
      room := ?_
      linear := h.linear_past
      here := ?_
      next := ?_
      second := ?_
      loop := ?_
      cached := ?_ }
  -- the byte at the end of the region is in the stream, which leaves room for two regions more
  · have := hinside.offset_of_atEnd hend
    simp only [regionSize] at hendOffset ⊢
    omega
  · rw [hposition]
    show Shown _ _ p.position.region.next.start p.streamOffset.toNat
      (p.position.region.next.stop - p.position.region.next.start)
    rwa [hbase, hstop, Nat.add_sub_cancel_left]
  · rw [hendOffset, hposition]
    exact h.next_past hend
  · rw [hposition]
    intro hregion
    exact absurd hregion (by simp [Position.advance, Position.enter, Region.isRefilled_next])
  · rw [Player.loopCached_past, Player.loop_past]
    exact h.loop_past
  · rw [Player.loopCached_past, Player.loop_past]
    exact h.cached_past hread

/-- A read of a byte that the stream has keeps the invariant. -/
theorem past (h : Shows stream p w) (hsize : stream.size + 0x8000 < 2 ^ 32)
    (hread : p.position.offset < stream.size) :
    Shows stream p.past (settled stream w (p.leaveRefills ++ p.loopRefills)) := by
  by_cases hend : p.position.atEnd = true
  · exact h.past_across hsize hread hend
  · exact h.past_within hread hend

/-! ## Jumps -/

/-- Once A and B have been asked for, the stream is shown there from `source` on. -/
theorem preload_shown (stream : ByteArray) (w : Window) {source : UInt32}
    (hroom : source.toNat + 2 * regionSize < 2 ^ 32) :
    Shown stream (settled stream w (Player.preload source)) Region.a.start source.toNat regionSize ∧
    Shown stream (settled stream w (Player.preload source)) Region.b.start
      (source.toNat + regionSize) regionSize := by
  have hb : (source + UInt32.ofNat regionSize).toNat = source.toNat + regionSize :=
    toNat_add_regionSize (by omega)
  have ha : Shown stream (filled stream w (.ofRegion .a source)) Region.a.start source.toNat
      regionSize := shown_filled stream w (by decide) source
  rw [Player.preload, settled_cons]
  constructor
  -- the refill of B leaves A alone
  · refine ha.after_refills (Region.spans_start (by decide)) fun r hr => ?_
    exact ⟨.b, _, by decide, by decide, List.mem_singleton.mp hr⟩
  · rw [settled_cons, settled_nil, ← hb]
    exact shown_filled _ _ (by decide) _

/-- Asking for A and B changes no region before them. -/
theorem shown_preload {region : Region} {offset source' length : Nat}
    (h : Shown stream w offset source' length) (source : UInt32)
    (hregion : region.isRefilled = false) (hspans : region.Spans offset length) :
    Shown stream (settled stream w (Player.preload source)) offset source' length := by
  refine h.after_refills hspans fun r hr => ?_
  rw [Player.preload, List.mem_cons, List.mem_singleton] at hr
  rcases hr with rfl | rfl
  · exact ⟨.a, source, by decide, by rintro rfl; exact absurd hregion (by decide), rfl⟩
  · exact ⟨.b, _, by decide, by rintro rfl; exact absurd hregion (by decide), rfl⟩

/-- A jump into the linear or the loop region establishes the invariant if the rest of that region
shows the stream from `base` on, and A and B are asked for with what comes after it. -/
theorem of_jump {region : Region} {cursor : Nat} {base source : UInt32}
    (hstart : p.start.toNat < linearEnd) (hposition : p.position = .enter region cursor base)
    (hregion : region.isRefilled = false)
    (hcursor : region.start ≤ cursor ∧ cursor ≤ region.stop)
    (hsource : source.toNat = base.toNat + (region.stop - cursor))
    (hroom : source.toNat + 2 * regionSize < 2 ^ 32) (hlinear : Shown stream w 0 0 linearEnd)
    (hhere : Shown stream w cursor base.toNat (region.stop - cursor))
    (hloop : p.loopCached = true →
      Shown stream w Region.loop.start p.loop.toNat regionSize)
    (hcached : p.loopCached = true → p.loop ≠ 0 ∧ p.loop.toNat < stream.size)
    (hinLoop : region = .loop → p.loopCached = true) :
    Shows stream p (settled stream w (Player.preload source)) := by
  have hendOffset : p.position.endOffset = source.toNat := by rw [hposition, hsource]; rfl
  have hshown := preload_shown stream w hroom
  refine
    { sound := ⟨⟨hstart, hposition ▸ .enter hcursor.1 hcursor.2⟩, hposition ▸ hinLoop⟩
      room := hendOffset ▸ hroom
      linear := shown_preload hlinear source rfl Region.spans_linear
      here := ?_
      next := ?_
      second := fun _ => hendOffset ▸ hshown.2
      loop := fun h => shown_preload (hloop h) source rfl (Region.spans_start (by decide))
      cached := hcached }
  · rw [hposition]
    have hspans : region.Spans cursor (region.stop - cursor) :=
      ⟨hcursor.1, Nat.le_of_eq (Nat.add_sub_of_le hcursor.2)⟩
    exact shown_preload hhere source hregion hspans
  · rw [hendOffset, hposition]
    show Shown _ _ region.next.start _ _
    rw [Region.next_of_not_isRefilled hregion]
    exact hshown.1

/-- The first command lies in the linear region, which shows the stream from its first byte
on. -/
theorem of_rewind (hstart : p.start.toNat < linearEnd)
    (hposition : p.position = .enter .linear p.start.toNat p.start)
    (hlinear : Shown stream w 0 0 linearEnd)
    (hloop : p.loopCached = true →
      Shown stream w Region.loop.start p.loop.toNat regionSize)
    (hcached : p.loopCached = true → p.loop ≠ 0 ∧ p.loop.toNat < stream.size) :
    Shows stream p (settled stream w (Player.preload (UInt32.ofNat linearEnd))) := by
  have hstop : Region.linear.stop = linearEnd := rfl
  refine of_jump hstart hposition rfl ⟨Nat.zero_le _, Nat.le_of_lt hstart⟩ ?_ ?_ hlinear ?_ hloop
    hcached (fun h => absurd h (by decide))
  · rw [toNat_linearEnd, hstop]
    omega
  · rw [toNat_linearEnd]
    decide
  · intro k hk hend
    have := hlinear (p.start.toNat + k) (by omega) (by omega)
    rwa [Nat.zero_add] at this

/-- The end of the stream keeps the invariant. -/
theorem endStream (h : Shows stream p w) (hsize : stream.size + 0x8000 < 2 ^ 32) :
    ∃ rs, p.endStream.requests.toList = p.requests.toList ++ rs ∧
      Shows stream p.endStream (settled stream w rs) := by
  rw [Player.endStream_eq]
  split
  · next hjump =>
    -- the loop point lies in the stream, so what follows it can be asked for
    obtain ⟨hne, hlt⟩ := h.cached hjump.2
    have hsource : (p.loop + UInt32.ofNat regionSize).toNat = p.loop.toNat + regionSize :=
      toNat_add_regionSize (by simp only [regionSize]; omega)
    refine ⟨_, Fifo.toList_pushAll _ _, ?_⟩
    refine of_jump h.sound.start_lt rfl rfl
      ⟨Nat.le_refl _, by decide⟩ hsource ?_ h.linear (h.loop hjump.2) h.loop h.cached
      (fun _ => hjump.2)
    rw [hsource]
    simp only [regionSize]
    omega
  · refine ⟨_, Fifo.toList_pushAll _ _, ?_⟩
    exact of_rewind h.sound.start_lt rfl h.linear h.loop h.cached

end Shows
end ChipReplay
