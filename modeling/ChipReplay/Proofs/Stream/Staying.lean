import ChipReplay.Proofs.Stream.Passing
/-!
# Streams that fit the linear region

A player of a stream that fits the linear region stays in that region until it jumps to its loop
point, and in the loop region after that, if what lies behind the loop point fits there
(`Player.Stays`). An update reads only in the region in which it begins, and leads to a player that
has moved on there, or has come to the end of the stream (`Stays.update`). It asks for the loop
region at most, and at the end of the stream for what would follow.
-/

namespace ChipReplay

open Bytes

/-- The refill is one of A or B with what follows a stream of `size` bytes. -/
def Refill.Follows (size : Nat) (r : Refill) : Prop :=
  ∃ region source, region.isRefilled = true ∧ size ≤ source.toNat ∧ r = ofRegion region source

theorem Refill.follows_preload {size : Nat} {source : UInt32} (hsize : size ≤ source.toNat)
    (hroom : source.toNat + regionSize < 2 ^ 32) :
    ∀ r ∈ Player.preload source, r.Follows size := by
  intro r hr
  rw [Player.preload, List.mem_cons, List.mem_singleton] at hr
  rcases hr with rfl | rfl
  · exact ⟨.a, source, rfl, hsize, rfl⟩
  · refine ⟨.b, _, rfl, ?_, rfl⟩
    rw [toNat_add_regionSize hroom]
    omega

/-- The linear and the loop region are left alone by it. -/
theorem Refill.Follows.not_covers {size : Nat} {r : Refill} (h : r.Follows size) {region : Region}
    (hregion : region.isRefilled = false) {i : Nat} (hi : region.Spans i 1) : ¬ r.Covers i := by
  obtain ⟨other, source, hother, -, rfl⟩ := h
  rw [Refill.covers_ofRegion (Region.ne_linear hother)]
  intro hcovers
  obtain rfl := Region.eq_of_mem hcovers hi
  rw [hregion] at hother
  cases hother

theorem Refill.not_follows_loop {size : Nat} {source : UInt32} :
    ¬ (Refill.ofRegion .loop source).Follows size := by
  intro h
  have hstart : Region.loop.Spans Region.loop.start 1 := ⟨Nat.le_refl _, by decide⟩
  refine h.not_covers (show Region.loop.isRefilled = false from rfl) hstart ?_
  rw [Refill.covers_ofRegion (by decide)]
  exact hstart

/-- The refill of the loop region leaves the linear region alone. -/
theorem Refill.not_covers_of_linear {source : UInt32} {i : Nat} (hi : Region.linear.Spans i 1) :
    ¬ (Refill.ofRegion .loop source).Covers i := by
  rw [Refill.covers_ofRegion (by decide)]
  intro hcovers
  exact absurd (Region.eq_of_mem hcovers hi) (by decide)

/-- A stream of `size` bytes fits the linear region, and what lies behind its loop point, if there
is one, the loop region. -/
structure Short (size : Nat) (start loop : UInt32) : Prop where
  linear : size ≤ linearEnd
  start_le : loop ≠ 0 → start.toNat ≤ loop.toNat
  loop_lt : loop ≠ 0 → loop.toNat < size
  jump : loop ≠ 0 → size ≤ loop.toNat + regionSize

namespace Player

variable {p q : Player} {w : Window} {size : Nat}

theorem position_past_of_not_atEnd (hend : ¬ p.position.atEnd = true) :
    p.past.position = p.position.advance := by
  rw [position_past, Position.past, if_neg hend]

/-- `q` is `p` after it has read on in its region. It has asked for the loop region if it has come
to the loop point. -/
structure Moved (p q : Player) : Prop where
  start : q.start = p.start
  loop : q.loop = p.loop
  loopCount : q.loopCount = p.loopCount
  region : q.position.region = p.position.region
  cached : p.loopCached = true → q.loopCached = true
  requests : q.requests.toList = p.requests.toList ++
    if p.loopCached = q.loopCached then [] else [.ofRegion .loop p.loop]

namespace Moved

theorem refl (p : Player) : p.Moved p := by
  refine ⟨rfl, rfl, rfl, rfl, id, ?_⟩
  rw [if_pos rfl, List.append_nil]

theorem trans {r : Player} (h : p.Moved q) (h' : q.Moved r) : p.Moved r where
  start := h'.start.trans h.start
  loop := h'.loop.trans h.loop
  loopCount := h'.loopCount.trans h.loopCount
  region := h'.region.trans h.region
  cached := h'.cached ∘ h.cached
  requests := by
    rw [h'.requests, h.requests, h.loop, List.append_assoc]
    have hfirst := h.cached
    have hsecond := h'.cached
    -- once the loop region has been asked for, it is not asked for again
    cases hp : p.loopCached <;> cases hq : q.loopCached <;> cases hr : r.loopCached <;> simp_all

/-- A read inside a region leads on in it. -/
theorem past (hend : ¬ p.position.atEnd = true) : p.Moved p.past := by
  refine ⟨p.start_past, p.loop_past, p.loopCount_past, ?_, ?_, ?_⟩
  · rw [position_past_of_not_atEnd hend]
    rfl
  · intro hcached
    rw [loopCached_past, loopCachedPast, hcached, Bool.true_or]
  -- the loop region is asked for in the read that comes to the loop point
  · rw [toList_requests_past, leaveRefills, if_neg (by simp [hend]), List.nil_append,
      loopCached_past, loopCachedPast, loopRefills]
    cases p.loopCached <;> by_cases hdue : p.loop ≠ 0 ∧ p.loop ≤ p.streamOffset <;> simp [hdue]

/-- What is asked for on the way is the loop region. -/
theorem mem_requests (h : p.Moved q) {r : Refill} (hr : r ∈ q.requests.toList) :
    r ∈ p.requests.toList ∨
      p.loopCached = false ∧ q.loopCached = true ∧ r = .ofRegion .loop p.loop := by
  rw [h.requests, List.mem_append] at hr
  refine hr.imp_right fun hasked => ?_
  split at hasked
  · cases hasked
  · next hne =>
    have hnot : p.loopCached = false :=
      eq_false_of_ne_true fun hcached => hne (by rw [hcached, h.cached hcached])
    rw [hnot] at hne
    exact ⟨hnot, eq_true_of_ne_false (Ne.symm hne), List.mem_singleton.mp hasked⟩

end Moved

/-- The player reads the linear or the loop region, which holds the rest of a stream of `size`
bytes, and has asked for the loop region if it has come to the loop point. -/
structure Stays (size : Nat) (p : Player) : Prop extends p.Sound where
  region : p.position.region.isRefilled = false
  room : size ≤ p.position.endOffset
  behind : p.loop ≠ 0 → p.loopCached = false → p.position.offset ≤ p.loop.toNat

namespace Stays

/-- Nothing else of the player matters. -/
theorem congr (h : p.Stays size) (hstart : q.start = p.start) (hloop : q.loop = p.loop)
    (hposition : q.position = p.position) (hcached : q.loopCached = p.loopCached) :
    q.Stays size where
  toSound := h.toSound.congr hstart hposition hcached
  region := hposition ▸ h.region
  room := hposition ▸ h.room
  behind := by
    rw [hloop, hcached, hposition]
    exact h.behind

/-- As long as the loop region has not been asked for, the player is in the linear region. -/
theorem linear (h : p.Stays size) (hcached : p.loopCached = false) :
    p.position.region = .linear := by
  cases hregion : p.position.region with
  | linear => rfl
  | loop => rw [h.inLoop hregion] at hcached; cases hcached
  | a | b =>
    have hrefilled := h.region
    rw [hregion] at hrefilled
    cases hrefilled

theorem not_atEnd (h : p.Stays size) (hread : p.position.offset < size) :
    ¬ p.position.atEnd = true := by
  intro hend
  have hoffset := h.inside.offset_of_atEnd hend
  have hroom := h.room
  omega

/-- A read of the stream leads on in the region. -/
theorem past (h : p.Stays size) (hsize : size < 2 ^ 32) (hread : p.position.offset < size) :
    p.Moved p.past ∧ p.past.Stays size ∧ p.past.position.offset = p.position.offset + 1 := by
  have hend := h.not_atEnd hread
  have hposition := position_past_of_not_atEnd hend
  have hoffset : p.past.position.offset = p.position.offset + 1 := by
    have hentered := h.inside.entered_le
    rw [hposition]
    show p.position.base.toNat + (p.position.cursor + 1 - p.position.entered) = _
    rw [Position.offset]
    omega
  have hplace : p.streamOffset.toNat = p.position.offset := by
    show p.position.streamOffset.toNat = _
    rw [Position.streamOffset_eq, UInt32.toNat_ofNat_of_lt' (Nat.lt_trans hread hsize)]
  refine ⟨.past hend, ⟨h.toSound.past, ?_, ?_, fun hne hcached => ?_⟩, hoffset⟩
  · rw [hposition]
    exact h.region
  · rw [hposition]
    exact h.room
  · rw [loop_past] at hne ⊢
    rw [loopCached_past, loopCachedPast, Bool.or_eq_false_iff, decide_eq_false_iff_not] at hcached
    have hlt : ¬ p.loop ≤ p.streamOffset := fun hle => hcached.2 ⟨hne, hle⟩
    rw [UInt32.le_iff_toNat_le, hplace] at hlt
    omega

theorem readOffsets_mem (h : p.Stays size) (hsize : size < 2 ^ 32) {n : Nat}
    (hroom : p.position.offset + n ≤ size) :
    ∀ i ∈ readOffsets n p, p.position.region.Spans i 1 := by
  induction n generalizing p with
  | zero => exact fun i hi => absurd hi List.not_mem_nil
  | succ n ih =>
    have hend := h.not_atEnd (by omega)
    obtain ⟨hmoved, hpast, hoffset⟩ := h.past hsize (by omega)
    have hlater := ih hpast (by omega)
    rw [hmoved.region] at hlater
    rw [readOffsets, List.forall_mem_cons]
    refine ⟨?_, hlater⟩
    have hmem := h.inside.readOffset_mem
    rwa [Position.readRegion, if_neg hend] at hmem

/-- The end of the stream leads to the loop point, or back to the first command. -/
theorem endStream (h : p.Stays size) (hshort : Short size p.start p.loop) :
    p.endStream.Stays size := by
  refine ⟨h.toSound.endStream, ?_, ?_, ?_⟩ <;> rw [endStream_eq] <;> split
  · rfl
  · rfl
  · next hjump =>
    show size ≤ p.loop.toNat + (Region.loop.stop - Region.loop.start)
    rw [Region.stop_eq (by decide), Nat.add_sub_cancel_left]
    exact hshort.jump hjump.1
  · show size ≤ p.start.toNat + (linearEnd - p.start.toNat)
    have hlinear := hshort.linear
    omega
  · next hjump => exact fun _ hcached => absurd (hjump.2.symm.trans hcached) Bool.true_eq_false.mp
  · intro hne _
    show p.start.toNat + (p.start.toNat - p.start.toNat) ≤ p.loop.toNat
    have hle := hshort.start_le hne
    omega

end Stays

/-- What comes of a player that stays: it moves on, and may then come to the end of the stream. -/
inductive Stayed (size : Nat) (p q : Player) : Prop
  | moved (hmoved : p.Moved q) (hstays : q.Stays size)
  | ended (m : Player) (hmoved : p.Moved m) (hstays : m.Stays size) (hends : q = m.endStream)

theorem loopCached_endStream (p : Player) : p.endStream.loopCached = p.loopCached := by
  rw [endStream_eq]
  split <;> rfl

namespace Stayed

theorem cached (h : Stayed size p q) (hcached : p.loopCached = true) : q.loopCached = true := by
  cases h with
  | moved hmoved hstays => exact hmoved.cached hcached
  | ended m hmoved hstays hends =>
    rw [hends, loopCached_endStream]
    exact hmoved.cached hcached

theorem stays (h : Stayed size p q) (hshort : Short size p.start p.loop) : q.Stays size := by
  cases h with
  | moved hmoved hstays => exact hstays
  | ended m hmoved hstays hends =>
    rw [hends]
    refine hstays.endStream ?_
    rw [hmoved.start, hmoved.loop]
    exact hshort

/-- Without an end of the stream the player only moves on. -/
theorem moved_of_loopCount (h : Stayed size p q) (hcount : q.loopCount = p.loopCount) :
    p.Moved q := by
  cases h with
  | moved hmoved hstays => exact hmoved
  | ended m hmoved hstays hends =>
    have hnext : q.loopCount = p.loopCount + 1 := by
      rw [hends, endStream_eq, ← hmoved.loopCount]
      split <;> rfl
    rw [hnext] at hcount
    exact absurd hcount (by simp)

/-- What is asked for is the loop region, or follows the stream. -/
theorem mem_requests (h : Stayed size p q) (hshort : Short size p.start p.loop) {r : Refill}
    (hr : r ∈ q.requests.toList) :
    r ∈ p.requests.toList ∨ r.Follows size ∨
      p.loopCached = false ∧ q.loopCached = true ∧ r = .ofRegion .loop p.loop := by
  cases h with
  | moved hmoved hstays => exact (hmoved.mem_requests hr).imp_right .inr
  | ended m hmoved hstays hends =>
    have hlinear := hshort.linear
    rw [hends, loopCached_endStream]
    unfold linearEnd at hlinear
    rw [hends, endStream_eq] at hr
    split at hr <;> rw [Fifo.toList_pushAll, List.mem_append] at hr
    · next hjump =>
      rw [hmoved.loop] at hjump hr
      have hlt := hshort.loop_lt hjump.1
      have hsource : (p.loop + UInt32.ofNat regionSize).toNat = p.loop.toNat + regionSize :=
        toNat_add_regionSize (by unfold regionSize; omega)
      rcases hr with hr | hr
      · exact (hmoved.mem_requests hr).imp_right .inr
      · refine .inr (.inl (Refill.follows_preload ?_ ?_ r hr)) <;> rw [hsource]
        · exact hshort.jump hjump.1
        · unfold regionSize
          omega
    · rcases hr with hr | hr
      · exact (hmoved.mem_requests hr).imp_right .inr
      · refine .inr (.inl (Refill.follows_preload ?_ ?_ r hr)) <;> rw [toNat_linearEnd]
        · exact hshort.linear
        · decide

/-- If the player had asked for the loop region, or has not done so yet, what is asked for follows
the stream. -/
theorem follows (h : Stayed size p q) (hshort : Short size p.start p.loop)
    (hidle : p.requests.toList = []) (hno : p.loopCached = true ∨ q.loopCached = false) :
    ∀ r ∈ q.requests.toList, r.Follows size := by
  intro r hr
  rcases h.mem_requests hshort hr with hr | hr | ⟨hnot, hdone, -⟩
  · exact absurd (hidle ▸ hr) List.not_mem_nil
  · exact hr
  · rcases hno with hno | hno
    · exact absurd (hno.symm.trans hnot) (by decide)
    · exact absurd (hno.symm.trans hdone) (by decide)

/-- If it had asked for the loop region and has not come to the end of the stream, it asks for
nothing. -/
theorem asks_nothing (h : Stayed size p q) (hcount : q.loopCount = p.loopCount)
    (hcached : p.loopCached = true) (hidle : p.requests.toList = []) :
    p.Moved q ∧ q.requests.toList = [] := by
  have hmoved := h.moved_of_loopCount hcount
  refine ⟨hmoved, ?_⟩
  rw [hmoved.requests, hidle, hcached, hmoved.cached hcached, if_pos rfl]
  rfl

end Stayed

/-! ## Turns -/

theorem Stays.emit (h : p.Stays size) (chip : Recorder) (port : Port) (register data : UInt8) :
    p.Moved (p.emit chip port register data).1 ∧
      (p.emit chip port register data).1.Stays size := by
  rw [emit_fst]
  refine ⟨⟨rfl, rfl, rfl, rfl, id, ?_⟩, h.congr rfl rfl rfl rfl⟩
  rw [if_pos rfl, List.append_nil]

/-- A command of the stream leads on in the region, or to the end of the stream. -/
theorem Stays.turn (h : p.Stays size) (hsize : size < 2 ^ 32)
    (hroom : p.position.offset + (1 + (p.opcode w).operands) ≤ size) (chip : Recorder)
    (hgoes : (p.turn w chip).1.outcome.error = none) :
    Stayed size p (p.turn w chip).2.1 ∧
      ((p.turn w chip).1 = .proceeds →
        p.Moved (p.turn w chip).2.1 ∧ (p.turn w chip).2.1.Stays size) := by
  obtain ⟨hmoved, hone, hoffset⟩ := h.past hsize (by omega)
  have hthree (hmore : (p.opcode w).operands = 2) :
      p.Moved p.past.past.past ∧ p.past.past.past.Stays size := by
    obtain ⟨hmoved₂, htwo, hoffset₂⟩ := hone.past hsize (by omega)
    obtain ⟨hmoved₃, hthree, -⟩ := htwo.past hsize (by omega)
    exact ⟨(hmoved.trans hmoved₂).trans hmoved₃, hthree⟩
  have hstays {q : Player} (hq : p.Moved q ∧ q.Stays size) : Stayed size p q := .moved hq.1 hq.2
  rcases hanswer : p.askChip w chip with ⟨_ | _, chip'⟩
  · obtain ⟨hturn, -⟩ := turn_of_not_ready hanswer
    rw [hturn]
    exact ⟨hstays ⟨.refl p, h⟩, fun hproceeds => by cases hproceeds⟩
  · rw [Player.turn, hanswer] at hgoes ⊢
    dsimp only at hgoes ⊢
    rw [step_eq] at hgoes ⊢
    cases hop : p.opcode w with
    | write port =>
      obtain ⟨hmoved₃, hthree⟩ := hthree (by rw [hop]; rfl)
      obtain ⟨hemitted, hkept⟩ := hthree.emit chip' port (p.past.peek w) (p.past.past.peek w)
      exact ⟨hstays ⟨hmoved₃.trans hemitted, hkept⟩, fun _ => ⟨hmoved₃.trans hemitted, hkept⟩⟩
    | wait => exact ⟨hstays (hthree (by rw [hop]; rfl)), fun _ => hthree (by rw [hop]; rfl)⟩
    | pause => exact ⟨hstays ⟨hmoved, hone⟩, fun _ => ⟨hmoved, hone⟩⟩
    | endOfStream =>
      refine ⟨.ended p.past hmoved hone rfl, fun hproceeds => ?_⟩
      dsimp only at hproceeds
      exact absurd rfl (Ending.ofStep_eq_proceeds hproceeds).1
    | dataBlock | unknown =>
      rw [hop] at hgoes
      cases hgoes

end Player

/-! ## Updates -/

section

variable {stream : ByteArray} {start loop : UInt32} {first later : List Located} {w : Window}
  {waiting : List Refill} {p q : Player} {f : FlatPlayer} {k : Nat} {part : List Located}

open Player

/-- If the region has come, it still has once the player has moved on in it. -/
theorem Player.Moved.clear (h : p.Moved q) (hstays : p.Stays stream.size)
    (hclear : ∀ i, p.position.region.Spans i 1 → Clear waiting p i) :
    ∀ i, q.position.region.Spans i 1 → Clear waiting q i := by
  intro i hi r hr
  rw [h.region] at hi
  rcases List.mem_append.mp hr with hr | hr
  · exact hclear i hi r (List.mem_append_left _ hr)
  · rcases h.mem_requests hr with hr | ⟨hcached, -, rfl⟩
    · exact hclear i hi r (List.mem_append_right _ hr)
    · rw [hstays.linear hcached] at hi
      exact Refill.not_covers_of_linear hi

/-- The command that is looked at lies in the stream. -/
theorem Player.Stays.command_fits (h : p.Stays stream.size)
    (hplayable : Playable stream start loop first later) (hagree : Agrees f p)
    (hready : Ready stream w waiting p)
    (hclear : ∀ i, p.position.region.Spans i 1 → Clear waiting p i)
    (hmid : Midway stream start loop first later f k part) :
    p.position.offset + (1 + (p.opcode w).operands) ≤ stream.size := by
  obtain ⟨c, hcommand, hblock, -⟩ := hmid.next hplayable
  have hfits := hcommand.fits
  have hoffset := hagree.position
  have hlow := hcommand.lt_size
  have hsize := hplayable.size_lt
  have hread : p.position.region.Spans p.position.readOffset 1 :=
    h.readOffsets_mem (by omega) (n := 1) (by omega) _ List.mem_cons_self
  obtain ⟨-, hop⟩ := hagree.opcode hready (hclear _ hread) hlow
  rw [hop, FlatPlayer.opcode_of_at hcommand, ← Command.length_eq hblock]
  omega

/-- Turns that play the stream read only in the region, and lead on in it or to the end of the
stream. -/
theorem Player.Stays.playUpTo (h : p.Stays stream.size)
    (hplayable : Playable stream start loop first later) (hagree : Agrees f p)
    (hready : Ready stream w waiting p)
    (hclear : ∀ i, p.position.region.Spans i 1 → Clear waiting p i)
    (hmid : Midway stream start loop first later f k part) (limit : Nat) (chip : Recorder)
    (timer : Timer) :
    (∀ i ∈ (visitsUpTo w limit p chip).flatMap (turnReads w), p.position.region.Spans i 1) ∧
      Stayed stream.size p (Player.playUpTo w limit p chip timer).2.1 := by
  induction limit generalizing p f part chip with
  | zero => exact ⟨fun i hi => absurd hi List.not_mem_nil, .moved (.refl p) h⟩
  | succ limit ih =>
    have hsize := hplayable.size_lt
    have hroom := h.command_fits hplayable hagree hready hclear hmid
    have hfirst : ∀ i ∈ turnReads w (p, chip), p.position.region.Spans i 1 := by
      have hall := h.readOffsets_mem (by omega) hroom
      rw [turnReads, List.forall_mem_cons]
      refine ⟨hall _ (by rw [Nat.add_comm, readOffsets]; exact List.mem_cons_self), ?_⟩
      split
      · exact hall
      · exact fun i hi => absurd hi List.not_mem_nil
    obtain ⟨ending, q, chip', g, k', part', hturn, hagree', hready', hmid', -, hsame, herror, -⟩ :=
      turn_plays hplayable hagree hready (fun i hi => hclear i (hfirst i hi)) hmid
    have hstays := h.turn (w := w) (by omega) hroom chip
    rw [visitsUpTo, List.flatMap_cons, List.forall_mem_append, playUpTo_succ]
    rw [hturn] at hstays ⊢
    obtain ⟨hstayed, hproceeds⟩ := hstays herror
    cases ending with
    | proceeds =>
      obtain ⟨rfl, -⟩ := hsame rfl
      obtain ⟨hmoved, hq⟩ := hproceeds rfl
      obtain ⟨hreads, hlater⟩ := ih hq hagree' hready' (hmoved.clear h hclear) hmid' chip'
      rw [hmoved.region] at hreads
      refine ⟨⟨hfirst, hreads⟩, ?_⟩
      cases hlater with
      | moved hmoved' hstays' => exact .moved (hmoved.trans hmoved') hstays'
      | ended m hmoved' hstays' hends => exact .ended m (hmoved.trans hmoved') hstays' hends
    | busy | waits | yields | fails =>
      exact ⟨⟨hfirst, fun i hi => absurd hi List.not_mem_nil⟩, hstayed⟩

/-- An update that plays the stream reads only in the region, and leads on in it or to the end of
the stream. The refills asked for on the way are handed out. -/
theorem Player.Stays.update (h : p.Stays stream.size)
    (hplayable : Playable stream start loop first later) (hagree : Agrees f p)
    (hready : Ready stream w waiting p)
    (hclear : ∀ i, p.position.region.Spans i 1 → Clear waiting p i)
    (hmid : Midway stream start loop first later f k part) (chip : Recorder) (timer : Timer) :
    let u := p.update w chip timer
    (∀ i ∈ p.reads w chip, p.position.region.Spans i 1) ∧
      ∃ q, Stayed stream.size p q ∧ u.player = { q with requests := u.player.requests } ∧
        u.request.toList ++ u.player.requests.toList = q.requests.toList := by
  have hphase := hagree.playing.mp hmid.playing
  obtain ⟨hreads, hend⟩ := h.playUpTo hplayable hagree hready hclear hmid p.commandLimit chip timer
  rw [Player.reads, visits, if_pos hphase, Player.update, if_pos hphase]
  generalize Player.playUpTo w p.commandLimit p chip timer = t at hend
  obtain ⟨outcome, q, chip', timer'⟩ := t
  obtain ⟨requests, htaken, hqueue⟩ := q.takeRequest_eq
  refine ⟨hreads, q, hend, ?_, ?_⟩
  · dsimp only
    rw [htaken]
  · dsimp only
    rw [htaken, hqueue]

end
end ChipReplay
