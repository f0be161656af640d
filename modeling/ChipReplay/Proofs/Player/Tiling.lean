import ChipReplay.Proofs.Player.History
/-!
# Refills tile the stream

`Fits` says of an entry what it may be after those before it, and `refills_tile` that every entry of
every history is such: the refills of A and B in a pass are for the parts of the stream that follow
one another from its base on, a region is entered where it was last asked for, and the loop region
is asked for once, from outside of it and before it is entered.

What carries the induction is `Tracks`, which ties the position of the player to the refills that
were asked for last. Offsets are 32-bit words throughout: nothing depends on their not wrapping.
-/

namespace ChipReplay

namespace History

/-- What `e` may be after `past`. -/
def Fits (past : List Entry) : Entry → Prop
  | .started .. | .restarted _ => True
  | .looped loop => loop = loopPoint past ∧ loopAsked past = true
  | .asked .loop source inside =>
    source = loopPoint past ∧ loopAsked past = false ∧ inside ≠ .loop
  | .asked region source _ => (region, source) = tile (passBase past) (passRefills past).length
  | .entered region base => (region = .a ∨ region = .b) ∧ newest region past = some base

/-- Every entry fits those before it. -/
def Lawful : List Entry → Prop
  | [] => True
  | e :: past => Fits past e ∧ Lawful past

/-- Whenever a pass starts, A and B are asked for at once. -/
def Complete (history : List Entry) : Prop :=
  ∀ later e past base, history = later ++ e :: past → passStart? e = some base →
    ∃ rest inside, later = rest ++
      [.asked .b (base + UInt32.ofNat regionSize) inside, .asked .a base inside]

theorem fits_asked {region : Region} (h : region ≠ .loop) {past : List Entry} {source : UInt32}
    {inside : Region} :
    Fits past (.asked region source inside) ↔
      (region, source) = tile (passBase past) (passRefills past).length := by
  cases region <;> first | exact Iff.rfl | exact absurd rfl h

theorem passRefills_asked {region : Region} (h : region ≠ .loop) (past : List Entry)
    (source : UInt32) (inside : Region) :
    passRefills (.asked region source inside :: past) = passRefills past ++ [(region, source)] := by
  cases region <;> first | rfl | exact absurd rfl h

theorem loopAsked_asked {region : Region} (h : region ≠ .loop) (past : List Entry)
    (source : UInt32) (inside : Region) :
    loopAsked (.asked region source inside :: past) = loopAsked past := by
  cases region <;> first | rfl | exact absurd rfl h

theorem newest_asked (region : Region) (past : List Entry) (source : UInt32) (inside : Region) :
    newest region (.asked region source inside :: past) = some source :=
  if_pos rfl

theorem newest_asked_other {region other : Region} (h : other ≠ region) (past : List Entry)
    (source : UInt32) (inside : Region) :
    newest region (.asked other source inside :: past) = newest region past :=
  if_neg h

/-- A pass starts with no refill of A and B. -/
theorem passRefills_of_passStart {e : Entry} {base : UInt32} (h : passStart? e = some base)
    (past : List Entry) : passRefills (e :: past) = [] := by
  cases e <;> first | rfl | exact absurd h (by simp [passStart?])

theorem passBase_of_passStart {e : Entry} {base : UInt32} (h : passStart? e = some base)
    (past : List Entry) : passBase (e :: past) = base := by
  rw [passBase, h]
  rfl

/-! ## Passes -/

theorem Complete.cons {history : List Entry} (h : Complete history) {e : Entry}
    (he : passStart? e = none) : Complete (e :: history) := by
  intro later e' past base heq hpass
  cases later with
  | nil =>
    obtain ⟨rfl, -⟩ := List.cons.inj heq
    exact absurd (he.symm.trans hpass) (by simp)
  | cons f later =>
    obtain ⟨rfl, hrest⟩ := List.cons.inj heq
    obtain ⟨rest, inside, rfl⟩ := h later e' past base hrest hpass
    exact ⟨e :: rest, inside, rfl⟩

/-- A pass that starts is complete once A and B have been asked for. -/
theorem Complete.preload {history : List Entry} (h : Complete history) {e : Entry} {base : UInt32}
    (he : passStart? e = some base) (inside : Region) :
    Complete (Player.preloadOnto base inside (e :: history)) := by
  intro later e' past base' heq hpass
  unfold Player.preloadOnto at heq
  -- the pass starts with `e`, or with an entry before it
  rcases later with _ | ⟨x, _ | ⟨y, _ | ⟨z, later⟩⟩⟩ <;>
    simp only [List.cons_append, List.nil_append, List.cons.injEq] at heq
  · obtain ⟨rfl, -⟩ := heq
    exact absurd hpass (by simp [passStart?])
  · obtain ⟨-, rfl, -⟩ := heq
    exact absurd hpass (by simp [passStart?])
  · obtain ⟨rfl, rfl, rfl, -⟩ := heq
    obtain rfl := Option.some.inj (he.symm.trans hpass)
    exact ⟨[], inside, rfl⟩
  · obtain ⟨rfl, rfl, rfl, hrest⟩ := heq
    obtain ⟨rest, inside', rfl⟩ := h later e' past base' hrest hpass
    exact ⟨_ :: _ :: e :: rest, inside', rfl⟩

/-! ## Tiles -/

theorem tile_zero (base : UInt32) : tile base 0 = (.a, base) := by
  rw [tile, Nat.zero_mul]
  exact congrArg _ (UInt32.add_zero base)

/-- The next tile is for the other region and for the next part of the stream. -/
theorem tile_succ (base : UInt32) (k : Nat) :
    tile base (k + 1) = ((tile base k).1.next, (tile base k).2 + UInt32.ofNat regionSize) := by
  unfold tile
  rw [Nat.succ_mul, UInt32.ofNat_add, UInt32.add_assoc]
  refine congrArg (·, _) ?_
  -- the regions alternate, so only the parity of `k` matters
  by_cases heven : k % 2 = 0
  · rw [if_pos heven, if_neg (by omega)]
    rfl
  · rw [if_neg heven, if_pos (by omega)]
    rfl

/-- The refills of a pass are its tiles. -/
theorem passRefills_eq {history : List Entry} (h : Lawful history) :
    passRefills history =
      (List.range (passRefills history).length).map (tile (passBase history)) := by
  induction history with
  | nil => rfl
  | cons e past ih =>
    have hpast := ih h.2
    cases e with
    | started | restarted | looped => rfl
    | entered => exact hpast
    | asked region source inside =>
      by_cases hregion : region = .loop
      · subst hregion
        exact hpast
      -- the new refill is the tile after those before it
      · have hfits := (fits_asked hregion).mp h.1
        have hbase : passBase (.asked region source inside :: past) = passBase past := rfl
        rw [passRefills_asked hregion, hbase, List.length_append, List.length_singleton,
          List.range_succ, List.map_append, ← hpast, List.map_singleton, ← hfits]

end History
/-! ## The invariant -/

/-- Stream offset of the first byte past the region. -/
def Position.endBase (q : Position) : UInt32 := q.base + UInt32.ofNat (q.region.stop - q.entered)

theorem Position.Inside.streamOffset_of_atEnd {q : Position} (h : q.Inside)
    (hend : q.atEnd = true) : q.streamOffset = q.endBase := by
  have hcursor : q.cursor = q.region.stop := Nat.le_antisymm h.le_stop (atEnd_iff.mp hend)
  rw [streamOffset, endBase, hcursor]

/-- A whole region further. -/
theorem Position.endBase_enter {region : Region} (h : region ≠ .linear) (base : UInt32) :
    (enter region region.start base).endBase = base + UInt32.ofNat regionSize := by
  have hsize : region.stop - region.start = regionSize := by
    rw [Region.stop_eq h, Nat.add_sub_cancel_left]
  show base + UInt32.ofNat (region.stop - region.start) = _
  rw [hsize]

/-- The linear region ends where A begins, wherever the playback starts in it. -/
theorem Position.endBase_start {start : UInt32} (h : start.toNat < linearEnd) :
    (enter .linear start.toNat start).endBase = UInt32.ofNat linearEnd := by
  have hsum : start.toNat + (linearEnd - start.toNat) = linearEnd := by omega
  show start + UInt32.ofNat (linearEnd - start.toNat) = _
  rw [← hsum, UInt32.ofNat_add, UInt32.ofNat_toNat, hsum]

open History

/-- The player is where its history says, and has been handed out what is no longer in its
queue. -/
structure Tracks (history : List Entry) (handedOut : List Refill) (p : Player) : Prop where
  lawful : Lawful history
  complete : Complete history
  queue : refills history = handedOut ++ p.requests.toList
  loop : loopPoint history = p.loop
  cached : loopAsked history = p.loopCached
  place : History.place history = some (p.position.region, p.position.base)
  /-- A region that is refilled was last asked for with what the cursor reads there. -/
  here : p.position.region.isRefilled = true →
    newest p.position.region history = some p.position.base
  /-- The next region was last asked for with what follows. -/
  ahead : newest p.position.region.next history = some p.position.endBase
  /-- Before A and B are entered, B was last asked for with what follows A. -/
  second : p.position.region.isRefilled = false →
    newest .b history = some (p.position.endBase + UInt32.ofNat regionSize)
  /-- What a region will be asked for when it is left is the next tile. -/
  tiled : p.position.region.isRefilled = true →
    (p.position.region, p.position.endBase + UInt32.ofNat regionSize) =
      tile (passBase history) (passRefills history).length
  /-- Before A and B are entered, both have been asked for once. -/
  untiled : p.position.region.isRefilled = false →
    passBase history = p.position.endBase ∧ (passRefills history).length = 2

namespace Tracks

variable {history : List Entry} {handedOut : List Refill} {p : Player}

/-- Only the cursor moves. -/
theorem advance (h : Tracks history handedOut p) :
    Tracks history handedOut { p with position := p.position.advance } :=
  { h with }

/-- The next region is entered once the one that is left has been asked for. -/
theorem enter (hsound : p.Sound) (hend : p.position.atEnd = true) (hlawful : Lawful history)
    (hcomplete : Complete history)
    (hqueue : refills history = handedOut ++ (p.requests.toList ++ p.leaveRefills))
    (hloop : loopPoint history = p.loop) (hcached : loopAsked history = p.loopCached)
    (hnext : newest p.position.region.next history = some p.position.endBase)
    (hnext2 : newest p.position.region.next.next history =
      some (p.position.endBase + UInt32.ofNat regionSize))
    (htile : (p.position.region.next,
        p.position.endBase + UInt32.ofNat regionSize + UInt32.ofNat regionSize) =
      tile (passBase history) (passRefills history).length) :
    Tracks (.entered p.position.region.next p.streamOffset :: history) handedOut p.cross := by
  have hoffset : p.streamOffset = p.position.endBase := hsound.inside.streamOffset_of_atEnd hend
  have hregion := Region.isRefilled_next p.position.region
  have hbase := Position.endBase_enter (Region.next_ne_linear p.position.region) p.position.endBase
  -- whatever is left, A or B is entered
  have hab : p.position.region.next = .a ∨ p.position.region.next = .b := by
    cases p.position.region <;> decide
  rw [Player.cross_eq hend, hoffset]
  refine
    { lawful := ⟨⟨hab, hnext⟩, hlawful⟩
      complete := hcomplete.cons rfl
      queue := ?_
      loop := hloop
      cached := hcached
      place := rfl
      here := fun _ => hnext
      ahead := ?_
      second := fun hno => ?_
      tiled := fun _ => ?_
      untiled := fun hno => ?_ }
  · rw [Fifo.toList_pushAll]
    exact hqueue
  · rw [hbase]
    exact hnext2
  · exact absurd (hno.symm.trans hregion) (by decide)
  · rw [hbase]
    exact htile
  · exact absurd (hno.symm.trans hregion) (by decide)

/-- Moving into the next region. -/
theorem cross (h : Tracks history handedOut p) (hsound : p.Sound)
    (hend : p.position.atEnd = true) : Tracks (p.crossOnto history) handedOut p.cross := by
  have hoffset : p.streamOffset = p.position.endBase := hsound.inside.streamOffset_of_atEnd hend
  unfold Player.crossOnto
  dsimp only
  by_cases hregion : p.position.region.isRefilled = true
  -- A or B is left: it is asked for again, and the other one comes next
  · have hloop := Region.ne_loop hregion
    have hne := Region.next_ne p.position.region
    have hnext2 := Region.next_next hregion
    have hleave : p.leaveRefills = [.ofRegion p.position.region
        (p.streamOffset + UInt32.ofNat regionSize)] := if_pos ⟨hend, hregion⟩
    have htiled := h.tiled hregion
    rw [hoffset] at hleave
    rw [if_pos hregion]
    refine enter hsound hend ⟨?_, h.lawful⟩ (h.complete.cons rfl) ?_ h.loop ?_ ?_ ?_ ?_
    · rw [fits_asked hloop, hoffset]
      exact htiled
    · rw [refills, h.queue, hleave, hoffset, List.append_assoc]
    · rw [loopAsked_asked hloop]
      exact h.cached
    · rw [newest_asked_other hne.symm]
      exact h.ahead
    · rw [hnext2, newest_asked, hoffset]
    · rw [passRefills_asked hloop, List.length_append, List.length_singleton]
      show _ = tile (passBase history) _
      rw [tile_succ, ← htiled]
  -- nothing is handed back: A comes next, and B has been asked for with A
  · have hregion : p.position.region.isRefilled = false := by simpa using hregion
    have hleave : p.leaveRefills = [] := by simp [Player.leaveRefills, hregion]
    have hnext := Region.next_of_not_isRefilled hregion
    rw [if_neg (by simp [hregion])]
    obtain ⟨hpass, hcount⟩ := h.untiled hregion
    refine enter hsound hend h.lawful h.complete ?_ h.loop h.cached h.ahead ?_ ?_
    · rw [hleave, List.append_nil]
      exact h.queue
    · rw [hnext]
      exact h.second hregion
    · rw [hcount, hpass, hnext, tile_succ, tile_succ, tile_zero]
      rfl

/-- Coming to the loop point from outside of the loop region. -/
theorem noticeLoop (h : Tracks history handedOut p)
    (hregion : p.loopCached = false → p.position.region ≠ .loop) :
    Tracks (p.noticeOnto history) handedOut p.noticeLoop := by
  rw [Player.noticeLoop_eq]
  unfold Player.noticeOnto Player.loopRefills Player.loopCachedPast
  by_cases hdue : p.loop ≠ 0 ∧ p.loopCached = false ∧ p.loop ≤ p.streamOffset
  · rw [if_pos hdue, if_pos hdue]
    -- no other region is asked for here
    have hnewest : ∀ region : Region, region ≠ .loop →
        newest region (.asked .loop p.loop p.position.region :: history) = newest region history :=
      fun region hne => newest_asked_other hne.symm history _ _
    refine
      { lawful := ⟨⟨h.loop.symm, h.cached.trans hdue.2.1, hregion hdue.2.1⟩, h.lawful⟩
        complete := h.complete.cons rfl
        queue := ?_
        loop := h.loop
        cached := ?_
        place := h.place
        here := fun hrefilled => ?_
        ahead := ?_
        second := fun hrefilled => ?_
        tiled := h.tiled
        untiled := h.untiled }
    · rw [refills, h.queue, Fifo.toList_pushAll, List.append_assoc]
    · simp [loopAsked, hdue.1, hdue.2.2]
    · rw [hnewest _ (Region.ne_loop hrefilled)]
      exact h.here hrefilled
    · rw [hnewest _ (Region.next_ne_loop _)]
      exact h.ahead
    · rw [hnewest _ (by decide)]
      exact h.second hrefilled
  · rw [if_neg hdue, if_neg hdue]
    have hcached : (p.loopCached || decide (p.loop ≠ 0 ∧ p.loop ≤ p.streamOffset)) =
        p.loopCached := by
      cases hbefore : p.loopCached with
      | true => rfl
      | false => simpa using fun hne hle => hdue ⟨hne, hbefore, hle⟩
    rw [hcached]
    exact { h with }

/-- Reading a byte. -/
theorem past (h : Tracks history handedOut p) (hsound : p.Sound) :
    Tracks (p.readOnto history) handedOut p.past := by
  unfold Player.readOnto Player.past
  by_cases hend : p.position.atEnd = true
  · rw [if_pos hend, if_pos hend]
    refine ((h.cross hsound hend).noticeLoop fun _ => ?_).advance
    rw [Player.cross_eq hend]
    exact Region.next_ne_loop _
  · rw [if_neg hend, if_neg hend]
    -- inside of the loop region it has been asked for, by soundness
    refine (h.noticeLoop fun hcached hregion => ?_).advance
    exact absurd (hsound.inLoop hregion) (by simp [hcached])

/-! ## Jumps -/

/-- A pass that starts outside of A and B asks for both. -/
theorem of_preload {e : Entry} {source : UInt32} {inside : Region} (he : passStart? e = some source)
    (hfits : Fits history e) (hlawful : Lawful history) (hcomplete : Complete history)
    (hposition : p.position.endBase = source) (hregion : p.position.region.isRefilled = false)
    (hqueue : refills (e :: history) ++ Player.preload source = handedOut ++ p.requests.toList)
    (hloop : loopPoint (e :: history) = p.loop)
    (hcached : loopAsked (e :: history) = p.loopCached)
    (hplace : History.place (e :: history) = some (p.position.region, p.position.base)) :
    Tracks (Player.preloadOnto source inside (e :: history)) handedOut p := by
  have hnone := passRefills_of_passStart he history
  have hbase := passBase_of_passStart he history
  -- the two refills are the first two tiles of the pass
  have hone : passRefills (.asked .a source inside :: e :: history) = [(.a, source)] := by
    rw [passRefills_asked (by decide), hnone, List.nil_append]
  have hfirst : Fits (e :: history) (.asked .a source inside) := by
    rw [fits_asked (by decide), hbase, hnone, List.length_nil, tile_zero]
  have hsecond : Fits (.asked .a source inside :: e :: history)
      (.asked .b (source + UInt32.ofNat regionSize) inside) := by
    rw [fits_asked (by decide), hone, List.length_singleton, passBase, passStart?,
      Option.getD_none, hbase, tile_succ, tile_zero]
    rfl
  refine
    { lawful := ⟨hsecond, hfirst, hfits, hlawful⟩
      complete := hcomplete.preload he inside
      queue := ?_
      loop := hloop
      cached := hcached
      place := hplace
      here := fun hrefilled => ?_
      ahead := ?_
      second := fun _ => ?_
      tiled := fun hrefilled => ?_
      untiled := fun _ => ⟨?_, ?_⟩ }
  · rw [← hqueue, Player.preloadOnto, refills, refills, List.append_assoc]
    rfl
  · exact absurd (hregion.symm.trans hrefilled) (by decide)
  · rw [Region.next_of_not_isRefilled hregion, hposition, Player.preloadOnto,
      newest_asked_other (by decide), newest_asked]
  · rw [hposition, Player.preloadOnto, newest_asked]
  · exact absurd (hregion.symm.trans hrefilled) (by decide)
  · rw [hposition]
    exact hbase
  · rw [Player.preloadOnto, passRefills_asked (by decide), hone]
    rfl

/-- Ending the stream. -/
theorem endStream (h : Tracks history handedOut p) (hsound : p.Sound) :
    Tracks (p.endOnto history) handedOut p.endStream := by
  rw [Player.endStream_eq]
  unfold Player.endOnto
  split
  · next hjump =>
    have hqueue : refills (.looped p.loop :: history) = handedOut ++ p.requests.toList := h.queue
    refine of_preload rfl ⟨h.loop.symm, h.cached.trans hjump.2⟩ h.lawful h.complete ?_ rfl ?_
      h.loop h.cached rfl
    · exact Position.endBase_enter (by decide) p.loop
    · rw [hqueue, Fifo.toList_pushAll, List.append_assoc]
  · have hqueue : refills (.restarted p.start :: history) = handedOut ++ p.requests.toList :=
      h.queue
    refine of_preload rfl trivial h.lawful h.complete ?_ rfl ?_ h.loop h.cached rfl
    · exact Position.endBase_start hsound.start_lt
    · rw [hqueue, Fifo.toList_pushAll, List.append_assoc]

/-- Beginning a playback, after any history. -/
theorem begun {header : Header} (hstart : header.start.toNat < linearEnd)
    (hlawful : Lawful history) (hcomplete : Complete history) (p : Player) :
    Tracks (Player.beginOnto history header) [] (p.begun header) := by
  refine of_preload rfl trivial hlawful hcomplete ?_ rfl ?_ rfl rfl rfl
  · exact Position.endBase_start hstart
  · show _ = [] ++ (Fifo.empty.pushAll _).toList
    rw [Fifo.toList_pushAll]
    rfl

/-! ## Turns and updates -/

theorem emit (h : Tracks history handedOut p) (chip : Recorder) (port : Port)
    (register data : UInt8) : Tracks history handedOut (p.emit chip port register data).1 := by
  rw [Player.emit_fst]
  exact { h with }

theorem step (h : Tracks history handedOut p) (hsound : p.Sound) (w : Window)
    (chip : Recorder) : Tracks (Player.stepOnto w history p) handedOut (p.step w chip).2.1 := by
  have hone := h.past hsound
  have hthree := (hone.past hsound.past).past hsound.past.past
  rw [Player.step_eq]
  unfold Player.stepOnto
  cases hop : p.opcode w with
  | write port =>
    have hemitted := hthree.emit chip port (p.past.peek w) (p.past.past.peek w)
    dsimp only
    exact hemitted
  | wait => exact hthree
  | endOfStream => exact hone.endStream hsound.past
  | pause | dataBlock | unknown => exact hone

end Tracks

/-- A stream whose header can be read is played from its first command on, with A and B asked for
from `linearEnd` on and nothing handed out yet. -/
theorem Log.begins (l : Log) {w : Window} {header : Header}
    (h : Player.readHeader w = .ok header) :
    l.call (.begin w) =
      { player := l.player.begun header
        history := Player.beginOnto l.history header
        handedOut := [] } := by
  unfold call
  simp only [h, Player.begin_of_readHeader h]

/-- A history stays lawful whatever becomes of the player. -/
structure Kept (history : List Entry) (handedOut : List Refill) (p : Player) : Prop where
  lawful : Lawful history
  complete : Complete history
  /-- While a stream is played, the player is where its history says. -/
  tracks : p.phase = .playing ∧ p.started = true → p.Sound ∧ Tracks history handedOut p

theorem Tracks.kept {history : List Entry} {handedOut : List Refill} {p : Player}
    (h : Tracks history handedOut p) (hsound : p.Sound) : Kept history handedOut p :=
  ⟨h.lawful, h.complete, fun _ => ⟨hsound, h⟩⟩

namespace Kept

variable {history : List Entry} {handedOut : List Refill} {p : Player}

/-- A turn keeps the history, and if it proceeds, the player where its history says. -/
theorem turn (h : Tracks history handedOut p) (hsound : p.Sound) (w : Window) (chip : Recorder) :
    Kept (Player.turnOnto w history (p, chip)) handedOut (p.turn w chip).2.1 ∧
    ((p.turn w chip).1 = .proceeds →
      Tracks (Player.turnOnto w history (p, chip)) handedOut (p.turn w chip).2.1) := by
  have hq := hsound.turn w chip
  unfold Player.turn Player.turnOnto at *
  rcases hanswer : p.askChip w chip with ⟨_ | _, chip'⟩
  · simp only [hanswer] at hq ⊢
    exact ⟨h.kept hsound, fun _ => h⟩
  · have hstep := h.step hsound w chip'
    simp only [hanswer, if_true] at hq ⊢
    generalize p.step w chip' = r at hstep hq ⊢
    obtain ⟨e | delay, q, chip''⟩ := r
    -- a command that fails ends the playback, so there is nothing left to track
    · have hfailed : ¬ (q.fail.phase = .playing ∧ q.fail.started = true) := fun hp =>
        absurd hp.1 (by simp [Player.fail])
      exact ⟨⟨hstep.lawful, hstep.complete, fun hp => absurd hp hfailed⟩,
        fun hending => absurd hending (by simp)⟩
    · exact ⟨hstep.kept hq, fun _ => hstep⟩

/-- So do the turns of an update. -/
theorem playUpTo (h : Tracks history handedOut p) (hsound : p.Sound) (w : Window) (limit : Nat)
    (chip : Recorder) (timer : Timer) :
    Kept ((Player.visitsUpTo w limit p chip).foldl (Player.turnOnto w) history) handedOut
      (Player.playUpTo w limit p chip timer).2.1 := by
  induction limit generalizing history p chip with
  | zero => exact h.kept hsound
  | succ limit ih =>
    obtain ⟨hkept, hproceeds⟩ := turn h hsound w chip
    have hq := hsound.turn w chip
    rw [Player.visitsUpTo, List.foldl_cons, Player.playUpTo_succ]
    -- what follows is added to the history of this turn
    generalize p.turn w chip = t at hkept hproceeds hq ⊢
    obtain ⟨ending, q, chip'⟩ := t
    cases ending with
    | proceeds => exact ih (hproceeds rfl) hq chip'
    | busy | waits | yields | fails => exact hkept

theorem takeRequest (h : Kept history handedOut p) :
    Kept history (handedOut ++ p.takeRequest.1.toList) p.takeRequest.2 := by
  obtain ⟨requests, htaken, hqueue⟩ := p.takeRequest_eq
  rw [htaken]
  refine ⟨h.lawful, h.complete, fun hplaying => ?_⟩
  obtain ⟨hsound, htracks⟩ := h.tracks hplaying
  refine ⟨hsound.congr rfl rfl rfl, { htracks with queue := ?_ }⟩
  rw [htracks.queue, hqueue, List.append_assoc]

theorem update (h : Kept history handedOut p) (w : Window) (chip : Recorder) (timer : Timer) :
    Kept (p.updateOnto history w chip)
      (handedOut ++ (p.update w chip timer).request.toList) (p.update w chip timer).player := by
  unfold Player.updateOnto Player.visits Player.update
  by_cases hplaying : p.phase = .playing ∧ p.started = true
  · obtain ⟨hsound, htracks⟩ := h.tracks hplaying
    have hplayed := playUpTo htracks hsound w p.commandLimit chip timer
    rw [if_pos hplaying, if_pos hplaying]
    exact hplayed.takeRequest
  · rw [if_neg hplaying, if_neg hplaying]
    simpa using h

/-- Every call of the player keeps its history. -/
theorem call {l : Log} (h : Kept l.history l.handedOut l.player) (c : Log.Call) :
    Kept (l.call c).history (l.call c).handedOut (l.call c).player := by
  cases c with
  | begin w =>
    cases hread : Player.readHeader w with
    | error e =>
      unfold Log.call
      simp only [hread]
      refine ⟨h.lawful, h.complete, fun hplaying => ?_⟩
      have hfailed : (l.player.begin w).2.phase = .failed := by
        unfold Player.begin
        simp only [hread]
      exact absurd (hfailed.symm.trans hplaying.1) (by decide)
    | ok header =>
      rw [l.begins hread]
      have hstart := (Player.readHeader_eq_ok hread).2
      exact (Tracks.begun hstart h.lawful h.complete l.player).kept (.begun hstart l.player)
  | update w chip timer => exact h.update w chip timer
  | take => exact h.takeRequest
  | retune filter =>
    refine ⟨h.lawful, h.complete, fun hplaying => ?_⟩
    obtain ⟨hsound, htracks⟩ := h.tracks hplaying
    exact ⟨hsound.congr rfl rfl rfl, { htracks with }⟩

theorem initial : Kept Log.initial.history Log.initial.handedOut Log.initial.player :=
  ⟨trivial, fun later e past base h => absurd h (by simp [Log.initial]),
    fun hplaying => absurd hplaying.1 (by decide)⟩

/-- Every run of calls keeps its history. -/
theorem run (calls : List Log.Call) :
    Kept (Log.run calls).history (Log.run calls).handedOut (Log.run calls).player := by
  unfold Log.run
  refine List.foldlRecOn (motive := fun l => Kept l.history l.handedOut l.player) calls Log.call
    initial ?_
  intro l hkept c _
  exact hkept.call c

end Kept

theorem History.Lawful.of_append {later history : List Entry} (h : Lawful (later ++ history)) :
    Lawful history := by
  induction later with
  | nil => exact h
  | cons e later ih => exact ih h.2

theorem Log.run_concat (calls : List Log.Call) (c : Log.Call) :
    Log.run (calls ++ [c]) = (Log.run calls).call c := by
  rw [run, List.foldl_append]
  rfl

/-- Refills tile the stream, whatever the windows that the player is called with. In every history,
whatever entry `e` of it is looked at:

* where a pass starts, A and B are asked for at once, from `linearEnd` on if the stream is played
  from its start, and from `regionSize` past the loop point if it is played from there, which is
  then the loop point of the playback, and has been asked for;
* the refills of A and B in a pass alternate, and each asks for the part of the stream that follows
  the one before it;
* A and B are entered, and no other region, where they were last asked for;
* the loop region is asked for once in a playback, with its loop point, and from outside of it.

While a stream is played, the refills of the history are those that the player has in its queue or
has handed out, and the place it ends at is where the player is. Every stream whose header can be
read is played once it begins: the history then goes on with its start, and what A and B are asked
for with is the player's queue. -/
theorem Log.refills_tile (calls : List Log.Call) :
    (∀ later e past, (Log.run calls).history = later ++ e :: past →
      (∀ base, passStart? e = some base → ∃ rest inside, later = rest ++
        [.asked .b (base + UInt32.ofNat regionSize) inside, .asked .a base inside]) ∧
      passRefills (e :: past) =
        (List.range (passRefills (e :: past)).length).map (tile (passBase (e :: past))) ∧
      (∀ loop, e = .looped loop → loop = loopPoint past ∧ loopAsked past = true) ∧
      (∀ region base, e = .entered region base →
        (region = .a ∨ region = .b) ∧ newest region past = some base) ∧
      (∀ source inside, e = .asked .loop source inside →
        source = loopPoint past ∧ loopAsked past = false ∧ inside ≠ .loop)) ∧
    ((Log.run calls).player.phase = .playing ∧ (Log.run calls).player.started = true →
      refills (Log.run calls).history =
        (Log.run calls).handedOut ++ (Log.run calls).player.requests.toList ∧
      loopPoint (Log.run calls).history = (Log.run calls).player.loop ∧
      place (Log.run calls).history = some ((Log.run calls).player.position.region,
        (Log.run calls).player.position.base) ∧
      ((Log.run calls).player.position.region.isRefilled = true →
        newest (Log.run calls).player.position.region (Log.run calls).history =
          some (Log.run calls).player.position.base)) ∧
    ∀ w header, Player.readHeader w = .ok header →
      let l := Log.run (calls ++ [.begin w])
      l.player.phase = .playing ∧ l.player.started = true ∧ l.handedOut = [] ∧
      l.player.requests.toList = [.ofRegion .a (UInt32.ofNat linearEnd),
        .ofRegion .b (UInt32.ofNat linearEnd + UInt32.ofNat regionSize)] ∧
      refills l.history = l.player.requests.toList ∧
      l.history =
        [.asked .b (UInt32.ofNat linearEnd + UInt32.ofNat regionSize) .linear,
          .asked .a (UInt32.ofNat linearEnd) .linear, .started header.start header.loop] ++
        (Log.run calls).history := by
  have hkept := Kept.run calls
  refine ⟨fun later e past heq => ?_, fun hplaying => ?_, fun w header hread => ?_⟩
  · have hlawful : Lawful (e :: past) := (heq ▸ hkept.lawful).of_append
    refine ⟨fun base => hkept.complete later e past base heq, passRefills_eq hlawful, ?_, ?_, ?_⟩
    · rintro loop rfl
      exact hlawful.1
    · rintro region base rfl
      exact hlawful.1
    · rintro source inside rfl
      exact hlawful.1
  · obtain ⟨-, htracks⟩ := hkept.tracks hplaying
    exact ⟨htracks.queue, htracks.loop, htracks.place, htracks.here⟩
  · have hcall := (Log.run_concat calls (.begin w)).trans ((Log.run calls).begins hread)
    have hstart := (Player.readHeader_eq_ok hread).2
    have hbegun := Tracks.begun hstart hkept.lawful hkept.complete (Log.run calls).player
    dsimp only
    rw [hcall]
    exact ⟨rfl, rfl, rfl, Fifo.toList_pushAll _ _, hbegun.queue, rfl⟩

end ChipReplay
