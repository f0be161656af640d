import ChipReplay.Proofs.Player.Turns
/-!
# The cursor stays in its region

`Sound` is kept by everything a playing player does, whatever the window holds. It bounds the window
offsets that an update reads (`Sound.lt_of_mem_reads`). `Safe` is what is left of it while nothing
is played, and holds of every player there can be.
-/

namespace ChipReplay
namespace Player

/-- The playback starts in the linear region, and the cursor lies in its region. -/
structure InBounds (p : Player) : Prop where
  start_lt : p.start.toNat < linearEnd
  inside : p.position.Inside

/-- Moreover, the cursor is in the loop region only after that has been asked for. -/
structure Sound (p : Player) : Prop extends p.InBounds where
  inLoop : p.position.region = .loop → p.loopCached = true

/-- Nothing else of the player matters. -/
theorem Sound.congr {p q : Player} (h : p.Sound) (hstart : q.start = p.start)
    (hposition : q.position = p.position) (hcached : q.loopCached = p.loopCached) : q.Sound := by
  refine ⟨⟨?_, ?_⟩, ?_⟩
  · rw [hstart]
    exact h.start_lt
  · rw [hposition]
    exact h.inside
  · rw [hposition, hcached]
    exact h.inLoop

theorem Sound.past {p : Player} (h : p.Sound) : p.past.Sound := by
  refine ⟨⟨p.start_past ▸ h.start_lt, p.position_past ▸ h.inside.past⟩, fun hregion => ?_⟩
  rw [position_past, Position.region_past] at hregion
  -- a read never moves into the loop region, so the cursor was there before it
  have hbefore : p.position.region = .loop := by
    apply Classical.byContradiction
    intro hne
    exact Position.readRegion_ne_loop hne hregion
  rw [loopCached_past, loopCachedPast, h.inLoop hbefore, Bool.true_or]

theorem Sound.endStream {p : Player} (h : p.Sound) : p.endStream.Sound := by
  have hloop : (Position.enter .loop Region.loop.start p.loop).Inside :=
    .enter (Nat.le_refl _) (Nat.le_of_lt Region.loop.start_lt_stop)
  have hstart : (Position.enter .linear p.start.toNat p.start).Inside :=
    .enter (Nat.zero_le _) (Nat.le_of_lt h.start_lt)
  rw [endStream_eq]
  split
  -- the jump to the loop region is taken only if that has been asked for
  · next hjump => exact ⟨⟨h.start_lt, hloop⟩, fun _ => hjump.2⟩
  · exact ⟨⟨h.start_lt, hstart⟩, nofun⟩

theorem Sound.emit {p : Player} (h : p.Sound) (chip : Recorder) (port : Port)
    (register data : UInt8) : (p.emit chip port register data).1.Sound := by
  rw [emit_fst]
  exact h.congr rfl rfl rfl

theorem Sound.step {p : Player} (h : p.Sound) (w : Window) (chip : Recorder) :
    (p.step w chip).2.1.Sound := by
  rw [step_eq]
  split
  · next port _ =>
    have hemitted := h.past.past.past.emit chip port (p.past.peek w) (p.past.past.peek w)
    dsimp only
    exact hemitted
  · exact h.past.past.past
  · exact h.past
  · exact h.past.endStream
  · exact h.past
  · exact h.past

theorem Sound.turn {p : Player} (h : p.Sound) (w : Window) (chip : Recorder) :
    (p.turn w chip).2.1.Sound := by
  unfold Player.turn
  rcases p.askChip w chip with ⟨_ | _, chip⟩
  · exact h
  · have hq := h.step w chip
    dsimp only
    generalize p.step w chip = t at hq ⊢
    rcases t with ⟨_ | delay, q, chip⟩
    · exact hq.congr rfl rfl rfl
    · exact hq

theorem Sound.takeRequest {p : Player} (h : p.Sound) : p.takeRequest.2.Sound := by
  obtain ⟨requests, htaken, -⟩ := p.takeRequest_eq
  rw [htaken]
  exact h.congr rfl rfl rfl

theorem Sound.update {p : Player} (h : p.Sound) (w : Window) (chip : Recorder)
    (timer : Timer) : (p.update w chip timer).player.Sound := by
  unfold Player.update
  split
  · have hq := playUpTo_keeps (fun q chip (hq : q.Sound) => hq.turn w chip) p.commandLimit p chip
      timer h
    generalize playUpTo w p.commandLimit p chip timer = t at hq ⊢
    obtain ⟨outcome, q, chip, timer⟩ := t
    exact hq.takeRequest
  · exact h

theorem Sound.begun {header : Header} (h : header.start.toNat < linearEnd) (p : Player) :
    (p.begun header).Sound := by
  have hinside : (Position.enter .linear header.start.toNat header.start).Inside :=
    .enter (Nat.zero_le _) (Nat.le_of_lt h)
  exact ⟨⟨h, hinside⟩, nofun⟩

/-! ## Reads -/

theorem Sound.lt_of_mem_readOffsets {p : Player} (h : p.Sound) {n i : Nat}
    (hi : i ∈ readOffsets n p) : i < windowSize := by
  induction n generalizing p with
  | zero => exact absurd hi List.not_mem_nil
  | succ n ih =>
    rw [readOffsets, List.mem_cons] at hi
    rcases hi with rfl | hi
    · exact h.inside.readOffset_lt
    · exact ih h.past hi

/-- An update reads inside the window. -/
theorem Sound.lt_of_mem_reads {p : Player} (h : p.Sound) {w : Window} {chip : Recorder}
    {i : Nat} (hi : i ∈ p.reads w chip) : i < windowSize := by
  obtain ⟨v, hv, hi⟩ := List.mem_flatMap.mp hi
  have hvisit : v.1.Sound := by
    unfold visits at hv
    split at hv
    · exact visitsUpTo_keeps (fun q chip (hq : q.Sound) => hq.turn w chip) h v hv
    · exact absurd hv List.not_mem_nil
  rw [turnReads, List.mem_cons] at hi
  rcases hi with rfl | hi
  · exact hvisit.inside.readOffset_lt
  · split at hi
    · exact hvisit.lt_of_mem_readOffsets hi
    · exact absurd hi List.not_mem_nil

/-! ## Every player -/

/-- What holds whether or not a stream is played. -/
structure Safe (p : Player) : Prop where
  inBounds : p.InBounds
  sound : p.phase = .playing ∧ p.started = true → p.Sound

theorem Sound.safe {p : Player} (h : p.Sound) : p.Safe := ⟨h.toInBounds, fun _ => h⟩

/-- Neither the filter nor the requests matter. -/
theorem Safe.congr {p q : Player} (h : p.Safe) (hstart : q.start = p.start)
    (hposition : q.position = p.position) (hcached : q.loopCached = p.loopCached)
    (hphase : q.phase = p.phase) (hstarted : q.started = p.started) : q.Safe := by
  have hinBounds : q.InBounds := ⟨hstart ▸ h.inBounds.start_lt, hposition ▸ h.inBounds.inside⟩
  refine ⟨hinBounds, fun hplaying => ?_⟩
  rw [hphase, hstarted] at hplaying
  exact (h.sound hplaying).congr hstart hposition hcached

theorem safe_initial : initial.Safe := by
  have hinside : (Position.enter .linear 0 0).Inside := .enter (Nat.le_refl _) (Nat.zero_le _)
  exact ⟨⟨by decide, hinside⟩, fun h => absurd h.1 (by decide)⟩

theorem Safe.update {p : Player} (h : p.Safe) (w : Window) (chip : Recorder) (timer : Timer) :
    (p.update w chip timer).player.Safe := by
  by_cases hplaying : p.phase = .playing ∧ p.started = true
  · exact ((h.sound hplaying).update w chip timer).safe
  · rw [Player.update, if_neg hplaying]
    exact h

theorem Safe.begin {p : Player} (h : p.Safe) (w : Window) : (p.begin w).2.Safe := by
  cases hread : readHeader w with
  | error e =>
    unfold Player.begin
    simp only [hread]
    -- a playback that cannot begin has failed, and the cursor is where it was
    exact ⟨⟨h.inBounds.start_lt, h.inBounds.inside⟩, fun hp => absurd hp.1 (by simp)⟩
  | ok header =>
    rw [begin_of_readHeader hread]
    exact (Sound.begun (readHeader_eq_ok hread).2 p).safe

/-- An update reads inside the window, whether or not a stream is played. -/
theorem Safe.lt_of_mem_reads {p : Player} (h : p.Safe) {w : Window} {chip : Recorder} {i : Nat}
    (hi : i ∈ p.reads w chip) : i < windowSize := by
  by_cases hplaying : p.phase = .playing ∧ p.started = true
  · exact (h.sound hplaying).lt_of_mem_reads hi
  · rw [reads, visits, if_neg hplaying] at hi
    exact absurd hi List.not_mem_nil

end Player
end ChipReplay
