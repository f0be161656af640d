import ChipReplay.Proofs.Stream.Flat
import ChipReplay.Proofs.Stream.Shows
/-!
# The player follows the flat interpreter

`Agrees` relates the state of a player to that of the flat interpreter, and `Ready` says that the
window will show the stream once the refills still to be served have been. A turn of the player
keeps both, and does what a turn of the flat interpreter does (`turn_simulates`), if none of the
bytes it reads is still to be refilled (`Clear`). The one difference is that the player ends its
update when it leaves a region.
-/

namespace ChipReplay

/-- The player is where the flat interpreter is. -/
structure Agrees (f : FlatPlayer) (p : Player) : Prop where
  start : f.start = p.start.toNat
  loop : f.loop = p.loop.toNat
  position : f.position = p.position.offset
  reached : p.loopCached = (decide (p.loop ≠ 0) && f.reached)
  loopCount : f.loopCount = p.loopCount
  filter : f.filter = p.filter
  playing : f.playing = true ↔ p.phase = .playing ∧ p.started = true

/-- The window will show the stream around the player when the refills in `waiting`, and those
that the player has not handed out yet, have been served. -/
def Ready (stream : ByteArray) (w : Window) (waiting : List Refill) (p : Player) : Prop :=
  Shows stream p (settled stream w (waiting ++ p.requests.toList))

/-- No refill that is still to be served covers window offset `i`. -/
def Clear (waiting : List Refill) (p : Player) (i : Nat) : Prop :=
  ∀ r ∈ waiting ++ p.requests.toList, ¬ r.Covers i

section

variable {stream : ByteArray} {w : Window} {waiting : List Refill} {p : Player} {f : FlatPlayer}

/-! ## Bytes -/

/-- A byte that is not to be refilled is that of the stream already. -/
theorem Ready.peek (h : Ready stream w waiting p)
    (hclear : Clear waiting p p.position.readOffset)
    (hread : p.position.offset < stream.size) :
    p.peek w = Bytes.peek stream p.position.offset := by
  have hsettled := Shows.peek h hread
  rwa [Player.peek, byte_settled_of_not_covers _ _ hclear] at hsettled

theorem Ready.past (h : Ready stream w waiting p) (hsize : stream.size + 0x8000 < 2 ^ 32)
    (hread : p.position.offset < stream.size) : Ready stream w waiting p.past := by
  have hpast := Shows.past h hsize hread
  rwa [← settled_append, List.append_assoc, ← Player.toList_requests_past] at hpast

theorem Agrees.past (h : Agrees f p) (hready : Ready stream w waiting p) :
    Agrees f.past p.past where
  start := by rw [Player.start_past, ← h.start]; rfl
  loop := by rw [Player.loop_past, ← h.loop]; rfl
  position := by
    have hinside := hready.sound.inside
    rw [Player.position_past, hinside.offset_past hready.endOffset_lt, ← h.position]
    rfl
  reached := by
    -- a byte at or past the loop point: as words for the player, as numbers here
    have hle : p.loop ≤ p.streamOffset ↔ f.loop ≤ f.position := by
      rw [UInt32.le_iff_toNat_le, hready.toNat_streamOffset, h.loop, h.position]
    rw [Player.loopCached_past, Player.loop_past, Player.loopCachedPast, h.reached]
    simp only [FlatPlayer.past, hle]
    by_cases hloop : p.loop = 0 <;> simp [hloop]
  loopCount := by rw [Player.loopCount_past, ← h.loopCount]; rfl
  filter := by rw [Player.filter_past, ← h.filter]; rfl
  playing := by rw [Player.phase_past, Player.started_past, ← h.playing]; rfl

/-- What a read asks for leaves the bytes of the two reads after it clear. -/
theorem Clear.past (hready : Ready stream w waiting p) :
    (Clear waiting p p.past.position.readOffset →
      Clear waiting p.past p.past.position.readOffset) ∧
    (Clear waiting p p.past.past.position.readOffset →
      Clear waiting p.past p.past.past.position.readOffset) := by
  refine ⟨fun h r hr => ?_, fun h r hr => ?_⟩ <;>
    rw [Player.toList_requests_past, ← List.append_assoc, List.mem_append] at hr <;>
    rcases hr with hr | hr
  · exact h r hr
  · exact (Player.not_covers_past hready.sound hr).1
  · exact h r hr
  · exact (Player.not_covers_past hready.sound hr).2

/-- The operands of a command are those of the stream. -/
theorem Ready.operands (h : Ready stream w waiting p) (hsize : stream.size + 0x8000 < 2 ^ 32)
    (hclear : ∀ i ∈ Player.readOffsets 3 p, Clear waiting p i)
    (hread : p.position.offset + 2 < stream.size) :
    p.past.peek w = Bytes.peek stream (p.position.offset + 1) ∧
    p.past.past.peek w = Bytes.peek stream (p.position.offset + 2) := by
  have hpast := h.past hsize (by omega)
  have hoffset : p.past.position.offset = p.position.offset + 1 := by
    rw [Player.position_past, h.sound.inside.offset_past h.endOffset_lt]
  have hoffset2 : p.past.past.position.offset = p.position.offset + 2 := by
    rw [Player.position_past, hpast.sound.inside.offset_past hpast.endOffset_lt, hoffset]
  have hpast2 := hpast.past hsize (by omega)
  -- what the opcode's read asks for covers neither operand
  have hclear1 := (Clear.past h).1 (hclear _ (by simp [Player.readOffsets]))
  have hclear2 := (Clear.past h).2 (hclear _ (by simp [Player.readOffsets]))
  rw [hpast.peek hclear1 (by omega), hpast2.peek ((Clear.past hpast).1 hclear2) (by omega),
    hoffset, hoffset2]
  exact ⟨rfl, rfl⟩

/-! ## Commands -/

theorem Agrees.opcode (h : Agrees f p) (hready : Ready stream w waiting p)
    (hclear : Clear waiting p p.position.readOffset) (hread : f.position < stream.size) :
    p.peek w = f.peek stream ∧ p.opcode w = f.opcode stream := by
  have hpeek : p.peek w = f.peek stream := by
    rw [hready.peek hclear (h.position ▸ hread), FlatPlayer.peek, h.position]
  exact ⟨hpeek, congrArg Opcode.ofByte hpeek⟩

/-- Both write the same to the chip. -/
theorem Agrees.emit (h : Agrees f p) (chip : Recorder) (port : Port) (register data : UInt8) :
    Agrees (f.emit chip port register data).1 (p.emit chip port register data).1 ∧
    (f.emit chip port register data).2 = (p.emit chip port register data).2 := by
  unfold FlatPlayer.emit Player.emit
  rw [h.filter]
  exact ⟨{ h with filter := rfl }, rfl⟩

theorem Ready.emit (h : Ready stream w waiting p) (chip : Recorder) (port : Port)
    (register data : UInt8) : Ready stream w waiting (p.emit chip port register data).1 :=
  Shows.congr h rfl rfl rfl rfl

theorem Agrees.endStream (h : Agrees f p) : Agrees f.endStream p.endStream := by
  -- the loop region is asked for when the loop point is reached, so both jump there or neither
  have hcond : (p.loop ≠ 0 ∧ p.loopCached = true) ↔ (f.loop ≠ 0 ∧ f.reached = true) := by
    have hzero : p.loop ≠ 0 ↔ f.loop ≠ 0 := by
      rw [h.loop, ne_eq, ne_eq, ← UInt32.toNat_inj]
      rfl
    rw [h.reached, ← hzero]
    simp
  have hposition : f.endStream.position =
      if p.loop ≠ 0 ∧ p.loopCached = true then p.loop.toNat else p.start.toNat := by
    show (if f.loop ≠ 0 ∧ f.reached = true then f.loop else f.start) = _
    rw [h.loop, h.start]
    simp only [hcond, h.loop]
  have hcount : f.endStream.loopCount = p.loopCount + 1 := by rw [← h.loopCount]; rfl
  rw [Player.endStream_eq]
  split
  · next hjump =>
    refine { h with position := ?_, loopCount := hcount }
    rw [hposition, if_pos hjump, Position.offset]
    simp [Position.enter]
  · next hjump =>
    refine { h with position := ?_, loopCount := hcount }
    rw [hposition, if_neg hjump, Position.offset]
    simp [Position.enter]

theorem Ready.endStream (h : Ready stream w waiting p) (hsize : stream.size + 0x8000 < 2 ^ 32) :
    Ready stream w waiting p.endStream := by
  obtain ⟨rs, hrequests, hshows⟩ := Shows.endStream h hsize
  rwa [← settled_append, List.append_assoc, ← hrequests] at hshows

/-- Both read the same operands. -/
theorem Agrees.operands (h : Agrees f p) (hready : Ready stream w waiting p)
    (hsize : stream.size + 0x8000 < 2 ^ 32)
    (hclear : ∀ i ∈ Player.readOffsets 3 p, Clear waiting p i)
    (hread : f.position + 2 < stream.size) :
    p.past.peek w = f.past.peek stream ∧ p.past.past.peek w = f.past.past.peek stream ∧
    Agrees f.past.past.past p.past.past.past ∧ Ready stream w waiting p.past.past.past := by
  obtain ⟨hsecond, hthird⟩ := hready.operands hsize hclear (h.position ▸ hread)
  have hagree1 := h.past hready
  have hready1 := hready.past hsize (by rw [← h.position]; omega)
  have hagree2 := hagree1.past hready1
  have hready2 := hready1.past hsize (by
    rw [← hagree1.position]
    show f.position + 1 < stream.size
    omega)
  have hagree3 := hagree2.past hready2
  have hready3 := hready2.past hsize (by
    rw [← hagree2.position]
    exact hread)
  rw [← h.position] at hsecond hthird
  exact ⟨hsecond, hthird, hagree3, hready3⟩

/-- A command whose bytes are clear does to the player what it does to the flat interpreter. -/
theorem step_simulates (h : Agrees f p) (hready : Ready stream w waiting p)
    (hsize : stream.size + 0x8000 < 2 ^ 32)
    (hclear : ∀ i ∈ Player.readOffsets (1 + (p.opcode w).operands) p, Clear waiting p i)
    (hread : f.position + (f.opcode stream).operands < stream.size) (chip : Recorder) :
    (p.step w chip).1 = (f.step stream chip).1 ∧
    (p.step w chip).2.2 = (f.step stream chip).2.2 ∧
    Agrees (f.step stream chip).2.1 (p.step w chip).2.1 ∧
    Ready stream w waiting (p.step w chip).2.1 := by
  have hfirst : Clear waiting p p.position.readOffset :=
    hclear _ (by simp [Player.readOffsets, Nat.add_comm 1])
  obtain ⟨hpeek, hop⟩ := h.opcode hready hfirst (by omega)
  have hpast := hready.past hsize (h.position ▸ by omega)
  have hagree := h.past hready
  rw [hop] at hclear
  rw [Player.step_eq, FlatPlayer.step, hop, hpeek]
  have hoffset : p.streamOffset = UInt32.ofNat f.position := by
    rw [h.position, ← Position.streamOffset_eq]
    rfl
  cases hcase : f.opcode stream with
  | write port =>
    rw [hcase] at hclear hread
    obtain ⟨hsecond, hthird, hagree, hready⟩ := h.operands hready hsize hclear hread
    have hemit := hagree.emit chip port (f.past.peek stream) (f.past.past.peek stream)
    have hready' := hready.emit chip port (f.past.peek stream) (f.past.past.peek stream)
    rw [hsecond, hthird]
    dsimp only
    exact ⟨rfl, hemit.2.symm, hemit.1, hready'⟩
  | wait =>
    rw [hcase] at hclear hread
    obtain ⟨hsecond, hthird, hagree, hready⟩ := h.operands hready hsize hclear hread
    rw [hsecond, hthird]
    exact ⟨rfl, rfl, hagree, hready⟩
  | pause samples => exact ⟨rfl, rfl, hagree, hpast⟩
  | endOfStream => exact ⟨rfl, rfl, hagree.endStream, hpast.endStream hsize⟩
  | dataBlock | unknown =>
    rw [hoffset]
    exact ⟨rfl, rfl, hagree, hpast⟩

/-! ## Turns -/

/-- A turn whose bytes are clear does to the player what it does to the flat interpreter, except
that the update may end with it. -/
theorem turn_simulates (h : Agrees f p) (hready : Ready stream w waiting p)
    (hsize : stream.size + 0x8000 < 2 ^ 32) {chip : Recorder}
    (hclear : ∀ i ∈ Player.turnReads w (p, chip), Clear waiting p i) {ending : Player.Ending}
    {g : FlatPlayer} {chip' : Recorder} (hturn : f.turn stream chip = some (ending, g, chip')) :
    ∃ ending' q, p.turn w chip = (ending', q, chip') ∧
      (ending' = ending ∨ ending' = .yields ∧ ending = .proceeds) ∧
      Agrees g q ∧ (g.playing = true → Ready stream w waiting q) := by
  have hread := FlatPlayer.lt_size_of_turn hturn
  have hfirst := hclear _ (List.mem_cons_self ..)
  have hop := (h.opcode hready hfirst hread).2
  -- both look at the same command, so the chip gives both the same answer
  have hanswer :
      p.askChip w chip = if (f.opcode stream).isWrite then chip.ready else (true, chip) := by
    rw [Player.askChip, hop]
  rw [FlatPlayer.turn, if_pos hread, ← hanswer] at hturn
  unfold Player.turn
  rcases hcase : p.askChip w chip with ⟨_ | _, chip₁⟩
  · rw [hcase] at hturn
    obtain ⟨rfl, rfl, rfl⟩ : .busy = ending ∧ f = g ∧ chip₁ = chip' := by simpa using hturn
    exact ⟨.busy, p, rfl, .inl rfl, h, fun _ => hready⟩
  · have hall : ∀ i ∈ Player.readOffsets (1 + (p.opcode w).operands) p, Clear waiting p i := by
      intro i hi
      exact hclear i (by simp [Player.turnReads, hcase, hi])
    simp only [hcase] at hturn
    split at hturn
    · next hoperands =>
      obtain ⟨hresult, hchip, hagree, hnext⟩ :=
        step_simulates h hready hsize hall hoperands chip₁
      dsimp only
      generalize p.step w chip₁ = r at hresult hchip hagree hnext ⊢
      generalize f.step stream chip₁ = s at hresult hchip hagree hnext hturn
      obtain ⟨result, q, chip₂⟩ := r
      obtain ⟨result', g', chip₂'⟩ := s
      obtain rfl : result = result' := hresult
      obtain rfl : chip₂ = chip₂' := hchip
      dsimp only at hagree hnext
      cases result with
      | error e =>
        obtain ⟨rfl, rfl, rfl⟩ :
            .fails e = ending ∧ { g' with playing := false } = g ∧ chip₂ = chip' := by
          simpa using hturn
        refine ⟨_, _, rfl, .inl rfl, { hagree with playing := ?_ }, fun hplaying => ?_⟩
        · simp [Player.fail]
        · exact absurd hplaying (by simp)
      | ok delay =>
        obtain ⟨rfl, rfl, rfl⟩ :
            .ofStep (f.opcode stream) delay false = ending ∧ g' = g ∧ chip₂ = chip' := by
          simpa using hturn
        refine ⟨_, _, rfl, ?_, hagree, fun _ => hnext⟩
        rw [hop]
        exact Player.Ending.ofStep_crossed ..
    · exact absurd hturn (by simp)

/-! ## Updates -/

/-- What a turn asks for before it proceeds leaves the later commands of the update clear. -/
theorem Clear.proceeds {limit : Nat} {chip chip' : Recorder} {q : Player} (hsound : p.Sound)
    (hturn : p.turn w chip = (.proceeds, q, chip')) {i : Nat}
    (hi : i ∈ (Player.visitsUpTo w limit q chip').flatMap (Player.turnReads w))
    (h : Clear waiting p i) : Clear waiting q i := by
  obtain ⟨hstay, hasked⟩ := Player.asked_of_proceeds hsound hturn
  have hq : q.Sound := by
    have := hsound.turn w chip
    rwa [hturn] at this
  intro r hr
  rcases List.mem_append.mp hr with hr | hr
  · exact h r (List.mem_append_left _ hr)
  · rcases hasked r hr with hr | ⟨hregion, rfl⟩
    · exact h r (List.mem_append_right _ hr)
    · exact Player.not_covers_visitsUpTo hq (hstay ▸ hregion) _ hi

/-- Commands whose bytes are clear when the update starts do to the player what as many of them do
to the flat interpreter. -/
theorem playUpTo_simulates (hsize : stream.size + 0x8000 < 2 ^ 32) {limit : Nat} {chip : Recorder}
    {timer : Timer} (h : Agrees f p) (hplaying : f.playing = true)
    (hready : Ready stream w waiting p)
    (hclear : ∀ i ∈ (Player.visitsUpTo w limit p chip).flatMap (Player.turnReads w),
      Clear waiting p i)
    {outcome : Player.Outcome} {g : FlatPlayer} {chip' : Recorder} {timer' : Timer}
    (hplay : f.playUpTo stream (Player.visitsUpTo w limit p chip).length chip timer =
      some (outcome, g, chip', timer')) :
    ∃ q, Player.playUpTo w limit p chip timer = (outcome, q, chip', timer') ∧ Agrees g q ∧
      (g.playing = true → Ready stream w waiting q) := by
  induction limit generalizing p f chip with
  | zero =>
    obtain ⟨rfl, rfl, rfl, rfl⟩ : {} = outcome ∧ f = g ∧ chip = chip' ∧ timer = timer' := by
      simpa [Player.visitsUpTo, FlatPlayer.playUpTo] using hplay
    exact ⟨p, rfl, h, fun _ => hready⟩
  | succ limit ih =>
    rw [Player.visitsUpTo, List.length_cons, FlatPlayer.playUpTo] at hplay
    rw [Player.visitsUpTo, List.flatMap_cons] at hclear
    rcases hflat : f.turn stream chip with _ | ⟨ending, g₁, chip₁⟩
    · simp [hflat] at hplay
    · obtain ⟨ending', q, hturn, hending, hagree, hnext⟩ := turn_simulates h hready hsize
        (fun i hi => hclear i (List.mem_append_left _ hi)) hflat
      rw [Player.playUpTo_succ]
      simp only [hflat, hturn] at hplay hclear ⊢
      -- the player yields where the flat interpreter would go on, or both end alike
      rcases hending with rfl | ⟨rfl, rfl⟩
      · cases ending' with
        | proceeds =>
          have hplaying₁ := (FlatPlayer.playing_of_proceeds hflat).trans hplaying
          exact ih hagree hplaying₁ (hnext hplaying₁) (fun i hi =>
            (hclear i (List.mem_append_right _ hi)).proceeds hready.sound hturn hi) hplay
        | busy | waits | yields | fails =>
          obtain ⟨rfl, rfl, rfl, rfl⟩ := by
            simpa only [Option.some.injEq, Prod.mk.injEq] using hplay
          exact ⟨q, rfl, hagree, hnext⟩
      · obtain ⟨rfl, rfl, rfl, rfl⟩ : {} = outcome ∧ g₁ = g ∧ chip₁ = chip' ∧ timer = timer' := by
          simpa [FlatPlayer.playUpTo] using hplay
        exact ⟨q, rfl, hagree, hnext⟩

/-- An update whose bytes are clear when it starts does what as many commands do to the flat
interpreter, and hands out no refill that it does not have. -/
theorem update_simulates (hsize : stream.size + 0x8000 < 2 ^ 32) {chip : Recorder}
    {timer : Timer} (h : Agrees f p) (hready : f.playing = true → Ready stream w waiting p)
    (hclear : ∀ i ∈ p.reads w chip, Clear waiting p i) {outcome : Player.Outcome}
    {g : FlatPlayer} {chip' : Recorder} {timer' : Timer}
    (hplay : f.update stream (p.visits w chip).length chip timer =
      some (outcome, g, chip', timer')) :
    ∃ request q, p.update w chip timer = ⟨outcome, request, q, chip', timer'⟩ ∧ Agrees g q ∧
      (g.playing = true → Ready stream w (waiting ++ request.toList) q) := by
  unfold FlatPlayer.update at hplay
  unfold Player.update
  by_cases hplaying : f.playing = true
  · have hphase := h.playing.mp hplaying
    unfold Player.reads at hclear
    rw [Player.visits, if_pos hphase] at hclear hplay
    rw [if_pos hplaying] at hplay
    obtain ⟨q, heq, hagree, hnext⟩ :=
      playUpTo_simulates hsize h hplaying (hready hplaying) hclear hplay
    -- what is handed out goes to the end of the refills that are waited for, where it stood before
    obtain ⟨requests, htaken, hqueue⟩ := q.takeRequest_eq
    rw [if_pos hphase, heq]
    refine ⟨q.takeRequest.1, q.takeRequest.2, rfl, ?_, fun hg => ?_⟩
    · rw [htaken]
      exact { hagree with }
    · have hshows := hnext hg
      unfold Ready at hshows ⊢
      rw [hqueue, ← List.append_assoc] at hshows
      rw [htaken]
      exact hshows.congr rfl rfl rfl rfl
  · have hphase : ¬ (p.phase = .playing ∧ p.started = true) := fun hp =>
      hplaying (h.playing.mpr hp)
    rw [if_neg hplaying] at hplay
    obtain ⟨rfl, rfl, rfl, rfl⟩ :
        { error := some .notStarted } = outcome ∧ f = g ∧ chip = chip' ∧ timer = timer' := by
      simpa using hplay
    rw [if_neg hphase]
    exact ⟨none, p, rfl, h, fun hg => absurd hg hplaying⟩

end
end ChipReplay
