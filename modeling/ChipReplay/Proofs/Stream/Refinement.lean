import ChipReplay.Proofs.Stream.Simulation
import ChipReplay.Proofs.Vgm.Header
/-!
# Windowed playback refines flat playback

Two things live here:

* `Feed`, a playback whose host takes the refills that the player asks for and serves them in
  order, each at a time of its own choice; and `Timely`, that none is served too late;
* `run_refines_flat`: what a timely run does is what the flat interpreter does on the whole stream.

A run is a list of actions. Between updates the filter, the chip and the timer may change in any
way. How many commands an update deals with is read off the run (`paced`), since it depends on
where the regions end; what these commands do does not.
-/

namespace ChipReplay

/-! ## Runs -/

/-- A playback beside a host that has taken some refills and not served them yet. -/
structure Feed where
  playback : Playback
  /-- The refills that the host has taken, oldest first. -/
  waiting : List Refill

namespace Feed

/-- What may happen in a run. -/
inductive Action where
  | update
  /-- The host takes the oldest refill that the player has not handed out. -/
  | collect
  /-- The host serves the oldest refill it has taken. -/
  | serve
  /-- The live filter changes. -/
  | retune (change : ChannelFilter → ChannelFilter)
  /-- The chip and the timer change. -/
  | disturb (chip : Recorder → Recorder) (timer : Timer → Timer)

/-- A feed that has not done anything yet. -/
def start (stream : ByteArray) (window : Window) (player : Player) (chip : Recorder)
    (timer : Timer) : Feed :=
  { playback := { stream, window, player, chip, timer }, waiting := [] }

/-- What an action does, and the update it made, if it is one. -/
def step (g : Feed) : Action → List Played × Feed
  | .update =>
    let (outcome, request, playback) := g.playback.update
    ([⟨outcome, playback.player.streamOffset⟩],
      { playback, waiting := g.waiting ++ request.toList })
  | .collect =>
    let (request, player) := g.playback.player.takeRequest
    ([], { playback := { g.playback with player }, waiting := g.waiting ++ request.toList })
  | .serve =>
    match g.waiting with
    | [] => ([], g)
    | r :: waiting => ([], { playback := g.playback.serve r, waiting })
  | .retune change =>
    ([], { g with playback.player.filter := change g.playback.player.filter })
  | .disturb chip timer =>
    ([], { g with
      playback.chip := chip g.playback.chip, playback.timer := timer g.playback.timer })

/-- The actions one after the other. The answer is what the updates did, in order. -/
def run (g : Feed) : List Action → List Played × Feed
  | [] => ([], g)
  | action :: rest =>
    let (played, g) := g.step action
    let (later, g) := run g rest
    (played ++ later, g)

/-- The window offsets that an update would read. -/
def reads (g : Feed) : List Nat := g.playback.player.reads g.playback.window g.playback.chip

/-- No update reads a byte that a refill asked for before it still covers. -/
def Timely (g : Feed) : List Action → Prop
  | [] => True
  | action :: rest =>
    (action = .update → ∀ i ∈ g.reads, Clear g.waiting g.playback.player i) ∧
      Timely (g.step action).2 rest

/-- How many commands an update would deal with. -/
def pace (g : Feed) : Nat :=
  (g.playback.player.visits g.playback.window g.playback.chip).length

/-- The actions, each with the number of commands that it deals with if it is an update. -/
def paced (g : Feed) : List Action → List (Action × Nat)
  | [] => []
  | action :: rest => (action, g.pace) :: paced (g.step action).2 rest

end Feed

/-- The flat interpreter with its chip and timer. -/
structure FlatPlayback where
  player : FlatPlayer
  chip : Recorder
  timer : Timer

namespace FlatPlayback

/-- The flat interpreter at the first command of the stream that `p` plays. -/
def start (p : Player) (chip : Recorder) (timer : Timer) : FlatPlayback where
  player :=
    { start := p.start.toNat, loop := p.loop.toNat, position := p.start.toNat, reached := false
      loopCount := 0, filter := p.filter, playing := true }
  chip := chip
  timer := timer

/-- What an action does. There is nothing to be taken or served. -/
def step (stream : ByteArray) (g : FlatPlayback) :
    Feed.Action × Nat → Option (List Played × FlatPlayback)
  | (.update, pace) =>
    match g.player.update stream pace g.chip g.timer with
    | none => none
    | some (outcome, player, chip, timer) =>
      some ([⟨outcome, UInt32.ofNat player.position⟩], { player, chip, timer })
  | (.collect, _) | (.serve, _) => some ([], g)
  | (.retune change, _) => some ([], { g with player.filter := change g.player.filter })
  | (.disturb chip timer, _) => some ([], { g with chip := chip g.chip, timer := timer g.timer })

/-- The actions one after the other, unless the stream ends inside a command. -/
def run (stream : ByteArray) (g : FlatPlayback) :
    List (Feed.Action × Nat) → Option (List Played × FlatPlayback)
  | [] => some ([], g)
  | action :: rest =>
    match g.step stream action with
    | none => none
    | some (played, g) =>
      match run stream g rest with
      | none => none
      | some (later, g) => some (played ++ later, g)

end FlatPlayback

/-! ## Simulation -/

/-- The feed is where the flat interpreter is, and will be served what it needs. -/
structure Follows (stream : ByteArray) (g : Feed) (f : FlatPlayback) : Prop where
  stream_eq : g.playback.stream = stream
  agrees : Agrees f.player g.playback.player
  ready : f.player.playing = true →
    Ready stream g.playback.window g.waiting g.playback.player
  chip_eq : g.playback.chip = f.chip
  timer_eq : g.playback.timer = f.timer

namespace Follows

variable {stream : ByteArray} {g : Feed} {f : FlatPlayback}

/-- Every action keeps the feed where the flat interpreter is. -/
theorem step (h : Follows stream g f) (hsize : stream.size + 0x8000 < 2 ^ 32)
    {action : Feed.Action}
    (htimely : action = .update → ∀ i ∈ g.reads, Clear g.waiting g.playback.player i)
    {played : List Played} {f' : FlatPlayback}
    (hflat : f.step stream (action, g.pace) = some (played, f')) :
    (g.step action).1 = played ∧ Follows stream (g.step action).2 f' := by
  have hstream := h.stream_eq
  cases action with
  | update =>
    simp only [FlatPlayback.step] at hflat
    rcases hplay : f.player.update stream g.pace f.chip f.timer with
      _ | ⟨outcome, player, chip, timer⟩
    · simp [hplay] at hflat
    · obtain ⟨rfl, rfl⟩ :
          [⟨outcome, UInt32.ofNat player.position⟩] = played ∧
            ({ player, chip, timer } : FlatPlayback) = f' := by
        simpa [hplay] using hflat
      rw [← h.chip_eq, ← h.timer_eq] at hplay
      obtain ⟨request, q, hupdate, hagree, hready⟩ :=
        update_simulates hsize h.agrees h.ready (htimely rfl) hplay
      have hposition : q.streamOffset = UInt32.ofNat player.position := by
        rw [hagree.position, ← Position.streamOffset_eq]
        rfl
      have hstep : g.step .update =
          ([⟨outcome, q.streamOffset⟩],
            { playback := { g.playback with player := q, chip, timer }
              waiting := g.waiting ++ request.toList }) := by
        simp only [Feed.step, Playback.update, hupdate]
      rw [hstep, hposition]
      exact ⟨rfl, hstream, hagree, hready, rfl, rfl⟩
  | collect =>
    obtain ⟨rfl, rfl⟩ : [] = played ∧ f = f' := by simpa [FlatPlayback.step] using hflat
    -- the oldest of the player's refills becomes the newest of those that wait
    obtain ⟨requests, htaken, hqueue⟩ := g.playback.player.takeRequest_eq
    refine ⟨rfl, hstream, ?_, fun hplaying => ?_, h.chip_eq, h.timer_eq⟩
    · show Agrees f.player g.playback.player.takeRequest.2
      rw [htaken]
      exact { h.agrees with }
    · show Ready stream g.playback.window (g.waiting ++ g.playback.player.takeRequest.1.toList)
        g.playback.player.takeRequest.2
      have hready := h.ready hplaying
      unfold Ready at hready ⊢
      rw [hqueue, ← List.append_assoc] at hready
      rw [htaken]
      exact hready.congr rfl rfl rfl rfl
  | serve =>
    obtain ⟨rfl, rfl⟩ : [] = played ∧ f = f' := by simpa [FlatPlayback.step] using hflat
    unfold Feed.step
    cases hwaiting : g.waiting with
    | nil => exact ⟨rfl, h⟩
    | cons r waiting =>
      dsimp only
      rw [serve_eq]
      refine ⟨rfl, hstream, h.agrees, fun hplaying => ?_, h.chip_eq, h.timer_eq⟩
      have hready := h.ready hplaying
      unfold Ready at hready ⊢
      -- the refill that is served is the first that `settled` serves
      rw [hwaiting, List.cons_append, settled_cons] at hready
      dsimp only
      rwa [hstream]
  | retune change =>
    obtain ⟨rfl, rfl⟩ : [] = played ∧
        { f with player.filter := change f.player.filter } = f' := by
      simpa [FlatPlayback.step] using hflat
    refine ⟨rfl, hstream, { h.agrees with filter := ?_ }, fun hplaying => ?_, h.chip_eq,
      h.timer_eq⟩
    · show change f.player.filter = change g.playback.player.filter
      rw [h.agrees.filter]
    · exact (h.ready hplaying).congr rfl rfl rfl rfl
  | disturb chip timer =>
    obtain ⟨rfl, rfl⟩ : [] = played ∧
        { f with chip := chip f.chip, timer := timer f.timer } = f' := by
      simpa [FlatPlayback.step] using hflat
    refine ⟨rfl, hstream, h.agrees, h.ready, ?_, ?_⟩
    · show chip g.playback.chip = chip f.chip
      rw [h.chip_eq]
    · show timer g.playback.timer = timer f.timer
      rw [h.timer_eq]

/-- A timely run keeps the feed where the flat interpreter is. -/
theorem run (h : Follows stream g f) (hsize : stream.size + 0x8000 < 2 ^ 32)
    {actions : List Feed.Action} (htimely : g.Timely actions) {played : List Played}
    {f' : FlatPlayback} (hflat : f.run stream (g.paced actions) = some (played, f')) :
    (g.run actions).1 = played ∧ Follows stream (g.run actions).2 f' := by
  induction actions generalizing g f played f' with
  | nil =>
    obtain ⟨rfl, rfl⟩ : [] = played ∧ f = f' := by simpa [Feed.paced, FlatPlayback.run] using hflat
    exact ⟨rfl, h⟩
  | cons action rest ih =>
    -- the first action, and then the rest from where it leads
    rw [Feed.paced, FlatPlayback.run] at hflat
    rcases hfirst : f.step stream (action, g.pace) with _ | ⟨played₁, f₁⟩
    · simp [hfirst] at hflat
    · rcases hrest : f₁.run stream ((g.step action).2.paced rest) with _ | ⟨later, f₂⟩
      · simp [hfirst, hrest] at hflat
      · obtain ⟨rfl, rfl⟩ : played₁ ++ later = played ∧ f₂ = f' := by
          simpa [hfirst, hrest] using hflat
        obtain ⟨hplayed, hfollows⟩ := h.step hsize htimely.1 hfirst
        obtain ⟨hlater, hend⟩ := ih hfollows htimely.2 hrest
        refine ⟨?_, hend⟩
        show (g.step action).1 ++ ((g.step action).2.run rest).1 = _
        rw [hplayed, hlater]

/-- A playback that begins is where the flat interpreter is if the linear region holds the first
bytes of the stream. -/
theorem start {w : Window}
    (hlinear : ∀ i < min stream.size linearEnd, w.byte i = Bytes.peek stream i)
    {p q : Player} (hbegin : p.begin w = (.ok (), q)) (chip : Recorder) (timer : Timer) :
    Follows stream (.start stream w q chip timer) (.start q chip timer) := by
  obtain ⟨header, -, hstart, rfl⟩ := Player.begin_eq_ok hbegin
  refine ⟨rfl, ?_, fun _ => ?_, rfl, rfl⟩
  · refine ⟨rfl, rfl, ?_, ?_, rfl, rfl, ?_⟩
    · simp [FlatPlayback.start, Feed.start, Player.begun, Position.offset, Position.enter]
    · simp [FlatPlayback.start, Feed.start, Player.begun]
    · simp [FlatPlayback.start, Feed.start, Player.begun]
  · have hshown : Shown stream w 0 0 linearEnd := by
      intro k hk hend
      rw [Nat.zero_add] at hend ⊢
      exact hlinear k (by omega)
    exact Shows.of_rewind hstart rfl hshown (fun h => absurd h (by simp [Feed.start, Player.begun]))
      (fun h => absurd h (by simp [Feed.start, Player.begun]))

end Follows

/-- Windowed playback refines flat playback: whatever the order of updates and served refills, as
long as it is timely, and however the filter and the chip change between updates, the updates do
what the flat interpreter does with the same commands of the whole stream, and leave the chip, the
timer, the filter and the place in the stream as it does. -/
theorem Feed.run_refines_flat {stream : ByteArray} (hsize : stream.size + 0x8000 < 2 ^ 32)
    {w : Window} (hlinear : ∀ i < min stream.size linearEnd, w.byte i = Bytes.peek stream i)
    {p q : Player} (hbegin : p.begin w = (.ok (), q)) (chip : Recorder) (timer : Timer)
    {actions : List Feed.Action} (htimely : (Feed.start stream w q chip timer).Timely actions)
    {played : List Played} {f : FlatPlayback}
    (hflat : (FlatPlayback.start q chip timer).run stream
      ((Feed.start stream w q chip timer).paced actions) = some (played, f)) :
    ∃ g, (Feed.start stream w q chip timer).run actions = (played, g) ∧
      g.playback.chip = f.chip ∧ g.playback.timer = f.timer ∧
      g.playback.player.streamOffset = UInt32.ofNat f.player.position ∧
      g.playback.player.loopCount = f.player.loopCount ∧
      g.playback.player.filter = f.player.filter ∧
      (g.playback.player.phase = .playing ∧ g.playback.player.started = true ↔
        f.player.playing = true) := by
  have hstart := Follows.start hlinear hbegin chip timer
  obtain ⟨hplayed, hend⟩ := hstart.run hsize htimely hflat
  generalize (Feed.start stream w q chip timer).run actions = r at hplayed hend
  obtain ⟨played', g⟩ := r
  obtain rfl : played' = played := hplayed
  have hoffset : g.playback.player.streamOffset = UInt32.ofNat f.player.position := by
    rw [hend.agrees.position, ← Position.streamOffset_eq]
    rfl
  exact ⟨g, rfl, hend.chip_eq, hend.timer_eq, hoffset, hend.agrees.loopCount.symm,
    hend.agrees.filter.symm, hend.agrees.playing.symm⟩

/-! ## A short stream -/

/-- A stream that waits for a frame and ends. -/
def frameStream : ByteArray :=
  ⟨vgmIdent.toArray ++ Array.replicate 0x3C 0 ++ #[0x62, 0x66] ++ Array.replicate 0x0E 0⟩

/-- Its header. -/
def frameHeader : Header :=
  { version := 0, totalSamples := 0, start := 0x40, loop := 0, loopSamples := 0, clock := 0 }

/-- The player at the wait. -/
def framePlayer : Player := Player.initial.begun frameHeader

theorem size_frameStream : frameStream.size = 0x50 := by decide

theorem readOffset_framePlayer : framePlayer.position.readOffset = 0x40 := by decide

theorem toList_vgmIdent : (⟨vgmIdent.toArray⟩ : ByteArray).toList = vgmIdent := by
  rw [ByteArray.toList]
  iterate 5 rw [ByteArray.toList.loop]
  rfl

theorem read_frameStream : Header.read frameStream = .ok frameHeader := by
  have hident : Bytes.slice frameStream HeaderField.ident.offset 4 = .ok ⟨vgmIdent.toArray⟩ := rfl
  have hlist : ¬ (⟨vgmIdent.toArray⟩ : ByteArray).toList ≠ vgmIdent := fun h => h toList_vgmIdent
  unfold Header.read
  rw [hident]
  show (if (⟨vgmIdent.toArray⟩ : ByteArray).toList ≠ vgmIdent then _ else _) = _
  rw [if_neg hlist]
  rfl

section

variable {w : Window} (hw : ∀ i < 0x50, w.byte i = Bytes.peek frameStream i)
include hw

theorem begin_frameStream : Player.initial.begin w = (.ok (), framePlayer) := by
  have hsize : headerSize ≤ w.bytes.size := by
    rw [w.size_eq]
    decide
  have hread : Header.read w.bytes = .ok frameHeader := by
    rw [← read_frameStream]
    exact Header.read_congr hsize (Nat.le_of_eq size_frameStream.symm) hw
  have hstart : ¬ linearEnd ≤ frameHeader.start.toNat := by decide
  refine Player.begin_of_readHeader ?_ _
  unfold Player.readHeader
  rw [hread]
  dsimp only
  rw [if_neg hstart]

theorem opcode_framePlayer : framePlayer.opcode w = .pause Opcode.frame60 := by
  have hbyte : Bytes.peek frameStream 0x40 = 0x62 := by decide
  rw [Player.opcode, Player.peek, readOffset_framePlayer, hw 0x40 (by omega), hbyte]
  decide

theorem turn_framePlayer (chip : Recorder) :
    framePlayer.turn w chip = (.waits Opcode.frame60, framePlayer.past, chip) := by
  have hop := opcode_framePlayer hw
  simp [Player.turn, Player.askChip, Player.step_eq, hop, Opcode.isWrite, Player.Ending.ofStep,
    Opcode.frame60]

theorem visits_framePlayer (chip : Recorder) :
    framePlayer.visits w chip = [(framePlayer, chip)] := by
  have hplaying : framePlayer.phase = .playing ∧ framePlayer.started = true := ⟨rfl, rfl⟩
  rw [Player.visits, if_pos hplaying, Player.commandLimit, Player.visitsUpTo, turn_framePlayer hw]

theorem timely_framePlayer (chip : Recorder) (timer : Timer) :
    (Feed.start frameStream w framePlayer chip timer).Timely [.update, .serve] := by
  refine ⟨fun _ i hi r hr => ?_, fun h => absurd h (by simp), trivial⟩
  have hoffset : i = 0x40 := by
    change i ∈ framePlayer.reads w chip at hi
    have hreads : framePlayer.reads w chip = [0x40, 0x40] := by
      simp [Player.reads, visits_framePlayer hw, Player.turnReads, Player.askChip,
        opcode_framePlayer hw, Opcode.isWrite, Opcode.operands, Player.readOffsets,
        readOffset_framePlayer]
    simpa [hreads] using hi
  have hasked : r ∈ Player.preload (UInt32.ofNat linearEnd) := hr
  rw [Player.preload, List.mem_cons, List.mem_singleton] at hasked
  rw [hoffset]
  rcases hasked with rfl | rfl
  · rw [Refill.covers_ofRegion (by decide)]
    decide
  · rw [Refill.covers_ofRegion (by decide)]
    decide

theorem run_frameStream (chip : Recorder) (timer : Timer) :
    (FlatPlayback.start framePlayer chip timer).run frameStream
      ((Feed.start frameStream w framePlayer chip timer).paced [.update, .serve]) =
    some ([⟨{ delay := Opcode.frame60 }, 0x41⟩],
      { player := (FlatPlayback.start framePlayer chip timer).player.past
        chip := chip
        timer := timer.arm Opcode.frame60 }) := by
  have hpace : (Feed.start frameStream w framePlayer chip timer).pace = 1 := by
    show (framePlayer.visits w chip).length = 1
    rw [visits_framePlayer hw]
    rfl
  rw [Feed.paced, Feed.paced, Feed.paced, hpace]
  rfl

end

/-- The window that holds the stream. -/
def frameWindow : Window :=
  Window.zero.put 0 frameStream (by rw [size_frameStream]; decide)

theorem byte_frameWindow : ∀ i < 0x50, frameWindow.byte i = Bytes.peek frameStream i := by
  intro i hi
  have hcovered : 0 ≤ i ∧ i < 0 + frameStream.size := by
    rw [size_frameStream]
    omega
  rw [frameWindow, Window.byte_put, if_pos hcovered, Nat.sub_zero]

/-- One frame is waited for, whatever the chip and the timer, and a refill is served meanwhile. -/
theorem Feed.run_refines_flat_frame :
    ∃ g, (Feed.start frameStream frameWindow framePlayer (.fresh (fun _ => true) true)
        { manual := true }).run [.update, .serve] = ([⟨{ delay := Opcode.frame60 }, 0x41⟩], g) ∧
      g.playback.player.streamOffset = 0x41 ∧ g.playback.player.loopCount = 0 := by
  have hw := byte_frameWindow
  have hlinear : ∀ i < min frameStream.size linearEnd,
      frameWindow.byte i = Bytes.peek frameStream i := by
    intro i hi
    rw [size_frameStream] at hi
    exact hw i (by omega)
  obtain ⟨g, hrun, -, -, hoffset, hcount, -⟩ :=
    Feed.run_refines_flat (by rw [size_frameStream]; decide) hlinear (begin_frameStream hw)
      (.fresh (fun _ => true) true) { manual := true } (timely_framePlayer hw _ _)
      (run_frameStream hw _ _)
  exact ⟨g, hrun, hoffset, hcount⟩

end ChipReplay
