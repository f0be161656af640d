import ChipReplay.Proofs.Preparation.Playable
import ChipReplay.Proofs.Stream.Refinement
/-!
# Playing a stream through

What an update plays is the list of the commands that its turns take (`Player.commands`), read in
the window with their operands. Playing a playable stream goes from pass to pass: the flat
interpreter stands between two commands of a pass (`Midway`), a turn takes the next one or waits for
the chip (`turn_plays`), and the end of a pass is the beginning of another. This is lifted to
updates (`playUpTo_plays`) and to runs in which every refill is served after the update that asked
for it (`Playable.after`).
-/

namespace ChipReplay

open Bytes

/-! ## What a player plays -/

namespace Player

/-- The command that the player looks at, with its operands; none where it would stop. -/
def command? (p : Player) (w : Window) : Option Command :=
  match p.opcode w with
  | .write port => some (.write port (p.past.peek w) (p.past.past.peek w))
  | .wait => some (.wait (word16 (p.past.peek w) (p.past.past.peek w)))
  | .pause samples => some (.pause (p.peek w) samples)
  | .endOfStream => some .endOfStream
  | .dataBlock | .unknown => none

/-- The command that a turn plays and its place in the stream; none if the chip is not ready. -/
def played? (w : Window) (v : Player × Recorder) : Option Located :=
  if (v.1.askChip w v.2).1 then
    (v.1.command? w).map fun c => ⟨v.1.streamOffset.toNat, c⟩
  else none

/-- The commands that at most `limit` turns play, in order. -/
def commandsUpTo (w : Window) (limit : Nat) (p : Player) (chip : Recorder) : List Located :=
  (visitsUpTo w limit p chip).filterMap (played? w)

/-- The commands that an update plays, in order. -/
def commands (p : Player) (w : Window) (chip : Recorder) : List Located :=
  (p.visits w chip).filterMap (played? w)

theorem commandsUpTo_succ (w : Window) (limit : Nat) (p : Player) (chip : Recorder) :
    commandsUpTo w (limit + 1) p chip = (played? w (p, chip)).toList ++
      match p.turn w chip with
      | (.proceeds, q, chip) => commandsUpTo w limit q chip
      | _ => [] := by
  rw [commandsUpTo, visitsUpTo, List.filterMap_cons]
  rcases p.turn w chip with ⟨ending, q, chip'⟩
  cases ending <;> cases played? w (p, chip) <;> rfl

/-- A turn plays nothing while the chip is not ready. -/
theorem turn_of_not_ready {p : Player} {w : Window} {chip chip' : Recorder}
    (h : p.askChip w chip = (false, chip')) :
    p.turn w chip = (.busy, p, chip') ∧ played? w (p, chip) = none := by
  rw [turn, played?, h]
  exact ⟨rfl, rfl⟩

/-- Samples to wait after a turn. -/
def Ending.samples : Ending → Nat
  | waits delay => delay.toNat
  | proceeds | busy | yields | fails _ => 0

/-- A timer sums up what it was armed with. -/
theorem Ending.total_arm (e : Ending) (timer : Timer) :
    (e.arm timer).total = timer.total + e.samples := by
  cases e with
  | waits delay =>
    show (timer.arm delay).total = timer.total + delay.toNat
    unfold Timer.arm
    by_cases hzero : delay = 0
    · rw [if_pos hzero, hzero]
      rfl
    · rw [if_neg hzero]
  | proceeds | busy | yields | fails => rfl

end Player

/-- The command's opcode. -/
def Command.opcode : Command → Opcode
  | write port .. => .write port
  | wait _ => .wait
  | pause _ samples => .pause samples
  | endOfStream => .endOfStream
  | block _ => .dataBlock

theorem Command.length_eq {c : Command} (hblock : c.block? = none) :
    c.length = 1 + c.opcode.operands := by
  cases c with
  | block b => cases hblock
  | write | wait | pause | endOfStream => rfl

/-! ## The flat interpreter in a pass -/

namespace FlatPlayer

variable {stream : ByteArray} {f g : FlatPlayer} {c : Command}

theorem opcode_of_at (h : c.At stream f.position) : f.opcode stream = c.opcode := by
  unfold opcode peek
  cases h with
  | write port hcode hfits =>
    rw [hcode]
    cases port <;> rfl
  | wait hcode hfits | endOfStream hcode hfits | block b hcode hblock =>
    rw [hcode]
    rfl
  | pause samples hcode hfits => exact hcode

/-- `g` is `f` once it has played the command `c`. -/
structure Played (f : FlatPlayer) (c : Command) (g : FlatPlayer) : Prop where
  start : g.start = f.start
  loop : g.loop = f.loop
  playing : g.playing = f.playing
  onward : c.isEnd = false → g.position = f.position + c.length ∧ g.loopCount = f.loopCount
  back : c.isEnd = true → g.loopCount = f.loopCount + 1 ∧
    g.position = if f.loop ≠ 0 ∧ (f.reached = true ∨ f.loop ≤ f.position) then f.loop else f.start

/-- How an update goes on after the command `c`. -/
structure Ends (c : Command) (ending : Player.Ending) : Prop where
  samples : ending.samples = c.waitSamples
  error : ending.outcome.error = none
  isEnd : ending = .proceeds → c.isEnd = false

theorem ends_ofStep {delay : UInt32} (h : delay.toNat = c.waitSamples) :
    Ends c (.ofStep c.opcode delay false) := by
  have hend : c.opcode ≠ .endOfStream → c.isEnd = false := by
    intro hop
    cases c with
    | endOfStream => exact absurd rfl hop
    | write | wait | pause | block => rfl
  unfold Player.Ending.ofStep
  by_cases hdelay : delay = 0
  · have hzero : c.waitSamples = 0 := by
      rw [← h, hdelay]
      rfl
    rw [if_neg (not_not.mpr hdelay)]
    by_cases hop : c.opcode = .endOfStream
    · rw [if_pos (.inl hop)]
      exact ⟨hzero.symm, rfl, nofun⟩
    · rw [if_neg (by simp [hop])]
      exact ⟨hzero.symm, rfl, fun _ => hend hop⟩
  · rw [if_pos hdelay]
    exact ⟨h, rfl, nofun⟩

theorem step_of_at (h : c.At stream f.position) (hblock : c.block? = none) (chip : Recorder) :
    ∃ delay g chip', f.step stream chip = (.ok delay, g, chip') ∧ delay.toNat = c.waitSamples ∧
      Played f c g := by
  have hop := opcode_of_at h
  unfold step
  rw [hop]
  cases h with
  | write port hcode hfits => exact ⟨0, _, _, rfl, rfl, rfl, rfl, rfl, fun _ => ⟨rfl, rfl⟩, nofun⟩
  | wait hcode hfits =>
    exact ⟨_, _, _, rfl, UInt16.toNat_toUInt32 _, rfl, rfl, rfl, fun _ => ⟨rfl, rfl⟩, nofun⟩
  | pause samples hcode hfits =>
    exact ⟨_, _, _, rfl, rfl, rfl, rfl, rfl, fun _ => ⟨rfl, rfl⟩, nofun⟩
  | endOfStream hcode hfits =>
    refine ⟨0, _, _, rfl, rfl, rfl, rfl, rfl, nofun, fun _ => ⟨rfl, ?_⟩⟩
    show (if f.loop ≠ 0 ∧ (f.reached || decide (f.loop ≤ f.position)) = true then f.loop
      else f.start) = _
    simp only [Bool.or_eq_true, decide_eq_true_eq]
  | block b hcode hbytes => cases hblock

/-- The flat interpreter plays the command that it looks at once the chip is ready for it. -/
theorem turn_of_at (h : c.At stream f.position) (hblock : c.block? = none) {chip chip₁ : Recorder}
    (hanswer : (if c.opcode.isWrite then chip.ready else (true, chip)) = (true, chip₁)) :
    ∃ ending g chip', f.turn stream chip = some (ending, g, chip') ∧ Played f c g ∧
      Ends c ending := by
  have hfits := h.fits
  have hoperands := Command.length_eq hblock
  obtain ⟨delay, g, chip', hstep, hdelay, hplayed⟩ := step_of_at h hblock chip₁
  refine ⟨.ofStep c.opcode delay false, g, chip', ?_, hplayed, ends_ofStep hdelay⟩
  rw [turn, if_pos h.lt_size, opcode_of_at h, hanswer]
  dsimp only
  rw [if_pos (by omega), hstep]

end FlatPlayer

/-! ## Passes one after the other -/

/-- The commands of the pass that comes after `k` others. -/
def passAt (first later : List Located) : Nat → List Located
  | 0 => first
  | _ + 1 => later

/-- The commands of `k` passes. -/
def passes (first later : List Located) : Nat → List Located
  | 0 => []
  | k + 1 => passes first later k ++ passAt first later k

/-- More passes only add commands. -/
theorem passes_mono (first later : List Located) {n k : Nat} (h : n ≤ k) :
    passes first later n <+: passes first later k := by
  induction h with
  | refl => exact List.prefix_refl _
  | step _ ih => exact ih.trans (List.prefix_append _ _)

/-- After `k` passes and the commands `part` of the next one, playing `commands` leads to `k'`
passes and `part'`. They lie in one pass, and may end it. -/
inductive Continues (first later : List Located) (k : Nat) (part : List Located) :
    List Located → Nat → List Located → Prop
  | within (commands : List Located) : Continues first later k part commands k (part ++ commands)
  | ending (commands : List Located) (hends : part ++ commands = passAt first later k) :
      Continues first later k part commands (k + 1) []

/-- Commands of the same pass may be played in two parts. -/
theorem Continues.append {first later commands more : List Located} {k k' : Nat}
    {part part' : List Located} (h : Continues first later k (part ++ commands) more k' part') :
    Continues first later k part (commands ++ more) k' part' := by
  cases h with
  | within =>
    rw [List.append_assoc]
    exact .within _
  | ending hends =>
    rw [List.append_assoc] at hends
    exact .ending _ hends

/-- The flat interpreter has played `k` passes and the commands `part` of the next one. -/
structure Midway (stream : ByteArray) (start loop : UInt32) (first later : List Located)
    (f : FlatPlayer) (k : Nat) (part : List Located) : Prop where
  playing : f.playing = true
  start_eq : f.start = start.toNat
  loop_eq : f.loop = loop.toNat
  loopCount : f.loopCount = UInt32.ofNat k
  ahead : ∃ rest, Pass stream f.position rest ∧ passAt first later k = part ++ rest

section

variable {stream : ByteArray} {start loop : UInt32} {first later : List Located}

/-- All passes end with the same command. -/
theorem Playable.getLast?_passAt (h : Playable stream start loop first later) (k : Nat) :
    (passAt first later k).getLast? = later.getLast? := by
  cases k with
  | zero =>
    obtain ⟨before, hfirst⟩ := h.suffix
    show first.getLast? = later.getLast?
    rw [← hfirst, List.getLast?_append_of_ne_nil before h.later_pass.ne_nil]
  | succ k => rfl

variable {f g : FlatPlayer} {k : Nat} {part : List Located}

/-- The end of the stream is not in front of the place where the next pass begins. -/
theorem Playable.le_of_ends (h : Playable stream start loop first later) {i : Nat}
    (hends : passAt first later k = part ++ [⟨i, .endOfStream⟩]) :
    (if loop = 0 then start else loop).toNat ≤ i := by
  obtain ⟨place, hlast, hle⟩ := h.later_pass.exists_last
  rw [← h.getLast?_passAt k, hends, List.getLast?_concat] at hlast
  obtain rfl := congrArg Located.offset (Option.some.inj hlast)
  exact hle

/-- Between two commands of a pass there is always a next one. Once it is played, the flat
interpreter stands behind it, or at the beginning of another pass. -/
theorem Midway.next (h : Midway stream start loop first later f k part)
    (hplayable : Playable stream start loop first later) :
    ∃ c, c.At stream f.position ∧ c.block? = none ∧ ∀ g, FlatPlayer.Played f c g →
      ∃ k' part', Midway stream start loop first later g k' part' ∧
        Continues first later k part [⟨f.position, c⟩] k' part' ∧
        (c.isEnd = false → k' = k ∧ part' = part ++ [⟨f.position, c⟩]) := by
  obtain ⟨rest, hrest, hsplit⟩ := h.ahead
  generalize hposition : f.position = i at hrest
  cases hrest with
  | last hcommand =>
    refine ⟨.endOfStream, hcommand, rfl, fun g hg => ?_⟩
    obtain ⟨hcount, hback⟩ := hg.back rfl
    have hle := hplayable.le_of_ends hsplit
    have hnext : g.position = (if loop = 0 then start else loop).toNat := by
      rw [hback, h.loop_eq, h.start_eq, hposition]
      by_cases hzero : loop = 0
      · rw [if_pos hzero, if_neg (by simp [hzero])]
      · have hne : loop.toNat ≠ 0 := fun h => hzero (UInt32.toNat_inj.mp h)
        rw [if_neg hzero] at hle ⊢
        rw [if_pos ⟨hne, .inr hle⟩]
    refine ⟨k + 1, [], ?_, .ending _ hsplit.symm, nofun⟩
    refine ⟨hg.playing.trans h.playing, hg.start.trans h.start_eq, hg.loop.trans h.loop_eq, ?_,
      later, ?_, rfl⟩
    · rw [hcount, h.loopCount, UInt32.ofNat_add]
      rfl
    · rw [hnext]
      exact hplayable.later_pass
  | next hcommand hend hblock hrest =>
    rename_i c rest
    refine ⟨c, hcommand, hblock, fun g hg => ?_⟩
    obtain ⟨hmoved, hcount⟩ := hg.onward hend
    refine ⟨k, part ++ [⟨i, c⟩], ?_, .within _, fun _ => ⟨rfl, rfl⟩⟩
    refine ⟨hg.playing.trans h.playing, hg.start.trans h.start_eq, hg.loop.trans h.loop_eq,
      hcount.trans h.loopCount, rest, ?_, ?_⟩
    · rw [hmoved, hposition]
      exact hrest
    · rw [hsplit, List.append_assoc, List.singleton_append]

/-! ## Turns -/

variable {w : Window} {waiting : List Refill} {p : Player}

/-- The player reads the command that stands in the stream. -/
theorem Agrees.command_of_at (h : Agrees f p) (hready : Ready stream w waiting p)
    (hsize : stream.size + 0x8000 < 2 ^ 32)
    (hclear : ∀ i ∈ Player.readOffsets (1 + (p.opcode w).operands) p, Clear waiting p i)
    {c : Command} (hcommand : c.At stream f.position) (hblock : c.block? = none) :
    p.command? w = some c := by
  have hfirst : Clear waiting p p.position.readOffset :=
    hclear _ (by simp [Player.readOffsets, Nat.add_comm 1])
  obtain ⟨hpeek, hop⟩ := h.opcode hready hfirst hcommand.lt_size
  rw [FlatPlayer.opcode_of_at hcommand] at hop
  rw [hop] at hclear
  unfold Player.command?
  rw [hop]
  cases hcommand with
  | write port hcode hfits =>
    obtain ⟨hsecond, hthird, -⟩ := h.operands hready hsize hclear (by omega)
    show some (Command.write port (p.past.peek w) (p.past.past.peek w)) = _
    rw [hsecond, hthird]
    rfl
  | wait hcode hfits =>
    obtain ⟨hsecond, hthird, -⟩ := h.operands hready hsize hclear (by omega)
    show some (Command.wait (word16 (p.past.peek w) (p.past.past.peek w))) = _
    rw [hsecond, hthird]
    rfl
  | pause samples hcode hfits =>
    show some (Command.pause (p.peek w) samples) = _
    rw [hpeek]
    rfl
  | endOfStream hcode hfits => rfl
  | block b hcode hbytes => cases hblock

/-- Once the chip is ready for it, a turn plays the command that stands in the stream. -/
theorem turn_of_ready (h : Agrees f p) (hready : Ready stream w waiting p)
    (hsize : stream.size + 0x8000 < 2 ^ 32) {chip chip₁ : Recorder}
    (hclear : ∀ i ∈ Player.turnReads w (p, chip), Clear waiting p i)
    (hanswer : p.askChip w chip = (true, chip₁)) {c : Command} (hcommand : c.At stream f.position)
    (hblock : c.block? = none) :
    Player.played? w (p, chip) = some ⟨f.position, c⟩ ∧
      ∃ ending q chip' g, p.turn w chip = (ending, q, chip') ∧ Agrees g q ∧
        (g.playing = true → Ready stream w waiting q) ∧ FlatPlayer.Played f c g ∧
        FlatPlayer.Ends c ending := by
  have hfirst := hclear _ (List.mem_cons_self ..)
  have hop : p.opcode w = c.opcode := by
    rw [(h.opcode hready hfirst hcommand.lt_size).2, FlatPlayer.opcode_of_at hcommand]
  have hall : ∀ i ∈ Player.readOffsets (1 + (p.opcode w).operands) p, Clear waiting p i := by
    intro i hi
    apply hclear
    rw [Player.turnReads, hanswer, if_pos rfl]
    exact List.mem_cons_of_mem _ hi
  have hoffset : p.streamOffset.toNat = f.position := by
    rw [Shows.toNat_streamOffset hready, h.position]
  have hplayed? : Player.played? w (p, chip) = some ⟨f.position, c⟩ := by
    rw [Player.played?, hanswer, if_pos rfl,
      h.command_of_at hready hsize hall hcommand hblock, ← hoffset]
    rfl
  rw [Player.askChip, hop] at hanswer
  obtain ⟨ending, g, chip', hflat, hplayed, hends⟩ :=
    FlatPlayer.turn_of_at hcommand hblock hanswer
  obtain ⟨ending', q, hturn, hending, hagree, hnext⟩ :=
    turn_simulates h hready hsize hclear hflat
  refine ⟨hplayed?, ending', q, chip', g, hturn, hagree, hnext, hplayed, ?_⟩
  -- a turn that leaves the region ends the update, and is otherwise the same
  rcases hending with rfl | ⟨rfl, rfl⟩
  · exact hends
  · refine ⟨hends.samples, rfl, fun hproceeds => ?_⟩
    cases hproceeds

/-- A turn plays the next command of the pass, unless the chip is not ready. -/
theorem turn_plays (hplayable : Playable stream start loop first later) (h : Agrees f p)
    (hready : Ready stream w waiting p) {chip : Recorder}
    (hclear : ∀ i ∈ Player.turnReads w (p, chip), Clear waiting p i)
    (hmid : Midway stream start loop first later f k part) :
    let commands := (Player.played? w (p, chip)).toList
    ∃ ending q chip' g k' part', p.turn w chip = (ending, q, chip') ∧ Agrees g q ∧
      Ready stream w waiting q ∧ Midway stream start loop first later g k' part' ∧
      Continues first later k part commands k' part' ∧
      (ending = .proceeds → k' = k ∧ part' = part ++ commands) ∧
      ending.outcome.error = none ∧ ending.samples = samplesIn commands := by
  rcases hanswer : p.askChip w chip with ⟨_ | _, chip₁⟩
  · obtain ⟨hturn, hnone⟩ := Player.turn_of_not_ready hanswer
    rw [hnone]
    refine ⟨.busy, p, chip₁, f, k, part ++ [], hturn, h, hready, ?_, .within [],
      fun hproceeds => ?_, rfl, rfl⟩
    · rw [List.append_nil]
      exact hmid
    · cases hproceeds
  · obtain ⟨c, hcommand, hblock, hnext⟩ := hmid.next hplayable
    obtain ⟨hone, ending, q, chip', g, hturn, hagree, hlater, hplayed, hends⟩ :=
      turn_of_ready h hready hplayable.size_lt hclear hanswer hcommand hblock
    obtain ⟨k', part', hmid', hcontinues, hsame⟩ := hnext g hplayed
    rw [hone]
    refine ⟨ending, q, chip', g, k', part', hturn, hagree,
      hlater (hplayed.playing.trans hmid.playing), hmid', hcontinues, fun hproceeds => ?_,
      hends.error, hends.samples⟩
    exact hsame (hends.isEnd hproceeds)

/-! ## Updates -/

/-- An update whose bytes are clear when it starts plays commands of one pass. -/
theorem playUpTo_plays (hplayable : Playable stream start loop first later) {limit : Nat}
    {chip : Recorder} (timer : Timer) (h : Agrees f p) (hready : Ready stream w waiting p)
    (hclear : ∀ i ∈ (Player.visitsUpTo w limit p chip).flatMap (Player.turnReads w),
      Clear waiting p i) (hmid : Midway stream start loop first later f k part) :
    ∃ outcome q chip' timer' g k' part',
      Player.playUpTo w limit p chip timer = (outcome, q, chip', timer') ∧ Agrees g q ∧
      Ready stream w waiting q ∧ Midway stream start loop first later g k' part' ∧
      Continues first later k part (Player.commandsUpTo w limit p chip) k' part' ∧
      outcome.error = none ∧
      timer'.total = timer.total + samplesIn (Player.commandsUpTo w limit p chip) := by
  induction limit generalizing p f chip part with
  | zero =>
    refine ⟨{}, p, chip, timer, f, k, part ++ [], rfl, h, hready, ?_, .within [], rfl, rfl⟩
    rw [List.append_nil]
    exact hmid
  | succ limit ih =>
    rw [Player.visitsUpTo, List.flatMap_cons] at hclear
    obtain ⟨ending, q, chip', g, k', part', hturn, hagree, hnext, hmid', hcontinues, hsame, herror,
      hsamples⟩ := turn_plays hplayable h hready
        (fun i hi => hclear i (List.mem_append_left _ hi)) hmid
    rw [Player.playUpTo_succ, Player.commandsUpTo_succ]
    rw [hturn] at hclear ⊢
    generalize (Player.played? w (p, chip)).toList = commands at hcontinues hsame hsamples ⊢
    cases ending with
    | proceeds =>
      obtain ⟨rfl, rfl⟩ := hsame rfl
      obtain ⟨outcome, q', chip'', timer', g', k'', part'', hplay, hagree', hready', hmid'',
        hcontinues', herror', htotal⟩ := ih hagree hnext (fun i hi =>
          (hclear i (List.mem_append_right _ hi)).proceeds hready.sound hturn hi) hmid'
      refine ⟨outcome, q', chip'', timer', g', k'', part'', hplay, hagree', hready', hmid'', ?_,
        herror', ?_⟩
      · exact hcontinues'.append
      · dsimp only
        rw [htotal, samplesIn_append, ← hsamples]
        show _ = timer.total + (0 + _)
        rw [Nat.zero_add]
    | busy | waits | yields | fails =>
      dsimp only
      rw [List.append_nil]
      refine ⟨_, q, chip', _, g, k', part', rfl, hagree, hnext, hmid', hcontinues, herror, ?_⟩
      rw [Player.Ending.total_arm, hsamples]

/-- An update whose bytes are clear plays commands of one pass and ends without an error. The timer
is armed for what they wait. -/
theorem update_plays (hplayable : Playable stream start loop first later) {chip : Recorder}
    (timer : Timer) (h : Agrees f p) (hready : Ready stream w waiting p)
    (hclear : ∀ i ∈ p.reads w chip, Clear waiting p i)
    (hmid : Midway stream start loop first later f k part) :
    let u := p.update w chip timer
    ∃ g k' part', Agrees g u.player ∧ Ready stream w (waiting ++ u.request.toList) u.player ∧
      Midway stream start loop first later g k' part' ∧
      Continues first later k part (p.commands w chip) k' part' ∧ u.outcome.error = none ∧
      u.timer.total = timer.total + samplesIn (p.commands w chip) := by
  have hphase := h.playing.mp hmid.playing
  unfold Player.reads Player.visits at hclear
  rw [if_pos hphase] at hclear
  obtain ⟨outcome, q, chip', timer', g, k', part', hplay, hagree, hready, hmid, hcontinues, herror,
    htotal⟩ := playUpTo_plays hplayable timer h hready hclear hmid
  have hcommands : p.commands w chip = Player.commandsUpTo w p.commandLimit p chip := by
    rw [Player.commands, Player.visits, if_pos hphase]
    rfl
  have hupdate : p.update w chip timer =
      ⟨outcome, q.takeRequest.1, q.takeRequest.2, chip', timer'⟩ := by
    rw [Player.update, if_pos hphase, hplay]
  -- what is handed out goes to the end of the refills that are waited for, where it stood before
  obtain ⟨requests, htaken, hqueue⟩ := q.takeRequest_eq
  rw [hupdate, hcommands]
  refine ⟨g, k', part', ?_, ?_, hmid, hcontinues, herror, htotal⟩
  · dsimp only
    rw [htaken]
    exact { hagree with }
  · unfold Ready at hready ⊢
    rw [hqueue, ← List.append_assoc] at hready
    dsimp only
    rw [htaken]
    exact hready.congr rfl rfl rfl rfl

end

/-! ## Runs -/

namespace Playback

/-- The playback after `n` updates, each with its refills served at once. -/
def after (g : Playback) : Nat → Playback
  | 0 => g
  | n + 1 => ((g.after n).advance true).2

/-- The commands that the next update plays, in order. -/
def commands (g : Playback) : List Located := g.player.commands g.window g.chip

/-- The commands that the first `n` updates play, in order. -/
def commandsIn (g : Playback) : Nat → List Located
  | 0 => []
  | n + 1 => g.commandsIn n ++ (g.after n).commands

theorem foldl_serve (rs : List Refill) (g : Playback) :
    ∃ served, rs.foldl serve g =
      { g with window := settled g.stream g.window rs, served } := by
  induction rs generalizing g with
  | nil => exact ⟨g.served, rfl⟩
  | cons r rs ih =>
    obtain ⟨served, heq⟩ := ih (g.serve r)
    refine ⟨served, ?_⟩
    rw [List.foldl_cons, heq, serve_eq, settled_cons]

theorem serveAll_eq (g : Playback) : ∃ served, g.serveAll =
    { g with
      window := settled g.stream g.window g.player.requests.toList
      player := { g.player with requests := .empty }
      served } :=
  foldl_serve _ _

/-- Updating and serving everything that was asked for. -/
theorem advance_eq (g : Playback) :
    let u := g.player.update g.window g.chip g.timer
    ∃ served, g.advance true = (⟨u.outcome, u.player.streamOffset⟩,
      { g with
        window := settled g.stream g.window (u.request.toList ++ u.player.requests.toList)
        player := { u.player with requests := .empty }
        chip := u.chip
        timer := u.timer
        served }) := by
  intro u
  obtain ⟨served, hserved⟩ := foldl_serve u.request.toList
    { g with player := u.player, chip := u.chip, timer := u.timer }
  obtain ⟨served', hall⟩ := serveAll_eq { g with
    window := settled g.stream g.window u.request.toList
    player := u.player, chip := u.chip, timer := u.timer, served }
  refine ⟨served', ?_⟩
  unfold advance update
  dsimp only
  rw [if_pos rfl, hserved, hall, settled_append]

end Playback

section

variable {stream : ByteArray} {start loop : UInt32} {first later : List Located} {g : Playback}
  {k : Nat} {part : List Located}

/-- The playback has played `k` passes and the commands `part` of the next one, and every refill
that was asked for is served. -/
structure Playing (stream : ByteArray) (start loop : UInt32) (first later : List Located)
    (g : Playback) (k : Nat) (part : List Located) : Prop where
  stream_eq : g.stream = stream
  idle : g.player.requests.toList = []
  shows : Shows stream g.player g.window
  midway : ∃ f, Agrees f g.player ∧ Midway stream start loop first later f k part

theorem Playing.loopCount_eq (h : Playing stream start loop first later g k part) :
    g.player.loopCount = UInt32.ofNat k := by
  obtain ⟨f, hagree, hmid⟩ := h.midway
  exact hagree.loopCount.symm.trans hmid.loopCount

/-- The commands of a pass that are played lie before others. -/
theorem Playing.strict (h : Playing stream start loop first later g k part) :
    part <+: passAt first later k ∧ part ≠ passAt first later k := by
  obtain ⟨f, -, hmid⟩ := h.midway
  obtain ⟨rest, hrest, hsplit⟩ := hmid.ahead
  refine ⟨⟨rest, hsplit.symm⟩, fun hall => hrest.ne_nil ?_⟩
  rw [hsplit] at hall
  exact List.self_eq_append_right.mp hall

/-- Serving what is asked for leaves the playback where it is. -/
theorem Playing.of_ready {f : FlatPlayer} (hstream : g.stream = stream)
    (h : Agrees f g.player) (hready : Ready stream g.window [] g.player)
    (hmid : Midway stream start loop first later f k part) :
    Playing stream start loop first later g.serveAll k part := by
  obtain ⟨served, heq⟩ := g.serveAll_eq
  rw [heq]
  refine ⟨hstream, Fifo.toList_empty, ?_, f, { h with }, hmid⟩
  unfold Ready at hready
  rw [List.nil_append] at hready
  rw [hstream]
  exact hready.congr rfl rfl rfl rfl

/-- An update plays commands of one pass and arms the timer for what they wait. -/
theorem Playing.advance (h : Playing stream start loop first later g k part)
    (hplayable : Playable stream start loop first later) :
    ∃ k' part', Playing stream start loop first later (g.advance true).2 k' part' ∧
      Continues first later k part g.commands k' part' ∧
      (g.advance true).1.outcome.error = none ∧
      (g.advance true).2.timer.total = g.timer.total + samplesIn g.commands := by
  obtain ⟨f, hagree, hmid⟩ := h.midway
  have hready : Ready stream g.window [] g.player := by
    unfold Ready
    rw [h.idle]
    exact h.shows
  have hclear : ∀ i ∈ g.player.reads g.window g.chip, Clear [] g.player i := by
    intro i _ r hr
    rw [h.idle] at hr
    exact absurd hr List.not_mem_nil
  obtain ⟨f', k', part', hagree', hready', hmid', hcontinues, herror, htotal⟩ :=
    update_plays hplayable g.timer hagree hready hclear hmid
  obtain ⟨served, hadvance⟩ := g.advance_eq
  rw [hadvance]
  generalize g.player.update g.window g.chip g.timer = u at hagree' hready' herror htotal ⊢
  refine ⟨k', part', ?_, hcontinues, herror, htotal⟩
  refine ⟨h.stream_eq, Fifo.toList_empty, ?_, f', { hagree' with }, hmid'⟩
  rw [h.stream_eq]
  exact Shows.congr hready' rfl rfl rfl rfl

/-- After any number of updates the playback stands in some pass, and the timer was armed for what
the commands of all passes so far wait. -/
theorem Playing.after (h : Playing stream start loop first later g 0 [])
    (hplayable : Playable stream start loop first later) (n : Nat) :
    ∃ k part, Playing stream start loop first later (g.after n) k part ∧
      g.commandsIn n = passes first later k ++ part ∧
      (g.after n).timer.total = g.timer.total + samplesIn (g.commandsIn n) := by
  induction n with
  | zero => exact ⟨0, [], h, rfl, rfl⟩
  | succ n ih =>
    obtain ⟨k, part, hplaying, hcommands, htotal⟩ := ih
    obtain ⟨k', part', hplaying', hcontinues, -, htotal'⟩ := hplaying.advance hplayable
    refine ⟨k', part', hplaying', ?_, ?_⟩
    · rw [Playback.commandsIn, hcommands, List.append_assoc]
      cases hcontinues with
      | within => rfl
      | ending hends =>
        rw [hends, List.append_nil]
        rfl
    · rw [Playback.commandsIn, samplesIn_append, ← Nat.add_assoc, ← htotal]
      exact htotal'

/-- Until the stream has ended for the first time the playback stands in the first pass. -/
theorem Playing.after_of_zero (h : Playing stream start loop first later g 0 [])
    (hplayable : Playable stream start loop first later) {n : Nat}
    (hzero : ∀ m ≤ n, (g.after m).player.loopCount = 0) :
    Playing stream start loop first later (g.after n) 0 (g.commandsIn n) := by
  induction n with
  | zero => exact h
  | succ n ih =>
    have hplaying := ih fun m hm => hzero m (by omega)
    obtain ⟨k', part', hplaying', hcontinues, -⟩ := hplaying.advance hplayable
    cases hcontinues with
    | within => exact hplaying'
    | ending hends =>
      have hended : (g.after (n + 1)).player.loopCount = 1 := hplaying'.loopCount_eq
      rw [hzero (n + 1) (Nat.le_refl _)] at hended
      exact absurd hended (by decide)

/-- The first end of the stream ends the first pass. -/
theorem Playing.first_of_ne_zero (h : Playing stream start loop first later g 0 [])
    (hplayable : Playable stream start loop first later) {n : Nat}
    (hzero : ∀ m ≤ n, (g.after m).player.loopCount = 0)
    (hone : (g.after (n + 1)).player.loopCount ≠ 0) : g.commandsIn (n + 1) = first := by
  obtain ⟨k', part', hplaying', hcontinues, -⟩ :=
    (h.after_of_zero hplayable hzero).advance hplayable
  cases hcontinues with
  | within => exact absurd hplaying'.loopCount_eq hone
  | ending hends => exact hends

/-- A playback that begins stands at the first command, and sees the stream once what it asks for
has come. -/
theorem Playable.starts (h : Playable stream start loop first later) {w : Window}
    (hlinear : ∀ i < min stream.size linearEnd, w.byte i = peek stream i) (p : Player) :
    ∃ q f, p.begin w = (.ok (), q) ∧ q.start = start ∧ q.loop = loop ∧ Agrees f q ∧
      Ready stream w [] q ∧ Midway stream start loop first later f 0 [] := by
  obtain ⟨header, hread, rfl, rfl⟩ := h.header w hlinear
  have hbegin := Player.begin_of_readHeader hread p
  -- what the chip and the timer are makes no difference
  have hfollows := Follows.start hlinear hbegin (.fresh (fun _ => true) false) { manual := true }
  have hmid : Midway stream header.start header.loop first later
      (FlatPlayback.start (p.begun header) (.fresh (fun _ => true) false)
        { manual := true }).player 0 [] :=
    ⟨rfl, rfl, rfl, rfl, first, h.first_pass, rfl⟩
  exact ⟨p.begun header, _, hbegin, rfl, rfl, hfollows.agrees, hfollows.ready rfl, hmid⟩

/-- A playback that begins stands at the first command. -/
theorem Playable.begins (h : Playable stream start loop first later) {w : Window}
    (hlinear : ∀ i < min stream.size linearEnd, w.byte i = peek stream i) (p : Player)
    (chip : Recorder) (timer : Timer) :
    ∃ q, p.begin w = (.ok (), q) ∧ q.start = start ∧ q.loop = loop ∧
      Playing stream start loop first later
        (Playback.serveAll { stream, window := w, player := q, chip, timer }) 0 [] := by
  obtain ⟨q, f, hbegin, hstart, hloop, hagree, hready, hmid⟩ := h.starts hlinear p
  exact ⟨q, hbegin, hstart, hloop, .of_ready rfl hagree hready hmid⟩

end
end ChipReplay
