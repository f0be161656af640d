import ChipReplay.Proofs.Player.Phases
import ChipReplay.Proofs.Stream.Accounts
import ChipReplay.Proofs.Stream.Trailing
/-!
# Streams without an end

The commands of a stream may go up to its last byte without one that ends it (`OpenPass`). Such a
stream is played through once, and then the player looks at the byte behind it. If this is none that
begins a command, the playback stops there (`Stream.trailingError`); otherwise it goes on with what
is left of earlier parts of the stream. `Stands` says where a playback stands in this, and
`Stands.advance` that an update leads from one of these places to another.
-/

namespace ChipReplay

open Bytes
open ChipReplay.Stream (trailing prolonged size_prolonged peek_prolonged)

/-- What stops the player behind the end of the stream, if anything does. -/
def Stream.trailingError (stream : ByteArray) : Option PlayError :=
  match Opcode.ofByte (trailing stream) with
  | .dataBlock => some (.dataBlock (UInt32.ofNat stream.size))
  | .unknown => some (.unexpectedOpcode (trailing stream) (UInt32.ofNat stream.size))
  | .write _ | .wait | .pause _ | .endOfStream => none

open ChipReplay.Stream (trailingError)

theorem Stream.isFatal_trailingError {stream : ByteArray} {e : PlayError}
    (h : trailingError stream = some e) : e.isFatal = true := by
  unfold trailingError at h
  split at h
  · obtain rfl := Option.some.inj h
    rfl
  · obtain rfl := Option.some.inj h
    rfl
  all_goals cases h

/-! ## Passes without an end -/

/-- The commands from offset `i` to the last byte of the stream. None of them ends the stream, and
none is a data block. -/
inductive OpenPass (stream : ByteArray) : Nat → List Located → Prop
  | done : OpenPass stream stream.size []
  | next {i : Nat} {c : Command} {rest : List Located} (hcommand : c.At stream i)
      (hend : c.isEnd = false) (hblock : c.block? = none)
      (hrest : OpenPass stream (i + c.length) rest) : OpenPass stream i (⟨i, c⟩ :: rest)

theorem OpenPass.commandsOnto_eq {stream : ByteArray} {i : Nat} {commands : List Located}
    (h : OpenPass stream i commands) (found : List Located) :
    commandsOnto stream i found = .ok (found.reverse ++ commands) := by
  induction h generalizing found with
  | done => rw [commandsOnto, if_neg (Nat.lt_irrefl _), List.append_nil]
  | @next i c rest hcommand hend hblock hrest ih =>
    rw [commandsOnto, if_pos hcommand.lt_size, Command.read_of_at hcommand hblock]
    dsimp only
    rw [if_neg (by simp [hend]), ih, List.reverse_cons, List.append_assoc, List.singleton_append]

/-- Reading a stream gives the commands of the pass. -/
theorem OpenPass.commandsFrom_eq {stream : ByteArray} {i : Nat} {commands : List Located}
    (h : OpenPass stream i commands) : commandsFrom stream i = .ok commands :=
  h.commandsOnto_eq []

/-- A command stands where it did when there is a byte behind the stream. -/
theorem Command.At.in_prolonged {stream : ByteArray} {i : Nat} {c : Command} (h : c.At stream i)
    (hblock : c.block? = none) : c.At (prolonged stream) i := by
  have hkept (k : Nat) (hk : k < stream.size) : peek (prolonged stream) k = peek stream k := by
    rw [peek_prolonged, if_neg (Nat.ne_of_lt hk)]
  have hsize := size_prolonged stream
  cases h with
  | write port hcode hfits =>
    refine .of_write ?_ (hkept (i + 1) (by omega)) (hkept (i + 2) (by omega)) (by omega)
    rw [hkept i (by omega), hcode]
  | wait hcode hfits =>
    refine .of_wait ?_ (hkept (i + 1) (by omega)) (hkept (i + 2) (by omega)) (by omega)
    rw [hkept i (by omega), hcode]
  | pause samples hcode hfits => exact .of_pause (hkept i (by omega)) hcode (by omega)
  | endOfStream hcode hfits => exact .endOfStream (by rw [hkept i (by omega), hcode]) (by omega)
  | block b hcode hbytes => cases hblock

/-! ## What is played in two windows -/

namespace Player

theorem played?_congr {w w' : Window} {v : Player × Recorder}
    (h : ∀ i ∈ turnReads w v, w.byte i = w'.byte i) : played? w v = played? w' v := by
  have hfirst : v.1.peek w = v.1.peek w' := h _ (List.mem_cons_self ..)
  have hop : v.1.opcode w = v.1.opcode w' := congrArg Opcode.ofByte hfirst
  have hanswer : v.1.askChip w v.2 = v.1.askChip w' v.2 := by rw [askChip, askChip, hop]
  unfold played?
  rw [← hanswer]
  by_cases hready : (v.1.askChip w v.2).1 = true
  · have hall : ∀ i ∈ readOffsets (1 + (v.1.opcode w).operands) v.1, w.byte i = w'.byte i := by
      intro i hi
      apply h
      rw [turnReads, if_pos hready]
      exact List.mem_cons_of_mem _ hi
    rw [if_pos hready, if_pos hready]
    unfold command?
    rw [← hop, ← hfirst]
    cases hcase : v.1.opcode w with
    | write _ | wait =>
      rw [hcase] at hall
      have hsecond : v.1.past.peek w = v.1.past.peek w' :=
        hall _ (by simp [Opcode.operands, readOffsets])
      have hthird : v.1.past.past.peek w = v.1.past.past.peek w' :=
        hall _ (by simp [Opcode.operands, readOffsets])
      rw [hsecond, hthird]
    | pause | endOfStream | dataBlock | unknown => rfl
  · rw [if_neg hready, if_neg hready]

theorem commandsUpTo_congr {w w' : Window} {limit : Nat} {p : Player} {chip : Recorder}
    (h : ∀ i ∈ (visitsUpTo w limit p chip).flatMap (turnReads w), w.byte i = w'.byte i) :
    commandsUpTo w limit p chip = commandsUpTo w' limit p chip := by
  induction limit generalizing p chip with
  | zero => rfl
  | succ limit ih =>
    rw [visitsUpTo, List.flatMap_cons] at h
    have hfirst : ∀ i ∈ turnReads w (p, chip), w.byte i = w'.byte i :=
      fun i hi => h i (List.mem_append_left _ hi)
    rw [commandsUpTo_succ, commandsUpTo_succ, ← played?_congr hfirst, ← turn_congr hfirst]
    generalize p.turn w chip = t at h ⊢
    obtain ⟨ending, q, chip⟩ := t
    cases ending with
    | proceeds => exact congrArg _ (ih fun i hi => h i (List.mem_append_right _ hi))
    | busy | waits | yields | fails => rfl

/-- What an update plays depends on no byte of the window but those it reads. -/
theorem commands_congr {p : Player} {w w' : Window} {chip : Recorder}
    (h : ∀ i ∈ p.reads w chip, w.byte i = w'.byte i) :
    p.commands w chip = p.commands w' chip := by
  unfold reads visits at h
  unfold commands visits
  split
  · next hplaying =>
    rw [if_pos hplaying] at h
    exact commandsUpTo_congr h
  · rfl

end Player

section

variable {stream : ByteArray} {commands : List Located} {w w' : Window} {p : Player}
  {f : FlatPlayer} {part : List Located}

/-! ## Turns -/

/-- The flat interpreter has played the commands `part`, the first ones of the stream's. -/
structure Underway (stream : ByteArray) (commands : List Located) (f : FlatPlayer)
    (part : List Located) : Prop where
  playing : f.playing = true
  ahead : ∃ rest, OpenPass stream f.position rest ∧ commands = part ++ rest

/-- Where a player has come to that had played the commands `part`, and then `played`: it is still
underway, it has failed behind the last command of the stream, or it has played on there. -/
inductive Comes (stream : ByteArray) (commands : List Located) (w w' : Window)
    (part played : List Located) (error : Option PlayError) (q : Player) : Prop
  | underway (g : FlatPlayer) (hagree : Agrees g q) (htrails : Trails stream w w' q)
      (hmid : Underway stream commands g (part ++ played)) (hnone : error = none)
  | fails (q' : Player) (hfailed : q = q'.fail) (hsome : (trailingError stream).isSome = true)
      (hfailure : error = trailingError stream) (hall : part ++ played = commands)
  | goesOn (c : Command) (more : List Located) (hnone : trailingError stream = none)
      (hopcode : c.opcode = .ofByte (trailing stream))
      (hall : part ++ played = commands ++ ⟨stream.size, c⟩ :: more)

/-- The next command of the stream is played, unless the chip refuses. -/
theorem comes_of_next (hsize : stream.size + 0x8001 < 2 ^ 32) (h : Agrees f p)
    (htrails : Trails stream w w' p) {chip : Recorder}
    (hclear : ∀ i ∈ Player.turnReads w' (p, chip), Clear [] p i) (hplaying : f.playing = true)
    {c : Command} {rest : List Located} (hcommand : c.At stream f.position)
    (hend : c.isEnd = false) (hblock : c.block? = none)
    (hrest : OpenPass stream (f.position + c.length) rest)
    (hcommands : commands = part ++ ⟨f.position, c⟩ :: rest) :
    Comes stream commands w w' part (Player.played? w' (p, chip)).toList
      (p.turn w' chip).1.outcome.error (p.turn w' chip).2.1 := by
  rcases hanswer : p.askChip w' chip with ⟨_ | _, chip₁⟩
  · obtain ⟨hturn, hnone⟩ := Player.turn_of_not_ready hanswer
    rw [hnone, hturn]
    refine .underway f h htrails ⟨hplaying, _, .next hcommand hend hblock hrest, ?_⟩ rfl
    show commands = (part ++ []) ++ _
    rw [List.append_nil]
    exact hcommands
  · have hlonger := size_prolonged stream
    have hat := hcommand.in_prolonged hblock
    obtain ⟨hone, ending, q, chip', g, hturn, hagree, -, hplayed, hends⟩ :=
      turn_of_ready h htrails.ready (by omega) hclear hanswer hat hblock
    have hop : p.opcode w' = c.opcode := by
      have hread := hclear _ (List.mem_cons_self ..)
      rw [(h.opcode htrails.ready hread hat.lt_size).2, FlatPlayer.opcode_of_at hat]
    have hnext : Trails stream w w' (p.turn w' chip).2.1 := by
      apply htrails.turn hsize chip
      · rw [hop]
        intro hlast
        cases c with
        | endOfStream => cases hend
        | write | wait | pause | block => cases hlast
      · have hfits := hcommand.fits
        have hlength := Command.length_eq hblock
        have hposition := h.position
        rw [hop]
        omega
      · intro e he
        have herror := hends.error
        rw [hturn] at he
        rw [show ending = .fails e from he] at herror
        cases herror
    obtain ⟨hmoved, -⟩ := hplayed.onward hend
    rw [hone]
    rw [hturn] at hnext ⊢
    refine .underway g hagree hnext ⟨hplayed.playing.trans hplaying, rest, ?_, ?_⟩ hends.error
    · rw [hmoved]
      exact hrest
    · show commands = (part ++ [_]) ++ rest
      rw [List.append_assoc, List.singleton_append]
      exact hcommands

/-- Behind the last command the player looks at the byte that stands there. -/
theorem comes_of_done (hsize : stream.size + 0x8001 < 2 ^ 32) (h : Agrees f p)
    (htrails : Trails stream w w' p) {chip : Recorder}
    (hclear : ∀ i ∈ Player.turnReads w' (p, chip), Clear [] p i) (hplaying : f.playing = true)
    (hposition : f.position = stream.size) :
    Comes stream commands w w' commands (Player.played? w' (p, chip)).toList
      (p.turn w' chip).1.outcome.error (p.turn w' chip).2.1 := by
  have hlonger := size_prolonged stream
  have hbyte : f.peek (prolonged stream) = trailing stream := by
    rw [FlatPlayer.peek, hposition, peek_prolonged, if_pos rfl]
  obtain ⟨hpeek, hop⟩ :=
    h.opcode htrails.ready (hclear _ (List.mem_cons_self ..)) (by omega)
  rw [FlatPlayer.opcode, hbyte] at hop
  rw [hbyte] at hpeek
  have hoffset : p.streamOffset = UInt32.ofNat stream.size := by
    rw [Player.streamOffset, Position.streamOffset_eq, ← h.position, hposition]
  have hnat : p.streamOffset.toNat = stream.size := by
    rw [hoffset, UInt32.toNat_ofNat_of_lt' (show stream.size < 2 ^ 32 by omega)]
  rcases hanswer : p.askChip w' chip with ⟨_ | _, chip₁⟩
  · obtain ⟨hturn, hnone⟩ := Player.turn_of_not_ready hanswer
    rw [hnone, hturn]
    refine .underway f h htrails ⟨hplaying, [], ?_, ?_⟩ rfl
    · rw [hposition]
      exact .done
    · show commands = (commands ++ []) ++ []
      rw [List.append_nil, List.append_nil]
  · have hplayed : Player.played? w' (p, chip) =
        (p.command? w').map fun c => ⟨stream.size, c⟩ := by
      rw [Player.played?, hanswer, if_pos rfl, hnat]
    rw [hplayed, Player.turn, hanswer]
    dsimp only
    rw [Player.step_eq, Player.command?]
    cases hcase : p.opcode w' with
    | write | wait | pause | endOfStream =>
      rw [hcase] at hop
      have hnone : trailingError stream = none := by
        rw [trailingError, ← hop]
      refine .goesOn _ [] hnone ?_ rfl
      exact hop
    | dataBlock =>
      rw [hcase] at hop
      have hsome : trailingError stream = some (.dataBlock (UInt32.ofNat stream.size)) := by
        rw [trailingError, ← hop]
      refine .fails p.past rfl (by rw [hsome]; rfl) ?_ (List.append_nil _)
      rw [hsome, ← hoffset]
      rfl
    | unknown =>
      rw [hcase] at hop
      have hsome : trailingError stream =
          some (.unexpectedOpcode (trailing stream) (UInt32.ofNat stream.size)) := by
        rw [trailingError, ← hop]
      refine .fails p.past rfl (by rw [hsome]; rfl) ?_ (List.append_nil _)
      rw [hsome, ← hoffset, ← hpeek]
      rfl

/-- A turn of a player that is underway. -/
theorem turn_comes (hsize : stream.size + 0x8001 < 2 ^ 32) (h : Agrees f p)
    (htrails : Trails stream w w' p) {chip : Recorder}
    (hclear : ∀ i ∈ Player.turnReads w' (p, chip), Clear [] p i)
    (hmid : Underway stream commands f part) :
    Comes stream commands w w' part (Player.played? w' (p, chip)).toList
      (p.turn w' chip).1.outcome.error (p.turn w' chip).2.1 := by
  obtain ⟨rest, hrest, hcommands⟩ := hmid.ahead
  generalize hposition : f.position = i at hrest
  cases hrest with
  | done =>
    rw [List.append_nil] at hcommands
    obtain rfl := hcommands
    exact comes_of_done hsize h htrails hclear hmid.playing hposition
  | next hcommand hend hblock hrest =>
    obtain rfl := hposition
    exact comes_of_next hsize h htrails hclear hmid.playing hcommand hend hblock hrest hcommands

/-! ## Updates -/

/-- What is played may be divided in two. -/
theorem Comes.append {first more : List Located} {error : Option PlayError} {q : Player}
    (h : Comes stream commands w w' (part ++ first) more error q) :
    Comes stream commands w w' part (first ++ more) error q := by
  cases h with
  | underway g hagree htrails hmid hnone =>
    refine .underway g hagree htrails ?_ hnone
    rwa [← List.append_assoc]
  | fails q' hfailed hsome hfailure hall =>
    refine .fails q' hfailed hsome hfailure ?_
    rwa [← List.append_assoc]
  | goesOn c more hnone hopcode hall =>
    refine .goesOn c more hnone hopcode ?_
    rwa [← List.append_assoc]

theorem playUpTo_comes (hsize : stream.size + 0x8001 < 2 ^ 32) {limit : Nat} {chip : Recorder}
    (timer : Timer) (h : Agrees f p) (htrails : Trails stream w w' p)
    (hclear : ∀ i ∈ (Player.visitsUpTo w' limit p chip).flatMap (Player.turnReads w'),
      Clear [] p i)
    (hmid : Underway stream commands f part) :
    Comes stream commands w w' part (Player.commandsUpTo w' limit p chip)
      (Player.playUpTo w' limit p chip timer).1.error
      (Player.playUpTo w' limit p chip timer).2.1 := by
  induction limit generalizing p f chip part with
  | zero =>
    refine .underway f h htrails ⟨hmid.playing, ?_⟩ rfl
    show ∃ rest, _ ∧ commands = (part ++ []) ++ rest
    rw [List.append_nil]
    exact hmid.ahead
  | succ limit ih =>
    rw [Player.visitsUpTo, List.flatMap_cons] at hclear
    have hfirst := turn_comes hsize h htrails
      (fun i hi => hclear i (List.mem_append_left _ hi)) hmid
    rw [Player.playUpTo_succ, Player.commandsUpTo_succ]
    generalize hturn : p.turn w' chip = t at hfirst hclear ⊢
    obtain ⟨ending, q, chip'⟩ := t
    cases ending with
    | proceeds =>
      cases hfirst with
      | underway g hagree htrails' hmid' hnone =>
        apply Comes.append
        apply ih hagree htrails' _ hmid'
        intro i hi
        exact (hclear i (List.mem_append_right _ hi)).proceeds htrails.ready.sound hturn hi
      | fails q' hfailed hsome hfailure hall =>
        -- a turn that proceeds has met no error
        rw [← hfailure] at hsome
        cases hsome
      | goesOn c more hnone hopcode hall =>
        refine .goesOn c (more ++ Player.commandsUpTo w' limit q chip') hnone hopcode ?_
        rw [← List.append_assoc, hall, List.append_assoc, List.cons_append]
    | busy | waits | yields | fails =>
      dsimp only
      rw [List.append_nil]
      exact hfirst

end

/-! ## Runs -/

/-- The playback has played the commands `played`, the first ones of the stream's, and every refill
that was asked for is served. -/
structure Heading (stream : ByteArray) (commands : List Located) (g : Playback)
    (played : List Located) : Prop where
  stream_eq : g.stream = stream
  idle : g.player.requests.toList = []
  ahead : ∃ w' f, Agrees f g.player ∧ Trails stream g.window w' g.player ∧
    Underway stream commands f played

/-- The playback has ended. -/
structure Stopped (g : Playback) : Prop where
  phase : ¬ (g.player.phase = .playing ∧ g.player.started = true)
  idle : g.player.requests.toList = []

section

variable {stream : ByteArray} {commands played : List Located} {g : Playback}

/-- Serving what is asked for leaves the playback where it is. -/
theorem Heading.of_trails {w' : Window} {f : FlatPlayer} (hstream : g.stream = stream)
    (hagree : Agrees f g.player) (htrails : Trails stream g.window w' g.player)
    (hmid : Underway stream commands f played) : Heading stream commands g.serveAll played := by
  obtain ⟨served, heq⟩ := g.serveAll_eq
  have hserved := htrails.served (q := { g.player with requests := .empty }) rfl rfl rfl rfl
    Fifo.toList_empty
  rw [heq]
  refine ⟨hstream, Fifo.toList_empty,
    settled (prolonged stream) w' g.player.requests.toList, f, { hagree with }, ?_, hmid⟩
  rw [hstream]
  exact hserved

theorem Heading.playing (h : Heading stream commands g played) :
    g.player.phase = .playing ∧ g.player.started = true := by
  obtain ⟨w', f, hagree, -, hmid⟩ := h.ahead
  exact hagree.playing.mp hmid.playing

theorem Heading.isPrefix (h : Heading stream commands g played) : played <+: commands := by
  obtain ⟨w', f, -, -, hmid⟩ := h.ahead
  obtain ⟨rest, -, hcommands⟩ := hmid.ahead
  exact ⟨rest, hcommands.symm⟩

/-- What is read differs in no byte from what would be if the stream went on. -/
theorem Heading.reads_same (h : Heading stream commands g played) {w' : Window}
    (htrails : Trails stream g.window w' g.player) :
    ∀ i ∈ g.player.reads w' g.chip, w'.byte i = g.window.byte i := by
  intro i hi
  have hsame := htrails.same
  rw [h.idle, settled_nil, settled_nil] at hsame
  rw [Player.reads, Player.visits, if_pos h.playing] at hi
  have houtside := Player.not_covers_visitsUpTo htrails.ready.sound htrails.onward.region_ne 0 hi
  rw [Refill.covers_ofRegion (by decide)] at houtside
  exact (hsame i houtside).symm

/-- An update goes on with the stream, stops behind its end, or goes on there. -/
theorem Heading.advance (h : Heading stream commands g played)
    (hsize : stream.size + 0x8001 < 2 ^ 32) :
    (Heading stream commands (g.advance true).2 (played ++ g.commands) ∧
      (g.advance true).1.outcome.error = none) ∨
    ((trailingError stream).isSome = true ∧
      (g.advance true).1.outcome.error = trailingError stream ∧
      Stopped (g.advance true).2 ∧ played ++ g.commands = commands) ∨
    (trailingError stream = none ∧ ∃ c more, c.opcode = .ofByte (trailing stream) ∧
      played ++ g.commands = commands ++ ⟨stream.size, c⟩ :: more) := by
  obtain ⟨w', f, hagree, htrails, hmid⟩ := h.ahead
  have hreads := h.reads_same htrails
  have hcommands : g.commands =
      Player.commandsUpTo w' g.player.commandLimit g.player g.chip := by
    rw [Playback.commands, ← Player.commands_congr hreads, Player.commands, Player.visits,
      if_pos h.playing]
    rfl
  have hclear : ∀ i ∈ (Player.visitsUpTo w' g.player.commandLimit g.player g.chip).flatMap
      (Player.turnReads w'), Clear [] g.player i := by
    intro i _ r hr
    rw [h.idle] at hr
    exact absurd hr List.not_mem_nil
  have hcomes := playUpTo_comes hsize g.timer hagree htrails hclear hmid
  obtain ⟨served, hadvance⟩ := g.advance_eq
  rw [← Player.update_congr hreads, Player.update, if_pos h.playing] at hadvance
  rw [← hcommands] at hcomes
  generalize Player.playUpTo w' g.player.commandLimit g.player g.chip g.timer = t
    at hcomes hadvance
  obtain ⟨outcome, q, chip, timer⟩ := t
  obtain ⟨requests, htaken, hqueue⟩ := q.takeRequest_eq
  dsimp only at hcomes hadvance
  rw [htaken] at hadvance
  dsimp only at hadvance
  rw [← hqueue] at hadvance
  rw [hadvance]
  cases hcomes with
  | underway f' hagree' htrails' hmid' hnone =>
    have hserved := htrails'.served (q := { q with requests := .empty }) rfl rfl rfl rfl
      Fifo.toList_empty
    left
    refine ⟨⟨h.stream_eq, Fifo.toList_empty,
      settled (prolonged stream) w' q.requests.toList, f', { hagree' with }, ?_, hmid'⟩, hnone⟩
    rw [h.stream_eq]
    exact hserved
  | fails q' hfailed hsome hfailure hall =>
    right; left
    refine ⟨hsome, hfailure, ⟨?_, Fifo.toList_empty⟩, hall⟩
    rw [hfailed]
    simp [Player.fail]
  | goesOn c more hnone hopcode hall => exact .inr (.inr ⟨hnone, c, more, hopcode, hall⟩)

/-- Nothing is played any more once the playback has stopped. -/
theorem Stopped.advance (h : Stopped g) : Stopped (g.advance true).2 ∧
    (g.advance true).1.outcome.error = some .notStarted ∧ g.commands = [] ∧
    (g.advance true).2.chip = g.chip ∧ (g.advance true).2.timer = g.timer := by
  obtain ⟨served, hadvance⟩ := g.advance_eq
  have hcommands : g.commands = [] := by
    rw [Playback.commands, Player.commands, Player.visits, if_neg h.phase]
    rfl
  rw [Player.update, if_neg h.phase] at hadvance
  rw [hadvance]
  exact ⟨⟨h.phase, Fifo.toList_empty⟩, rfl, hcommands, rfl, rfl⟩

/-- So it is with any number of updates. -/
theorem Stopped.after (h : Stopped g) (n : Nat) : Stopped (g.after n) ∧
    g.errorAt n = some .notStarted ∧ g.commandsIn n = [] ∧ (g.after n).chip = g.chip ∧
    (g.after n).timer = g.timer := by
  induction n with
  | zero => exact ⟨h, h.advance.2.1, rfl, rfl, rfl⟩
  | succ n ih =>
    obtain ⟨hstopped, -, hcommands, hchip, htimer⟩ := ih
    obtain ⟨hnext, -, hnone, hchip', htimer'⟩ := hstopped.advance
    refine ⟨hnext, hnext.advance.2.1, ?_, hchip'.trans hchip, htimer'.trans htimer⟩
    rw [Playback.commandsIn, hcommands, hnone]
    rfl

/-- Where a playback stands that has played the commands `played`. -/
inductive Stands (stream : ByteArray) (commands : List Located) (g : Playback)
    (played : List Located) : Prop
  | heading (h : Heading stream commands g played)
  | stopped (h : Stopped g) (hall : played = commands)
  | behind (h : commands <+: played)

/-- Where an update leads. -/
theorem Stands.advance (h : Stands stream commands g played)
    (hsize : stream.size + 0x8001 < 2 ^ 32) :
    Stands stream commands (g.advance true).2 (played ++ g.commands) := by
  cases h with
  | heading h =>
    obtain ⟨hnext, -⟩ | ⟨-, -, hstopped, hall⟩ | ⟨-, c, more, -, hall⟩ := h.advance hsize
    · exact .heading hnext
    · exact .stopped hstopped hall
    · exact .behind ⟨_, hall.symm⟩
  | stopped h hall =>
    obtain ⟨hstopped, -, hnone, -⟩ := h.advance
    refine .stopped hstopped ?_
    rw [hnone, List.append_nil, hall]
  | behind h => exact .behind (h.trans (List.prefix_append _ _))

theorem Stands.after (h : Heading stream commands g []) (hsize : stream.size + 0x8001 < 2 ^ 32)
    (n : Nat) : Stands stream commands (g.after n) (g.commandsIn n) := by
  induction n with
  | zero => exact .heading h
  | succ n ih => exact ih.advance hsize

/-- The commands of the stream are played in order before anything else is. -/
theorem Heading.in_order (h : Heading stream commands g [])
    (hsize : stream.size + 0x8001 < 2 ^ 32) (n : Nat) :
    g.commandsIn n <+: commands ∨ commands <+: g.commandsIn n := by
  cases Stands.after h hsize n with
  | heading h => exact .inl h.isPrefix
  | stopped h hall => exact .inl (hall ▸ List.prefix_refl _)
  | behind h => exact .inr h

/-- A playback that is underway before and after an update has met no error. -/
theorem Heading.errorAt_eq {n : Nat} (hsize : stream.size + 0x8001 < 2 ^ 32)
    (h : Heading stream commands (g.after n) (g.commandsIn n))
    (hnext : Heading stream commands (g.after (n + 1)) (g.commandsIn (n + 1))) :
    g.errorAt n = none := by
  obtain ⟨-, hnone⟩ | ⟨-, -, hstopped, -⟩ | ⟨-, c, more, -, hall⟩ := h.advance hsize
  · exact hnone
  · exact absurd hnext.playing hstopped.phase
  · have hshort := hnext.isPrefix.length_le
    rw [Playback.commandsIn, hall, List.length_append, List.length_cons] at hshort
    omega

/-- With a fair chip there is an update that ends the stream: it stops the playback, or goes on
behind the stream. -/
theorem Heading.exists_last (h : Heading stream commands g [])
    (hsize : stream.size + 0x8001 < 2 ^ 32) (hfair : g.chip.Fair) :
    ∃ n, (∀ m < n, g.errorAt m = none) ∧
      (((trailingError stream).isSome = true ∧ g.errorAt n = trailingError stream ∧
        Stopped (g.after (n + 1)) ∧ g.commandsIn (n + 1) = commands) ∨
      (trailingError stream = none ∧ ∃ c more, c.opcode = .ofByte (trailing stream) ∧
        g.commandsIn (n + 1) = commands ++ ⟨stream.size, c⟩ :: more)) := by
  -- an endless playback would play more commands than there are
  have hends : ∃ n, ¬ Heading stream commands (g.after n) (g.commandsIn n) := by
    by_contra hall
    push Not at hall
    have hendless : g.Endless := ⟨fun n => (hall n).playing, fun n =>
      (hall n).errorAt_eq hsize (hall (n + 1))⟩
    obtain ⟨n, hmany⟩ := hendless.exists_length_le hfair (commands.length + 1)
    have hfew := (hall n).isPrefix.length_le
    omega
  classical
  have hfirst := Nat.find_spec hends
  have hbefore (m : Nat) (hm : m < Nat.find hends) :
      Heading stream commands (g.after m) (g.commandsIn m) := not_not.mp (Nat.find_min hends hm)
  cases hfound : Nat.find hends with
  | zero =>
    rw [hfound] at hfirst
    exact absurd h hfirst
  | succ n =>
    rw [hfound] at hfirst hbefore
    refine ⟨n, fun m hm => (hbefore m (by omega)).errorAt_eq hsize (hbefore (m + 1) (by omega)), ?_⟩
    rcases (hbefore n (Nat.lt_succ_self n)).advance hsize with ⟨hnext, -⟩ | hrest
    · exact absurd hnext hfirst
    · exact hrest

end
end ChipReplay
