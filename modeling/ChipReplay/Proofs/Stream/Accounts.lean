import ChipReplay.Proofs.Player.Headway
/-!
# What playing adds up to

Whatever the window holds, an update waits for what the commands wait that it plays. So a run in
which every refill is served at once can be read off the commands that it plays: the timer was armed
for what they wait (`Playback.total_after`), and the chip has the writes among them that the filter
allows (`Playback.writes_after`). With a chip that does not refuse for ever (`Recorder.Fair`), a run
plays any number of commands unless an update ends it (`Playback.Endless.exists_length_le`).
-/

namespace ChipReplay

namespace Player

theorem Ending.samples_ofStep (opcode : Opcode) (delay : UInt32) (crossed : Bool) :
    (ofStep opcode delay crossed).samples = delay.toNat := by
  unfold ofStep
  by_cases hdelay : delay = 0
  · rw [if_neg (not_not.mpr hdelay), hdelay]
    split <;> rfl
  · rw [if_pos hdelay]
    rfl

variable (p : Player) (w : Window) (chip : Recorder)

/-- A turn waits for what the command waits that it plays. -/
theorem samples_turn : (p.turn w chip).1.samples = samplesIn (played? w (p, chip)).toList := by
  rcases hanswer : p.askChip w chip with ⟨_ | _, chip'⟩
  · obtain ⟨hturn, hnone⟩ := turn_of_not_ready hanswer
    rw [hturn, hnone]
    rfl
  · unfold played? command? turn
    rw [hanswer]
    dsimp only
    rw [if_pos rfl, step_eq]
    cases p.opcode w with
    | wait =>
      dsimp only
      rw [Ending.samples_ofStep]
      exact UInt16.toNat_toUInt32 _
    | write | pause | endOfStream =>
      dsimp only
      rw [Ending.samples_ofStep]
      rfl
    | dataBlock | unknown => rfl

theorem total_playUpTo (limit : Nat) (timer : Timer) :
    (playUpTo w limit p chip timer).2.2.2.total =
      timer.total + samplesIn (commandsUpTo w limit p chip) := by
  induction limit generalizing p chip with
  | zero => rfl
  | succ limit ih =>
    have hsamples := p.samples_turn w chip
    rw [playUpTo_succ, commandsUpTo_succ, samplesIn_append, ← hsamples]
    generalize p.turn w chip = t
    obtain ⟨ending, q, chip'⟩ := t
    cases ending with
    | proceeds =>
      have hlater := ih q chip'
      show _ = timer.total + (0 + _)
      rw [Nat.zero_add]
      exact hlater
    | busy | waits | yields | fails => exact Ending.total_arm _ timer

/-- An update waits for what the commands wait that it plays. -/
theorem total_update (timer : Timer) :
    (p.update w chip timer).timer.total = timer.total + samplesIn (p.commands w chip) := by
  unfold update commands visits
  split
  · exact p.total_playUpTo w chip p.commandLimit timer
  · rfl

end Player

namespace Playback

/-- The error that the update after the first `n` ends with, if any. -/
def errorAt (g : Playback) (n : Nat) : Option PlayError :=
  ((g.after n).advance true).1.outcome.error

variable (g : Playback)

theorem after_add (n k : Nat) : g.after (n + k) = (g.after n).after k := by
  induction k with
  | zero => rfl
  | succ k ih => rw [← Nat.add_assoc, after, after, ih]

theorem commandsIn_add (n k : Nat) :
    g.commandsIn (n + k) = g.commandsIn n ++ (g.after n).commandsIn k := by
  induction k with
  | zero => exact (List.append_nil _).symm
  | succ k ih => rw [← Nat.add_assoc, commandsIn, commandsIn, ih, after_add, List.append_assoc]

/-- The timer was armed for what the commands wait that were played. -/
theorem total_after (n : Nat) :
    (g.after n).timer.total = g.timer.total + samplesIn (g.commandsIn n) := by
  induction n with
  | zero => rfl
  | succ n ih =>
    obtain ⟨served, hadvance⟩ := (g.after n).advance_eq
    have htotal := (g.after n).player.total_update (g.after n).window (g.after n).chip
      (g.after n).timer
    rw [after, hadvance, commandsIn, samplesIn_append, ← Nat.add_assoc, ← ih]
    exact htotal

/-- A chip that records has the writes that were played, as far as the filter allows them. -/
theorem writes_after (hrecording : g.chip.recording = true) (n : Nat) :
    (g.after n).chip.writes =
        g.chip.writes ++ (registerWrites (g.commandsIn n)).filter g.player.filter.allows ∧
      (g.after n).player.filter.allows = g.player.filter.allows ∧
      (g.after n).chip.recording = true := by
  induction n with
  | zero => exact ⟨(List.append_nil _).symm, rfl, hrecording⟩
  | succ n ih =>
    obtain ⟨hbefore, hfilter, hrecords⟩ := ih
    obtain ⟨served, hadvance⟩ := (g.after n).advance_eq
    have hwrites := (g.after n).player.writes_update (g.after n).window (g.after n).chip
      (g.after n).timer hrecords
    have hallows := (g.after n).player.allows_update (g.after n).window (g.after n).chip
      (g.after n).timer
    have hkind := (g.after n).player.sameKind_update (g.after n).window (g.after n).chip
      (g.after n).timer
    rw [after, hadvance, commandsIn, registerWrites_append, List.filter_append, ← List.append_assoc,
      ← hbefore, ← hfilter]
    exact ⟨hwrites, hallows, hkind.recording.trans hrecords⟩

end Playback

/-- The chip refuses no more than finitely many checks in a row. -/
structure Recorder.Fair (chip : Recorder) : Prop where
  idle : chip.busy = false
  accepts : ∀ n, ∃ m, n < m ∧ chip.accepts m = true

theorem Recorder.Fair.sameKind {chip chip' : Recorder} (h : chip.Fair)
    (hkind : chip.SameKind chip') : chip'.Fair where
  idle := hkind.busy.trans h.idle
  accepts := by
    rw [hkind.accepts]
    exact h.accepts

namespace Playback

variable {g : Playback}

theorem fair_after (h : g.chip.Fair) (n : Nat) : (g.after n).chip.Fair := by
  induction n with
  | zero => exact h
  | succ n ih =>
    obtain ⟨served, hadvance⟩ := (g.after n).advance_eq
    rw [after, hadvance]
    exact ih.sameKind ((g.after n).player.sameKind_update _ _ _)

/-- An update that plays nothing and meets no error has asked a chip that refused. -/
theorem refused_of_plays_none (hidle : g.chip.busy = false)
    (hphase : g.player.phase = .playing ∧ g.player.started = true) (herror : g.errorAt 0 = none)
    (hnone : g.commands = []) :
    g.chip.accepts (g.chip.checks + 1) = false ∧
      (g.after 1).chip = { g.chip with checks := g.chip.checks + 1 } := by
  have hready : g.chip.ready =
      (g.chip.accepts (g.chip.checks + 1), { g.chip with checks := g.chip.checks + 1 }) := by
    rw [Recorder.ready, if_neg (by simp [hidle])]
  obtain ⟨served, hadvance⟩ := g.advance_eq
  have hnext : (g.after 1).chip = (g.player.update g.window g.chip g.timer).chip := by
    show (g.advance true).2.chip = _
    rw [hadvance]
  have hsome : (g.player.update g.window g.chip g.timer).outcome.error = none := by
    have hupdate : (g.advance true).1.outcome.error = none := herror
    rwa [hadvance] at hupdate
  rcases g.player.update_plays_some g.window g.chip hphase g.timer with hplays | hrefused | hfails
  · exact absurd hnone hplays
  · rw [hready] at hrefused
    exact ⟨hrefused.1, hnext.trans hrefused.2⟩
  · rw [hsome] at hfails
    cases hfails

/-- No update of the playback ends it. -/
structure Endless (g : Playback) : Prop where
  playing : ∀ n, (g.after n).player.phase = .playing ∧ (g.after n).player.started = true
  error : ∀ n, g.errorAt n = none

theorem Endless.after (h : g.Endless) (n : Nat) : (g.after n).Endless where
  playing k := by
    rw [← after_add]
    exact h.playing (n + k)
  error k := by
    unfold errorAt
    rw [← after_add]
    exact h.error (n + k)

/-- An endless playback plays a command after a while, if the chip is fair. -/
theorem Endless.exists_plays (h : g.Endless) (hfair : g.chip.Fair) : ∃ n, g.commandsIn n ≠ [] := by
  obtain ⟨check, hlater, haccepts⟩ := hfair.accepts g.chip.checks
  obtain ⟨refusals, hrefusals⟩ := Nat.exists_eq_add_of_lt hlater
  -- induction on how many checks the chip may refuse before that one
  induction refusals generalizing g with
  | zero =>
    refine ⟨1, fun hnone => ?_⟩
    obtain ⟨hrefused, -⟩ := refused_of_plays_none hfair.idle (h.playing 0) (h.error 0) hnone
    rw [hrefusals, Nat.add_zero, hrefused] at haccepts
    cases haccepts
  | succ refusals ih =>
    by_cases hnone : g.commands = []
    · obtain ⟨-, hchip⟩ := refused_of_plays_none hfair.idle (h.playing 0) (h.error 0) hnone
      have hchecks : (g.after 1).chip.checks = g.chip.checks + 1 := by rw [hchip]
      have haccepts' : (g.after 1).chip.accepts check = true := by
        rw [hchip]
        exact haccepts
      obtain ⟨n, hplays⟩ := ih (h.after 1) (fair_after hfair 1) (by omega) haccepts' (by omega)
      refine ⟨1 + n, ?_⟩
      rw [commandsIn_add]
      exact List.append_ne_nil_of_right_ne_nil _ hplays
    · exact ⟨1, hnone⟩

/-- So it plays any number of commands. -/
theorem Endless.exists_length_le (h : g.Endless) (hfair : g.chip.Fair) (count : Nat) :
    ∃ n, count ≤ (g.commandsIn n).length := by
  induction count with
  | zero => exact ⟨0, Nat.zero_le _⟩
  | succ count ih =>
    obtain ⟨n, hcount⟩ := ih
    obtain ⟨k, hplays⟩ := (h.after n).exists_plays (fair_after hfair n)
    refine ⟨n + k, ?_⟩
    have hpos := List.length_pos_iff.mpr hplays
    rw [commandsIn_add, List.length_append]
    omega

end Playback
end ChipReplay
