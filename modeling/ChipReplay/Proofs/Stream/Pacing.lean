import ChipReplay.Proofs.Stream.Accounts
/-!
# One wait for each update

An update ends with the first command that waits (`Player.waitsLast_update`). So a pass that still
has a wait ahead is not ended by it, and the timer runs once that wait has been taken
(`update_paced`). The same holds of what is played until the timer is advanced (`Paced.trans`). A
player that has not come to its loop point has all waits behind that ahead (`Playable.waits_ahead`).
-/

namespace ChipReplay

/-- How many of the commands make the player wait. -/
def waitsIn (commands : List Located) : Nat := commands.countP (0 < ·.command.waitSamples)

theorem waitsIn_append (a b : List Located) : waitsIn (a ++ b) = waitsIn a + waitsIn b :=
  List.countP_append

/-- Commands that wait for no sample do not wait. -/
theorem waitsIn_of_samplesIn {commands : List Located} (h : samplesIn commands = 0) :
    waitsIn commands = 0 := by
  induction commands with
  | nil => rfl
  | cons c rest ih =>
    rw [samplesIn] at h
    rw [waitsIn, List.countP_cons_of_neg (by simp; omega)]
    exact ih (by omega)

/-- None of the commands waits but the last one, and if that does there is a delay. -/
def WaitsLast (delay : UInt32) (commands : List Located) : Prop :=
  waitsIn commands = 0 ∨
    delay ≠ 0 ∧ ∃ before c, commands = before ++ [c] ∧ waitsIn before = 0 ∧
      0 < c.command.waitSamples

namespace Player

theorem waitsLast_playUpTo (w : Window) (limit : Nat) (p : Player) (chip : Recorder)
    (timer : Timer) :
    WaitsLast (playUpTo w limit p chip timer).1.delay (commandsUpTo w limit p chip) := by
  induction limit generalizing p chip with
  | zero => exact .inl rfl
  | succ limit ih =>
    have hsamples := p.samples_turn w chip
    rw [playUpTo_succ, commandsUpTo_succ]
    rcases hturn : p.turn w chip with ⟨ending, q, chip'⟩
    rw [hturn] at hsamples
    cases ending with
    | proceeds =>
      have hnone := waitsIn_of_samplesIn hsamples.symm
      rcases ih q chip' with hzero | ⟨hdelay, before, c, hcommands, hbefore, hwaits⟩
      · exact .inl (by rw [waitsIn_append, hnone, hzero])
      · refine .inr ⟨hdelay, (played? w (p, chip)).toList ++ before, c, ?_, ?_, hwaits⟩
        · dsimp only
          rw [hcommands, List.append_assoc]
        · rw [waitsIn_append, hnone, hbefore]
    | waits delay =>
      dsimp only
      rw [List.append_nil]
      cases hplayed : played? w (p, chip) with
      | none => exact .inl rfl
      | some c =>
        rw [hplayed] at hsamples
        replace hsamples : delay.toNat = c.command.waitSamples + 0 := hsamples
        by_cases hzero : delay = 0
        · rw [hzero] at hsamples
          exact .inl (waitsIn_of_samplesIn hsamples.symm)
        · have hpos := Nat.pos_of_ne_zero fun h => hzero (UInt32.toNat_inj.mp h)
          exact .inr ⟨hzero, [], c, rfl, rfl, by omega⟩
    | busy | yields | fails =>
      dsimp only
      rw [List.append_nil]
      exact .inl (waitsIn_of_samplesIn hsamples.symm)

/-- An update ends with the first command that waits. -/
theorem waitsLast_update (p : Player) (w : Window) (chip : Recorder) (timer : Timer) :
    WaitsLast (p.update w chip timer).outcome.delay (p.commands w chip) := by
  unfold commands visits update
  split
  · exact waitsLast_playUpTo w p.commandLimit p chip timer
  · exact .inl rfl

end Player

theorem Timer.manual_arm (t : Timer) (samples : UInt32) : (t.arm samples).manual = t.manual := by
  unfold arm
  split <;> rfl

/-- A timer that waits to be advanced runs once it is armed. -/
theorem Timer.elapsed_arm {t : Timer} (h : t.manual = true) {samples : UInt32}
    (hne : samples ≠ 0) : (t.arm samples).elapsed = false := by
  rw [arm, if_neg hne, elapsed]
  dsimp only
  rw [if_pos h]
  exact beq_false_of_ne hne

section

variable {stream : ByteArray} {start loop : UInt32} {first later : List Located} {w : Window}
  {p : Player} {f : FlatPlayer} {k k' : Nat} {part part' : List Located}

/-- What is played until the wait is over for the next time: as long as the pass has a wait ahead it
is not ended, and once that is taken the timer runs. A timer that has elapsed counts as one wait. -/
def Paced (first later : List Located) (k : Nat) (part : List Located) (timer : Timer) (k' : Nat)
    (part' : List Located) (timer' : Timer) : Prop :=
  timer.manual = true → timer'.manual = true ∧
    (waitsIn part + timer.elapsed.toNat ≤ waitsIn (passAt first later k) →
      k' = k ∧ waitsIn part' + timer'.elapsed.toNat ≤ waitsIn part + timer.elapsed.toNat)

theorem Paced.refl {timer : Timer} : Paced first later k part timer k part timer :=
  fun hmanual => ⟨hmanual, fun _ => ⟨rfl, Nat.le_refl _⟩⟩

theorem Paced.trans {k₁ : Nat} {part₁ : List Located} {timer timer₁ timer' : Timer}
    (h : Paced first later k part timer k₁ part₁ timer₁)
    (h' : Paced first later k₁ part₁ timer₁ k' part' timer') :
    Paced first later k part timer k' part' timer' := by
  intro hmanual
  obtain ⟨hmanual₁, hfirst⟩ := h hmanual
  obtain ⟨hmanual', hthen⟩ := h' hmanual₁
  refine ⟨hmanual', fun hahead => ?_⟩
  obtain ⟨rfl, hle₁⟩ := hfirst hahead
  obtain ⟨rfl, hle'⟩ := hthen (Nat.le_trans hle₁ hahead)
  exact ⟨rfl, Nat.le_trans hle' hle₁⟩

/-- An update takes at most one wait, and it does not end a pass that has a wait ahead. -/
theorem update_paced (hplayable : Playable stream start loop first later) {chip : Recorder}
    {timer : Timer} (helapsed : timer.elapsed = true)
    (hcontinues : Continues first later k part (p.commands w chip) k' part') :
    Paced first later k part timer k' part' (p.update w chip timer).timer := by
  intro hmanual
  have hlast := p.waitsLast_update w chip timer
  have htimer : (p.update w chip timer).timer = timer.arm (p.update w chip timer).outcome.delay :=
    congrArg Player.Update.timer (p.update_timer w chip timer timer)
  rw [htimer, helapsed, Bool.toNat_true]
  refine ⟨(timer.manual_arm _).trans hmanual, fun hahead => ?_⟩
  rcases hlast with hzero | ⟨hdelay, before, c, hcommands, hbefore, hwaits⟩
  · have hbit := Bool.toNat_le (timer.arm (p.update w chip timer).outcome.delay).elapsed
    cases hcontinues with
    | within => exact ⟨rfl, by rw [waitsIn_append, hzero]; omega⟩
    | ending hends =>
      rw [← hends, waitsIn_append, hzero] at hahead
      omega
  · rw [Timer.elapsed_arm hmanual hdelay]
    rw [hcommands] at hcontinues
    have hone : waitsIn [c] ≤ 1 := List.countP_le_length
    cases hcontinues with
    | within =>
      rw [waitsIn_append, waitsIn_append, hbefore, Bool.toNat_false]
      exact ⟨rfl, by omega⟩
    | ending hends =>
      -- the pass would have to end with a command that waits
      obtain ⟨place, hend, -⟩ := hplayable.later_pass.exists_last
      rw [← hplayable.getLast?_passAt k, ← hends, ← List.append_assoc, List.getLast?_concat] at hend
      obtain rfl := Option.some.inj hend
      exact absurd hwaits (Nat.lt_irrefl 0)

/-! ## What is ahead -/

/-- What a pass ends with is a pass of its own, which begins further on. -/
theorem Pass.le_of_suffix {commands rest : List Located} {i j : Nat} (h : Pass stream i commands)
    (hsuffix : rest <:+ commands) (hrest : Pass stream j rest) :
    i ≤ j ∧ (rest ≠ commands → i < j) := by
  have hhead {c : Command} {tail : List Located} {i : Nat}
      (hpass : Pass stream j (⟨i, c⟩ :: tail)) : j = i := by
    cases hpass <;> rfl
  induction h with
  | @last i hcommand =>
    rcases List.suffix_cons_iff.mp hsuffix with rfl | hnil
    · exact ⟨Nat.le_of_eq (hhead hrest).symm, fun hne => absurd rfl hne⟩
    · exact absurd (List.eq_nil_of_suffix_nil hnil) hrest.ne_nil
  | @next i c tail hcommand hend hblock htail ih =>
    rcases List.suffix_cons_iff.mp hsuffix with rfl | htailSuffix
    · exact ⟨Nat.le_of_eq (hhead hrest).symm, fun hne => absurd rfl hne⟩
    · have hlater := (ih htailSuffix).1
      have hpos := c.length_pos
      exact ⟨by omega, fun _ => by omega⟩

/-- The loop point does not lie in front of the first command. -/
theorem Playable.start_le (h : Playable stream start loop first later) (hne : loop ≠ 0) :
    start.toNat ≤ loop.toNat := by
  have hlater := h.later_pass
  rw [if_neg hne] at hlater
  exact (h.first_pass.le_of_suffix h.suffix hlater).1

/-- As long as the loop point has not been passed, all waits behind it are ahead. -/
theorem Playable.waits_ahead (h : Playable stream start loop first later) (hne : loop ≠ 0)
    (hmid : Midway stream start loop first later f k part) (hbehind : f.position ≤ loop.toNat) :
    waitsIn part + waitsIn later ≤ waitsIn (passAt first later k) := by
  obtain ⟨rest, hrest, hsplit⟩ := hmid.ahead
  have hlater := h.later_pass
  rw [if_neg hne] at hlater
  have hlaterSuffix : later <:+ passAt first later k := by
    cases k with
    | zero => exact h.suffix
    | succ k => exact List.suffix_refl later
  have hrestSuffix : rest <:+ passAt first later k := ⟨part, hsplit.symm⟩
  -- both are ends of the pass, and `rest` begins no later than `later`
  have hahead : later <:+ rest := by
    rcases List.suffix_or_suffix_of_suffix hlaterSuffix hrestSuffix with hahead | hinside
    · exact hahead
    · by_cases hsame : rest = later
      · exact hsame ▸ List.suffix_refl _
      · have hlt := (hlater.le_of_suffix hinside hrest).2 hsame
        omega
  obtain ⟨before, hbefore⟩ := hahead
  rw [hsplit, ← hbefore, waitsIn_append, waitsIn_append]
  omega

end
end ChipReplay
