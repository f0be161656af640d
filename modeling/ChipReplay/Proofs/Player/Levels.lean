import ChipReplay.Proofs.Player.Signals
/-!
# The level that the log sets

The filter remembers the ADPCM-A level that the log set last. It lets every write to that register
pass, whatever is blocked, so what it remembers after an update is decided by what the log tries to
write (`Player.level_update`). Writes that start ADPCM are another matter: none of them gets past a
filter that blocks them (`ChannelFilter.not_allows_key`).
-/

namespace ChipReplay

/-! ## Levels -/

/-- The ADPCM-A level that the write sets, if it sets one. -/
def RegisterWrite.level? (w : RegisterWrite) : Option UInt8 :=
  if w.address = Register.adpcmALevel then some w.data else none

/-- The ADPCM-A level that the writes set last, and `level` if they set none. -/
def lastLevel (level : UInt8) (ws : List RegisterWrite) : UInt8 :=
  (ws.filterMap RegisterWrite.level?).getLast?.getD level

theorem lastLevel_append (level : UInt8) (a b : List RegisterWrite) :
    lastLevel level (a ++ b) = lastLevel (lastLevel level a) b := by
  unfold lastLevel
  rw [List.filterMap_append, List.getLast?_append, Option.getD_or]

/-- The write starts ADPCM playback. -/
def RegisterWrite.isPcmKey (w : RegisterWrite) : Bool := ChannelFilter.isPcmKey w.address

namespace ChannelFilter

/-- No rule refuses a level. -/
theorem allows_level (f : ChannelFilter) {w : RegisterWrite}
    (h : w.address = Register.adpcmALevel) : f.allows w = true := by
  have hpitch : FmChannel.ofPitchRegister? Register.adpcmALevel = none := by decide
  have hkey : ChannelFilter.isPcmKey Register.adpcmALevel = false := by decide
  have hother : (Register.adpcmALevel == Register.fmKey) = false := by decide
  unfold allows verdict
  rw [h, hpitch, hkey, hother]
  simp [Verdict.isAllowed]

/-- A filter that blocks the ADPCM keys refuses all of them. -/
theorem not_allows_key {f : ChannelFilter} (hblocks : f.blocksPcmKeys = true) {w : RegisterWrite}
    (h : w.isPcmKey = true) : f.allows w = false := by
  have hkey : ChannelFilter.isPcmKey w.address = true := h
  unfold allows verdict
  dsimp only
  rw [hblocks, hkey]
  split
  · rfl
  · rfl

/-- A write that sets the level is let through and remembered, and no other is remembered. -/
theorem level_pass (f : ChannelFilter) (port : Port) (register data : UInt8) :
    (f.pass port register data).2.adpcmALevel =
      lastLevel f.adpcmALevel [⟨port.address register, data⟩] := by
  by_cases haddress : port.address register = Register.adpcmALevel
  · have hallowed : (f.verdict Register.adpcmALevel data).isAllowed = true :=
      f.allows_level (w := ⟨Register.adpcmALevel, data⟩) rfl
    simp [pass, lastLevel, RegisterWrite.level?, hallowed, haddress]
  · simp [pass, lastLevel, RegisterWrite.level?, haddress]

end ChannelFilter

/-! ## Updates -/

namespace Player

variable (p : Player) (w : Window) (chip : Recorder)

/-- A turn leaves the level alone unless the log tries to set it. -/
theorem level_turn :
    (p.turn w chip).2.1.filter.adpcmALevel =
      lastLevel p.filter.adpcmALevel (registerWrites (played? w (p, chip)).toList) := by
  rcases hanswer : p.askChip w chip with ⟨_ | _, chip'⟩
  · obtain ⟨hturn, hnone⟩ := turn_of_not_ready hanswer
    rw [hturn, hnone]
    rfl
  · have hplayed : played? w (p, chip) =
        (p.command? w).map fun c => ⟨p.streamOffset.toNat, c⟩ := by
      rw [played?, hanswer, if_pos rfl]
    rw [hplayed, turn, hanswer]
    dsimp only
    rw [step_eq, command?]
    cases p.opcode w with
    | write port =>
      dsimp only
      rw [emit_fst]
      dsimp only
      rw [ChannelFilter.level_pass, filter_past, filter_past, filter_past]
      rfl
    | wait =>
      dsimp only
      rw [filter_past, filter_past, filter_past]
      rfl
    | endOfStream =>
      dsimp only
      rw [filter_endStream, filter_past]
      rfl
    | pause | dataBlock | unknown => exact congrArg _ (filter_past p)

theorem level_playUpTo (limit : Nat) (timer : Timer) :
    (playUpTo w limit p chip timer).2.1.filter.adpcmALevel =
      lastLevel p.filter.adpcmALevel (registerWrites (commandsUpTo w limit p chip)) := by
  induction limit generalizing p chip with
  | zero => rfl
  | succ limit ih =>
    have hturn := p.level_turn w chip
    rw [playUpTo_succ, commandsUpTo_succ, registerWrites_append, lastLevel_append, ← hturn]
    generalize p.turn w chip = t
    obtain ⟨ending, q, chip'⟩ := t
    cases ending with
    | proceeds => exact ih q chip'
    | busy | waits | yields | fails => rfl

/-- After an update, the filter remembers the level that the log tried to set last. -/
theorem level_update (timer : Timer) :
    (p.update w chip timer).player.filter.adpcmALevel =
      lastLevel p.filter.adpcmALevel (registerWrites (p.commands w chip)) := by
  unfold update commands visits
  split
  · obtain ⟨requests, htaken, -⟩ :=
      (playUpTo w p.commandLimit p chip timer).2.1.takeRequest_eq
    show (playUpTo w p.commandLimit p chip timer).2.1.takeRequest.2.filter.adpcmALevel = _
    rw [htaken]
    exact p.level_playUpTo w chip p.commandLimit timer
  · rfl

end Player
end ChipReplay
