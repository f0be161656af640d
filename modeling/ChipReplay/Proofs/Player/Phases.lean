import ChipReplay.Proofs.Player.Turns
/-!
# The life of a playback

A playback that is under way goes on until a command cannot be played. `SamePlayback` is what every
turn leaves alone until then, and `update_phases` says how an update ends: the playback goes on, or
it has failed with an error that ends it. What every player has is `Consistent`: it plays exactly if
it has been started, and then it has a header.
-/

namespace ChipReplay
namespace Player

/-- `q` is in the same playback as `p`, under the same filter. -/
structure SamePlayback (p q : Player) : Prop where
  phase : q.phase = p.phase
  started : q.started = p.started
  header : q.header = p.header
  blocksPcmKeys : q.filter.blocksPcmKeys = p.filter.blocksPcmKeys

namespace SamePlayback

variable {p q r : Player}

theorem refl (p : Player) : SamePlayback p p := ⟨rfl, rfl, rfl, rfl⟩

theorem trans (h : SamePlayback p q) (h' : SamePlayback q r) : SamePlayback p r where
  phase := h'.phase.trans h.phase
  started := h'.started.trans h.started
  header := h'.header.trans h.header
  blocksPcmKeys := h'.blocksPcmKeys.trans h.blocksPcmKeys

end SamePlayback

variable (p : Player) (w : Window) (chip : Recorder)

theorem samePlayback_past : SamePlayback p p.past := by
  rw [past_eq]
  exact ⟨rfl, rfl, rfl, rfl⟩

theorem samePlayback_endStream : SamePlayback p p.endStream := by
  rw [endStream_eq]
  split
  · exact ⟨rfl, rfl, rfl, rfl⟩
  · exact ⟨rfl, rfl, rfl, rfl⟩

/-- The filter keeps its flags when it remembers a level. -/
theorem samePlayback_emit (port : Port) (register data : UInt8) :
    SamePlayback p (p.emit chip port register data).1 := by
  refine ⟨rfl, rfl, rfl, ?_⟩
  show (p.filter.pass port register data).2.blocksPcmKeys = _
  unfold ChannelFilter.pass
  dsimp only
  split
  · rfl
  · rfl

/-! ## Turns -/

/-- A command is played in the playback that is under way; one that cannot be played is fatal. -/
theorem samePlayback_step : SamePlayback p (p.step w chip).2.1 ∧
    ∀ e, (p.step w chip).1 = .error e → e.isFatal = true := by
  have hthird : SamePlayback p p.past.past.past :=
    (p.samePlayback_past.trans p.past.samePlayback_past).trans p.past.past.samePlayback_past
  rw [step_eq]
  cases p.opcode w with
  | write port =>
    exact ⟨hthird.trans (p.past.past.past.samePlayback_emit chip port _ _), nofun⟩
  | wait => exact ⟨hthird, nofun⟩
  | pause => exact ⟨p.samePlayback_past, nofun⟩
  | endOfStream => exact ⟨p.samePlayback_past.trans p.past.samePlayback_endStream, nofun⟩
  | dataBlock => exact ⟨p.samePlayback_past, fun e he => by obtain rfl := Except.error.inj he; rfl⟩
  | unknown => exact ⟨p.samePlayback_past, fun e he => by obtain rfl := Except.error.inj he; rfl⟩

/-- A turn goes on with the playback, or ends it. -/
theorem turn_phases : ∃ q, SamePlayback p q ∧
    ((p.turn w chip).2.1 = q ∧ (p.turn w chip).1.outcome.error = none ∨
      ∃ e, (p.turn w chip).1 = .fails e ∧ e.isFatal = true ∧ (p.turn w chip).2.1 = q.fail) := by
  unfold turn
  rcases p.askChip w chip with ⟨_ | _, chip'⟩
  · exact ⟨p, .refl p, .inl ⟨rfl, rfl⟩⟩
  · obtain ⟨hsame, hfatal⟩ := p.samePlayback_step w chip'
    dsimp only
    generalize p.step w chip' = t at hsame hfatal ⊢
    rcases t with ⟨e | delay, q, chip''⟩
    · exact ⟨q, hsame, .inr ⟨e, rfl, hfatal e rfl, rfl⟩⟩
    · refine ⟨q, hsame, .inl ⟨rfl, ?_⟩⟩
      unfold Ending.ofStep
      dsimp only
      split
      · rfl
      · split <;> rfl

theorem playUpTo_phases (limit : Nat) (timer : Timer) : ∃ q, SamePlayback p q ∧
    ((playUpTo w limit p chip timer).2.1 = q ∧
        (playUpTo w limit p chip timer).1.error = none ∨
      ∃ e, (playUpTo w limit p chip timer).1.error = some e ∧ e.isFatal = true ∧
        (playUpTo w limit p chip timer).2.1 = q.fail) := by
  induction limit generalizing p chip with
  | zero => exact ⟨p, .refl p, .inl ⟨rfl, rfl⟩⟩
  | succ limit ih =>
    obtain ⟨q, hsame, hturn⟩ := p.turn_phases w chip
    rw [playUpTo_succ]
    generalize p.turn w chip = t at hturn ⊢
    obtain ⟨ending, p', chip'⟩ := t
    cases ending with
    | proceeds =>
      obtain ⟨rfl, -⟩ | ⟨e, hfails, -⟩ := hturn
      · obtain ⟨r, hlater, hplayed⟩ := ih p' chip'
        exact ⟨r, hsame.trans hlater, hplayed⟩
      · cases hfails
    | fails e =>
      obtain ⟨-, hnone⟩ | ⟨e', hfails, hfatal, hfailed⟩ := hturn
      · cases hnone
      · obtain rfl := Ending.fails.inj hfails
        exact ⟨q, hsame, .inr ⟨e, rfl, hfatal, hfailed⟩⟩
    | busy | waits | yields =>
      obtain ⟨rfl, -⟩ | ⟨e, hfails, -⟩ := hturn
      · exact ⟨p', hsame, .inl ⟨rfl, rfl⟩⟩
      · cases hfails

/-! ## Updates -/

/-- An update of a playback that is under way goes on with it, or ends it with an error and no
request left. -/
theorem update_phases (hplaying : p.phase = .playing ∧ p.started = true) (timer : Timer) :
    ∃ q, SamePlayback p q ∧
      ((p.update w chip timer).player = q ∧ (p.update w chip timer).outcome.error = none ∨
        ∃ e, (p.update w chip timer).outcome.error = some e ∧ e.isFatal = true ∧
          (p.update w chip timer).player = q.fail ∧ (p.update w chip timer).request = none) := by
  obtain ⟨q, hsame, hplayed⟩ := p.playUpTo_phases w chip p.commandLimit timer
  rw [update, if_pos hplaying]
  generalize playUpTo w p.commandLimit p chip timer = t at hplayed
  obtain ⟨outcome, p', chip', timer'⟩ := t
  obtain ⟨rfl, hnone⟩ | ⟨e, herror, hfatal, hfailed⟩ := hplayed
  · obtain ⟨requests, htaken, -⟩ := p'.takeRequest_eq
    refine ⟨p'.takeRequest.2, ?_, .inl ⟨rfl, hnone⟩⟩
    rw [htaken]
    exact ⟨hsame.phase, hsame.started, hsame.header, hsame.blocksPcmKeys⟩
  · obtain rfl : p' = q.fail := hfailed
    exact ⟨q, hsame, .inr ⟨e, herror, hfatal, rfl, rfl⟩⟩

/-- A player plays exactly if it has been started, and then it has a header. -/
structure Consistent (p : Player) : Prop where
  playing_iff : p.phase = .playing ↔ p.started = true
  header : p.started = true → p.header.isSome = true

namespace Consistent

variable {p}

theorem samePlayback {q : Player} (h : p.Consistent) (hsame : SamePlayback p q) :
    q.Consistent where
  playing_iff := by
    rw [hsame.phase, hsame.started]
    exact h.playing_iff
  header := by
    rw [hsame.started, hsame.header]
    exact h.header

theorem initial : Player.initial.Consistent := ⟨by decide, nofun⟩

theorem fail (p : Player) : p.fail.Consistent := ⟨by simp [Player.fail], nofun⟩

theorem begin (p : Player) (w : Window) : (p.begin w).2.Consistent := by
  unfold Player.begin
  dsimp only
  cases readHeader w with
  | error e => exact ⟨by simp, nofun⟩
  | ok header => exact ⟨iff_of_true rfl rfl, fun _ => rfl⟩

end Consistent
end Player
end ChipReplay
