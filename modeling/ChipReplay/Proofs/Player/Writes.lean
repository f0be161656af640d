import ChipReplay.Proofs.Chip.Keys
import ChipReplay.Proofs.Player.Turns
/-!
# What an update writes

The writes of the log reach the chip through the filter. `Logged` is what an update does to the
filter and the chip: the mask stays, and the writes that are kept behind the old ones key no channel
outside of it. The other way to the chip is the queue of direct writes, which are kept in the order
in which they were queued (`WriteQueue.writes_flush`).
-/

namespace ChipReplay

/-! ## The chip -/

namespace Recorder

variable (chip : Recorder)

/-- A chip that is asked only counts, and is ready only if it is not busy. -/
theorem of_ready {chip chip' : Recorder} {answer : Bool} (h : chip.ready = (answer, chip')) :
    chip'.writes = chip.writes ∧ chip'.recording = chip.recording ∧
      (answer = true → chip'.busy = false) := by
  unfold ready at h
  by_cases hbusy : chip.busy = true
  · rw [if_pos hbusy] at h
    obtain ⟨rfl, rfl⟩ := Prod.mk.inj h
    exact ⟨rfl, rfl, fun h => absurd h Bool.false_ne_true⟩
  · rw [if_neg hbusy] at h
    obtain ⟨-, rfl⟩ := Prod.mk.inj h
    exact ⟨rfl, rfl, fun _ => by simpa using hbusy⟩

/-- A chip that is busy drops what is written. -/
theorem writes_write (w : RegisterWrite) :
    (chip.write w).recording = chip.recording ∧
      ∃ ws, (chip.write w).writes = chip.writes ++ ws ∧ ∀ w' ∈ ws, w' = w := by
  unfold write
  by_cases hbusy : chip.busy = true
  · rw [if_pos hbusy]
    exact ⟨rfl, [], (List.append_nil _).symm, fun w' hw' => absurd hw' List.not_mem_nil⟩
  · rw [if_neg hbusy]
    refine ⟨rfl, ?_⟩
    by_cases hrecording : chip.recording = true
    · refine ⟨[w], ?_, fun w' hw' => List.mem_singleton.mp hw'⟩
      unfold writes
      dsimp only
      rw [if_pos hrecording, List.reverse_cons]
    · refine ⟨[], ?_, fun w' hw' => absurd hw' List.not_mem_nil⟩
      unfold writes
      dsimp only
      rw [if_neg hrecording, List.append_nil]

/-- A chip that records and is not busy keeps what is written. -/
theorem writes_write_of_recording {chip : Recorder} (hrecording : chip.recording = true)
    (hready : chip.busy = false) (w : RegisterWrite) :
    (chip.write w).writes = chip.writes ++ [w] := by
  unfold write writes
  rw [if_neg (by simp [hready])]
  dsimp only
  rw [if_pos hrecording, List.reverse_cons]

end Recorder

/-- Flushing moves writes from the queue to the chip, in order and without a loss. -/
theorem WriteQueue.writes_flush (q : WriteQueue) (chip : Recorder)
    (hrecording : chip.recording = true) :
    (flush q chip).2.2.writes ++ (flush q chip).2.1.toList = chip.writes ++ q.toList ∧
      (flush q chip).2.2.recording = true := by
  fun_induction flush q chip with
  | case1 q chip hpop => exact ⟨rfl, hrecording⟩
  | case2 q chip w rest hpop chip' hready =>
    obtain ⟨hwrites, hkept, -⟩ := Recorder.of_ready hready
    refine ⟨?_, hkept.trans hrecording⟩
    rw [hwrites, Fifo.toList_pushFront, Fifo.toList_of_pop? hpop]
  | case3 q chip w rest hpop chip' hready ih =>
    obtain ⟨hwrites, hkept, hidle⟩ := Recorder.of_ready hready
    have hrecording' : chip'.recording = true := hkept.trans hrecording
    obtain ⟨hflushed, hstill⟩ := ih ((chip'.writes_write w).1.trans hrecording')
    refine ⟨?_, hstill⟩
    rw [hflushed, Recorder.writes_write_of_recording hrecording' (hidle rfl), hwrites,
      Fifo.toList_of_pop? hpop]
    exact List.append_assoc _ _ _

/-! ## The player -/

namespace Player

/-- What playing does to the filter and the chip: the mask stays, and what is written keys no
channel outside of it. -/
structure Logged (p : Player) (chip : Recorder) (q : Player) (chip' : Recorder) : Prop where
  mask : q.filter.mask = p.filter.mask
  recording : chip'.recording = chip.recording
  writes : ∃ ws, chip'.writes = chip.writes ++ ws ∧
    ∀ w ∈ ws, ∀ c, w.keys c = true → p.filter.mask.contains c = true

namespace Logged

variable {p q r : Player} {w : Window} {chip chip' chip'' : Recorder}

theorem of_same (hfilter : q.filter = p.filter) (hrecording : chip'.recording = chip.recording)
    (hwrites : chip'.writes = chip.writes) : Logged p chip q chip' where
  mask := by rw [hfilter]
  recording := hrecording
  writes := ⟨[], hwrites.trans (List.append_nil _).symm, fun w hw => absurd hw List.not_mem_nil⟩

theorem trans (h : Logged p chip q chip') (h' : Logged q chip' r chip'') :
    Logged p chip r chip'' where
  mask := h'.mask.trans h.mask
  recording := h'.recording.trans h.recording
  writes := by
    obtain ⟨ws, hwrites, hkeys⟩ := h.writes
    obtain ⟨ws', hwrites', hkeys'⟩ := h'.writes
    refine ⟨ws ++ ws', by rw [hwrites', hwrites, List.append_assoc], fun w hw c hc => ?_⟩
    rcases List.mem_append.mp hw with hw | hw
    · exact hkeys w hw c hc
    · rw [← h.mask]
      exact hkeys' w hw c hc

end Logged

variable (p : Player) (w : Window) (chip : Recorder)

theorem mask_pass (f : ChannelFilter) (port : Port) (register data : UInt8) :
    (f.pass port register data).2.mask = f.mask := by
  unfold ChannelFilter.pass
  dsimp only
  split
  · rfl
  · rfl

/-- A write of the log that keys a channel outside the mask stops at the filter. -/
theorem logged_emit (port : Port) (register data : UInt8) :
    Logged p chip (p.emit chip port register data).1 (p.emit chip port register data).2 := by
  have hverdict : (p.filter.pass port register data).1 =
      p.filter.verdict (port.address register) data := by
    unfold ChannelFilter.pass
    dsimp only
    split
    · rfl
    · rfl
  have hmask := mask_pass p.filter port register data
  unfold emit
  dsimp only
  by_cases hallowed : (p.filter.pass port register data).1.isAllowed = true
  · rw [if_pos hallowed]
    obtain ⟨hrecording, ws, hwrites, hmem⟩ := chip.writes_write ⟨port.address register, data⟩
    refine ⟨hmask, hrecording, ws, hwrites, fun w' hw' c hc => ?_⟩
    rw [hverdict] at hallowed
    rw [hmem w' hw'] at hc
    exact ChannelFilter.contains_of_keys (w := ⟨port.address register, data⟩) hallowed hc
  · rw [if_neg hallowed]
    exact ⟨hmask, rfl, [], (List.append_nil _).symm, fun w' hw' => absurd hw' List.not_mem_nil⟩

theorem filter_endStream : p.endStream.filter = p.filter := by
  unfold endStream
  dsimp only
  split
  · rfl
  · rfl

theorem logged_step : Logged p chip (p.step w chip).2.1 (p.step w chip).2.2 := by
  rw [step_eq]
  cases p.opcode w with
  | write port =>
    have hemit := p.past.past.past.logged_emit chip port (p.past.peek w) (p.past.past.peek w)
    refine Logged.trans (.of_same ?_ rfl rfl) hemit
    rw [filter_past, filter_past, filter_past]
  | wait => exact .of_same (by rw [filter_past, filter_past, filter_past]) rfl rfl
  | endOfStream => exact .of_same (by rw [filter_endStream, filter_past]) rfl rfl
  | pause | dataBlock | unknown => exact .of_same (filter_past p) rfl rfl

theorem logged_turn : Logged p chip (p.turn w chip).2.1 (p.turn w chip).2.2 := by
  have hask : Logged p chip p (p.askChip w chip).2 := by
    unfold askChip
    split
    · have hready : chip.ready = (chip.ready.1, chip.ready.2) := rfl
      obtain ⟨hwrites, hrecording, -⟩ := Recorder.of_ready hready
      exact .of_same rfl hrecording hwrites
    · exact .of_same rfl rfl rfl
  unfold turn
  rcases hanswer : p.askChip w chip with ⟨_ | _, chip'⟩
  · rw [hanswer] at hask
    exact hask
  · rw [hanswer] at hask
    have hstep := p.logged_step w chip'
    dsimp only
    rcases hresult : p.step w chip' with ⟨_ | _, q, chip''⟩
    · rw [hresult] at hstep
      exact hask.trans (hstep.trans (.of_same rfl rfl rfl))
    · rw [hresult] at hstep
      exact hask.trans hstep

theorem logged_playUpTo (limit : Nat) (timer : Timer) :
    Logged p chip (playUpTo w limit p chip timer).2.1 (playUpTo w limit p chip timer).2.2.1 := by
  induction limit generalizing p chip with
  | zero => exact .of_same rfl rfl rfl
  | succ limit ih =>
    have hturn := p.logged_turn w chip
    rw [playUpTo_succ]
    generalize p.turn w chip = t at hturn ⊢
    obtain ⟨ending, q, chip'⟩ := t
    cases ending with
    | proceeds => exact hturn.trans (ih q chip')
    | busy | waits | yields | fails => exact hturn

/-- An update writes what the filter lets through. -/
theorem logged_update (timer : Timer) :
    Logged p chip (p.update w chip timer).player (p.update w chip timer).chip := by
  unfold update
  split
  · have hplay := p.logged_playUpTo w chip p.commandLimit timer
    obtain ⟨requests, hrequest, -⟩ :=
      (playUpTo w p.commandLimit p chip timer).2.1.takeRequest_eq
    refine hplay.trans (.of_same ?_ rfl rfl)
    show (playUpTo w p.commandLimit p chip timer).2.1.takeRequest.2.filter = _
    rw [hrequest]
  · exact .of_same rfl rfl rfl

/-- Beginning a stream leaves the mask alone. -/
theorem mask_begin : (p.begin w).2.filter.mask = p.filter.mask := by
  unfold begin
  dsimp only
  split
  · rfl
  · rfl

end Player
end ChipReplay
