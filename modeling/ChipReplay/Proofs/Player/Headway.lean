import ChipReplay.Proofs.Player.Signals
/-!
# Updates get on

An update plays at least one command unless the chip refuses its first readiness check. A chip that
refuses every `n`-th check never refuses two of them in a row, so two updates play at least one
command. `headway` counts that: it grows with every update (`headway_update`). A chip of any other
pattern holds an update up for as long as it refuses (`update_plays_some`). Besides, what an update
asks for are whole regions (`ofRegion_update`), and it leaves the way alone in which the chip
answers (`sameKind_update`).
-/

namespace ChipReplay

/-! ## The chip -/

namespace Recorder

/-- Both chips answer by the same pattern, are busy or not alike, and keep their writes or not
alike. -/
structure SameKind (chip chip' : Recorder) : Prop where
  accepts : chip'.accepts = chip.accepts
  busy : chip'.busy = chip.busy
  recording : chip'.recording = chip.recording

theorem SameKind.trans {chip chip' chip'' : Recorder} (h : chip.SameKind chip')
    (h' : chip'.SameKind chip'') : chip.SameKind chip'' :=
  ⟨h'.accepts.trans h.accepts, h'.busy.trans h.busy, h'.recording.trans h.recording⟩

/-- Only a signal that is about the busy flag changes the chip's kind. -/
theorem sameKind_tell (chip : Recorder) {s : Signal} (h : ∀ on, s ≠ .busy on) :
    chip.SameKind (chip.tell s) := by
  cases s with
  | asked answer =>
    show chip.SameKind chip.ready.2
    unfold ready
    split <;> exact ⟨rfl, rfl, rfl⟩
  | direct w | log w =>
    show chip.SameKind (chip.write w)
    unfold write
    split <;> exact ⟨rfl, rfl, rfl⟩
  | queued w => exact ⟨rfl, rfl, rfl⟩
  | busy on => exact absurd rfl (h on)

theorem sameKind_foldl_tell (chip : Recorder) {signals : List Signal}
    (h : ∀ s ∈ signals, ∀ on, s ≠ .busy on) : chip.SameKind (signals.foldl tell chip) := by
  induction signals generalizing chip with
  | nil => exact ⟨rfl, rfl, rfl⟩
  | cons s signals ih =>
    obtain ⟨hfirst, hlater⟩ := List.forall_mem_cons.mp h
    exact (chip.sameKind_tell hfirst).trans (ih _ hlater)

/-- Of two checks in a row, one is answered with yes. -/
theorem refuseEvery_succ {n check : Nat} (h : refuseEvery n (check + 1) = false) :
    refuseEvery n check = true := by
  unfold refuseEvery at h ⊢
  simp only [Bool.or_eq_false_iff, decide_eq_false_iff_not, bne_eq_false_iff_eq] at h
  obtain ⟨hn, hrefused⟩ := h
  have hdvd : n ∣ check + 1 := Nat.dvd_of_mod_eq_zero hrefused
  have hnot : ¬ check % n = 0 := by
    intro hzero
    have hone : n ∣ 1 := (Nat.dvd_add_right (Nat.dvd_of_mod_eq_zero hzero)).mp hdvd
    have hle := Nat.le_of_dvd Nat.one_pos hone
    omega
  simp [hnot]

end Recorder

/-- How far a playback has come that has played the commands, with its chip. Two for every command,
and one more once the chip has refused the next one. -/
def headway (chip : Recorder) (played : List Located) : Nat :=
  2 * played.length + (!chip.accepts chip.checks).toNat

/-! ## Updates -/

/-- The refill is one of a whole region. -/
def Refill.OfRegion (r : Refill) : Prop :=
  ∃ region source, region ≠ .linear ∧ r = ofRegion region source

namespace Player

variable {p : Player} {w : Window} {chip : Recorder}

theorem sameKind_update (p : Player) (w : Window) (chip : Recorder) (timer : Timer) :
    chip.SameKind (p.update w chip timer).chip := by
  rw [(p.orderly_update w chip timer).chip_eq]
  refine chip.sameKind_foldl_tell fun s hs on hbusy => ?_
  -- an update asks and writes
  obtain ⟨v, -, hs⟩ := List.mem_flatMap.mp hs
  unfold turnSignals at hs
  split at hs
  · rcases List.mem_cons.mp hs with rfl | hs
    · cases hbusy
    · obtain ⟨w', -, rfl⟩ := List.mem_map.mp hs
      cases hbusy
  · cases hs

theorem ofRegion_past (h : ∀ r ∈ p.requests.toList, r.OfRegion) :
    ∀ r ∈ p.past.requests.toList, r.OfRegion := by
  intro r hr
  rw [toList_requests_past, List.mem_append, List.mem_append] at hr
  rcases hr with hr | hr | hr
  · exact h r hr
  · obtain ⟨hleft, rfl⟩ := mem_leaveRefills.mp hr
    exact ⟨_, _, Region.ne_linear hleft.2, rfl⟩
  · obtain ⟨-, rfl⟩ := mem_loopRefills.mp hr
    exact ⟨_, _, by decide, rfl⟩

theorem ofRegion_preload {source : UInt32} : ∀ r ∈ preload source, r.OfRegion := by
  intro r hr
  rw [preload, List.mem_cons, List.mem_singleton] at hr
  rcases hr with rfl | rfl
  · exact ⟨.a, _, by decide, rfl⟩
  · exact ⟨.b, _, by decide, rfl⟩

theorem ofRegion_endStream (h : ∀ r ∈ p.requests.toList, r.OfRegion) :
    ∀ r ∈ p.endStream.requests.toList, r.OfRegion := by
  intro r hr
  rw [endStream_eq] at hr
  split at hr <;>
  · rw [Fifo.toList_pushAll, List.mem_append] at hr
    rcases hr with hr | hr
    · exact h r hr
    · exact ofRegion_preload r hr

theorem ofRegion_turn (h : ∀ r ∈ p.requests.toList, r.OfRegion) :
    ∀ r ∈ (p.turn w chip).2.1.requests.toList, r.OfRegion := by
  have hpast := ofRegion_past h
  have hpast3 := ofRegion_past (ofRegion_past hpast)
  unfold turn
  rcases p.askChip w chip with ⟨_ | _, chip'⟩
  · exact h
  · dsimp only
    rw [step_eq]
    cases p.opcode w with
    | write port =>
      dsimp only
      rw [requests_emit]
      exact hpast3
    | wait => exact hpast3
    | pause => exact hpast
    | endOfStream => exact ofRegion_endStream hpast
    | dataBlock | unknown => exact fun r hr => absurd hr List.not_mem_nil

/-- An update asks for whole regions. -/
theorem ofRegion_update (h : ∀ r ∈ p.requests.toList, r.OfRegion) (timer : Timer) :
    let u := p.update w chip timer
    ∀ r ∈ u.request.toList ++ u.player.requests.toList, r.OfRegion := by
  unfold update
  split
  · have hplayed := playUpTo_keeps (P := fun q => ∀ r ∈ q.requests.toList, r.OfRegion) (w := w)
      (fun q chip hq => ofRegion_turn hq) p.commandLimit p chip timer h
    generalize playUpTo w p.commandLimit p chip timer = t at hplayed
    obtain ⟨outcome, q, chip', timer'⟩ := t
    obtain ⟨requests, htaken, hqueue⟩ := q.takeRequest_eq
    dsimp only at hplayed ⊢
    rw [htaken]
    dsimp only
    rw [← hqueue]
    exact hplayed
  · exact h

/-- A playback that is under way plays a command with an update, or the chip refuses the first one,
or there is none that can be played. -/
theorem update_plays_some (p : Player) (w : Window) (chip : Recorder)
    (hphase : p.phase = .playing ∧ p.started = true) (timer : Timer) :
    p.commands w chip ≠ [] ∨
      (chip.ready.1 = false ∧ (p.update w chip timer).chip = chip.ready.2) ∨
      (p.update w chip timer).outcome.error.isSome = true := by
  obtain ⟨limit, hlimit⟩ : ∃ limit, p.commandLimit = limit + 1 := ⟨_, rfl⟩
  have hcommands : p.commands w chip = commandsUpTo w p.commandLimit p chip := by
    rw [commands, visits, if_pos hphase]
    rfl
  rw [hcommands, update, if_pos hphase, hlimit, commandsUpTo_succ, playUpTo_succ]
  rcases hanswer : p.askChip w chip with ⟨_ | _, chip'⟩
  · right; left
    obtain ⟨hturn, -⟩ := turn_of_not_ready hanswer
    rw [hturn]
    -- only the chip can have said no
    unfold askChip at hanswer
    split at hanswer
    · rw [hanswer]
      exact ⟨rfl, rfl⟩
    · cases hanswer
  · have hplayed : played? w (p, chip) = (p.command? w).map fun c => ⟨p.streamOffset.toNat, c⟩ := by
      rw [played?, hanswer, if_pos rfl]
    rw [hplayed]
    unfold command?
    cases hop : p.opcode w with
    | write | wait | pause | endOfStream => exact .inl (List.cons_ne_nil _ _)
    | dataBlock | unknown =>
      right; right
      rw [turn, hanswer]
      dsimp only
      rw [step_eq, hop]
      rfl

end Player

section

variable {stream : ByteArray} {start loop : UInt32} {first later : List Located} {w : Window}
  {waiting : List Refill} {p : Player} {f : FlatPlayer} {k : Nat} {part : List Located}

/-- An update plays a command, or the chip refuses the first one. -/
theorem update_gets_on (hplayable : Playable stream start loop first later) {chip : Recorder}
    (timer : Timer) (h : Agrees f p) (hready : Ready stream w waiting p)
    (hclear : ∀ i ∈ p.reads w chip, Clear waiting p i)
    (hmid : Midway stream start loop first later f k part) :
    p.commands w chip ≠ [] ∨
      chip.ready.1 = false ∧ (p.update w chip timer).chip = chip.ready.2 := by
  obtain ⟨g, k', part', -, -, -, -, hnone, -⟩ := update_plays hplayable timer h hready hclear hmid
  rcases p.update_plays_some w chip (h.playing.mp hmid.playing) timer with
    hplays | hrefused | herror
  · exact .inl hplays
  · exact .inr hrefused
  · rw [hnone] at herror
    cases herror

/-- Every update gets on. -/
theorem headway_update (hplayable : Playable stream start loop first later) {chip : Recorder}
    (timer : Timer) {every : Nat} (haccepts : chip.accepts = Recorder.refuseEvery every)
    (hidle : chip.busy = false) (h : Agrees f p) (hready : Ready stream w waiting p)
    (hclear : ∀ i ∈ p.reads w chip, Clear waiting p i)
    (hmid : Midway stream start loop first later f k part) (played : List Located) :
    headway chip played <
      headway (p.update w chip timer).chip (played ++ p.commands w chip) := by
  unfold headway
  rw [List.length_append]
  rcases update_gets_on hplayable timer h hready hclear hmid with hsome | ⟨hrefused, hchip⟩
  · have hpos := List.length_pos_iff.mpr hsome
    have hle := Bool.toNat_le (!chip.accepts chip.checks)
    omega
  · have hready : chip.ready = (chip.accepts (chip.checks + 1),
        { chip with checks := chip.checks + 1 }) := by
      rw [Recorder.ready, if_neg (by simp [hidle])]
    rw [hready] at hrefused hchip
    have hbefore : chip.accepts chip.checks = true := by
      rw [haccepts] at hrefused ⊢
      exact Recorder.refuseEvery_succ hrefused
    rw [hchip, hbefore]
    dsimp only at hrefused ⊢
    rw [hrefused]
    simp only [Bool.not_true, Bool.not_false, Bool.toNat_false, Bool.toNat_true]
    omega

end
end ChipReplay
