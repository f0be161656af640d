import ChipReplay.Proofs.Player.Deeds
import ChipReplay.Proofs.Player.Phases
import ChipReplay.Proofs.Player.Tiling
import ChipReplay.Proofs.Stream.Refinement
/-!
# What an update is limited to

An update goes on from command to command without a counter of its own. What bounds it is the rest
of the region that the cursor is in: a turn after which the update proceeds has stayed in its region
and has read on in it (`Proceeds`), and leaving the region ends the update, as the end of the stream
does. From that follow bounds on everything that an update does (`Within`), and that the limit which
`playUpTo` is called with is never what ends it (`playUpTo_eq_of_lt`).
-/

namespace ChipReplay

/-- If the first deed asks for a refill, the second looks at no byte that the refill covers. -/
def Deed.Apart (a b : Deed) : Prop :=
  ∀ r i, a = .asks r → b.offset? = some i → ¬ r.Covers i

namespace Player

/-- Bytes in front of the end of the region. -/
def left (p : Player) : Nat := p.position.region.stop - p.position.cursor

variable {p q : Player} {w : Window} {chip chip' : Recorder} {n : Nat}

/-! ## Reads -/

theorem ends_notMem_readsDeeds (n : Nat) (p : Player) : Deed.ends ∉ readsDeeds n p := by
  induction n generalizing p with
  | zero => exact List.not_mem_nil
  | succ n ih =>
    rw [readsDeeds, List.mem_append, not_or]
    exact ⟨p.ends_notMem_readDeeds, ih p.past⟩

theorem countP_isRead_readsDeeds (n : Nat) (p : Player) :
    (readsDeeds n p).countP Deed.isRead = n := by
  induction n generalizing p with
  | zero => rfl
  | succ n ih => rw [readsDeeds, List.countP_append, countP_isRead_readDeeds, ih, Nat.add_comm]

/-- Of three reads in a row, one crosses at most. -/
theorem count_crosses_readsDeeds (hn : n ≤ 3) (p : Player) :
    (readsDeeds n p).count .crosses ≤ 1 := by
  have hnever {m : Nat} (hm : m ≤ 2) {q : Player} (hfirst : ¬ q.position.atEnd = true)
      (hsecond : ¬ q.past.position.atEnd = true) : (readsDeeds m q).count .crosses = 0 := by
    obtain rfl | rfl | rfl : m = 0 ∨ m = 1 ∨ m = 2 := by omega
    · rfl
    · simp [readsDeeds, count_crosses_readDeeds, hfirst]
    · simp only [readsDeeds, List.count_append, count_crosses_readDeeds, if_neg hfirst,
        if_neg hsecond, List.count_nil]
  induction n generalizing p with
  | zero => exact Nat.zero_le _
  | succ n ih =>
    rw [readsDeeds, List.count_append, count_crosses_readDeeds]
    by_cases hend : p.position.atEnd = true
    -- the region that is entered does not end within the two reads that are left
    · obtain ⟨hfirst, hsecond⟩ := Position.not_atEnd_past hend
      rw [← position_past] at hfirst hsecond
      rw [← position_past] at hsecond
      apply Nat.le_of_eq
      rw [hnever (by omega) hfirst hsecond, if_pos hend]
    · rw [if_neg hend, Nat.zero_add]
      exact ih (by omega) p.past

/-- Reads that do not cross move the cursor within its region. -/
theorem cursor_of_stay (hstay : Deed.crosses ∉ readsDeeds n p) :
    (past^[n] p).position.region = p.position.region ∧
      (past^[n] p).position.cursor = p.position.cursor + n := by
  induction n generalizing p with
  | zero => exact ⟨rfl, rfl⟩
  | succ n ih =>
    rw [readsDeeds, List.mem_append, not_or] at hstay
    obtain ⟨hhere, hrest⟩ := hstay
    have hend : ¬ p.position.atEnd = true := by
      rw [← List.count_eq_zero, count_crosses_readDeeds] at hhere
      intro hend
      rw [if_pos hend] at hhere
      cases hhere
    have hpast : p.past.position = p.position.advance := by
      rw [position_past, Position.past, if_neg hend]
    obtain ⟨hregion, hcursor⟩ := ih hrest
    rw [hpast] at hregion hcursor
    refine ⟨hregion, hcursor.trans ?_⟩
    show p.position.cursor + 1 + n = _
    omega

/-- Reads that end in their region have not crossed. -/
theorem crosses_notMem_of_stay (h : p.Sound) (hn : n ≤ 3)
    (hstay : (past^[n] p).position.region = p.position.region) :
    Deed.crosses ∉ readsDeeds n p := by
  have hcount := count_crosses_readsDeeds hn p
  have hregion := (Does.reads h n).region (ends_notMem_readsDeeds n p)
  intro hcross
  have hone : (readsDeeds n p).count .crosses = 1 :=
    Nat.le_antisymm hcount (List.count_pos_iff.mpr hcross)
  rw [hstay, hone] at hregion
  exact Region.next_ne _ hregion.symm

/-- Reads that do not cross ask for the loop region at most, and from outside of it. -/
theorem asks_of_stay {r : Refill} (h : p.Sound) (hstay : Deed.crosses ∉ readsDeeds n p)
    (hr : Deed.asks r ∈ readsDeeds n p) :
    p.position.region ≠ .loop ∧ r = .ofRegion .loop p.loop := by
  induction n generalizing p with
  | zero => exact absurd hr List.not_mem_nil
  | succ n ih =>
    have hfirst : Deed.crosses ∉ readsDeeds 1 p := by
      rw [readsDeeds, List.mem_append, not_or] at hstay ⊢
      exact ⟨hstay.1, List.not_mem_nil⟩
    obtain ⟨hregion, -⟩ := cursor_of_stay hfirst
    rw [readsDeeds, List.mem_append] at hr hstay
    rcases hr with hr | hr
    · have hasked : r ∈ p.leaveRefills ++ p.loopRefills := by
        rw [← refills_readDeeds]
        exact List.mem_filterMap.mpr ⟨_, hr, rfl⟩
      rcases List.mem_append.mp hasked with hasked | hasked
      · exact absurd (mem_leaveRefills.mp hasked).1.1 (not_atEnd_of_stay hregion)
      · obtain ⟨hdue, rfl⟩ := mem_loopRefills.mp hasked
        refine ⟨fun hloop => ?_, rfl⟩
        exact absurd (h.inLoop hloop) (by simp [hdue.2.1])
    · have hlater := ih h.past (fun hcross => hstay (.inr hcross)) hr
      rw [loop_past] at hlater
      exact ⟨hregion ▸ hlater.1, hlater.2⟩

/-! ## Turns -/

theorem operands_le (op : Opcode) : 1 + op.operands ≤ 3 := by
  cases op <;> simp [Opcode.operands]

/-- The turn stays in its region, where it reads a whole command that does not end the stream. -/
structure Proceeds (p : Player) (w : Window) (chip : Recorder) (q : Player) : Prop where
  deeds : turnDeeds w (p, chip) =
    .looks p.position.readOffset :: readsDeeds (1 + (p.opcode w).operands) p
  stays : Deed.crosses ∉ readsDeeds (1 + (p.opcode w).operands) p
  position : q.position = (past^[1 + (p.opcode w).operands] p).position

/-- An update proceeds after a turn of that kind only. -/
theorem proceeds_of_turn (h : p.Sound) (hturn : p.turn w chip = (.proceeds, q, chip')) :
    Proceeds p w chip q := by
  have hends : (p.turn w chip).1.deeds = [] := by
    rw [hturn]
    rfl
  have hanswer : (p.askChip w chip).1 = true := by
    rcases hanswer : p.askChip w chip with ⟨_ | _, chip₁⟩
    · rw [turn, hanswer] at hturn
      cases hturn
    · rfl
  have hplayed : p.opcode w ≠ .endOfStream ∧
      q.position = (past^[1 + (p.opcode w).operands] p).position ∧
      q.position.region = p.position.region := by
    unfold turn at hturn
    rcases hask : p.askChip w chip with ⟨_ | _, chip₁⟩
    · rw [hask] at hanswer
      cases hanswer
    · simp only [hask, step_eq] at hturn
      cases hop : p.opcode w with
      | write port =>
        simp only [hop, Prod.mk.injEq] at hturn
        obtain ⟨hending, rfl, -⟩ := hturn
        have hstay := of_decide_eq_false (Ending.ofStep_eq_proceeds hending).2
        exact ⟨by simp, position_emit .., not_not.mp hstay⟩
      | wait | pause =>
        simp only [hop, Prod.mk.injEq] at hturn
        obtain ⟨hending, rfl, -⟩ := hturn
        have hstay := of_decide_eq_false (Ending.ofStep_eq_proceeds hending).2
        exact ⟨by simp, rfl, not_not.mp hstay⟩
      | endOfStream =>
        simp only [hop, Prod.mk.injEq] at hturn
        exact absurd rfl (Ending.ofStep_eq_proceeds hturn.1).1
      | dataBlock | unknown => simp [hop] at hturn
  obtain ⟨hop, hposition, hregion⟩ := hplayed
  refine ⟨?_, crosses_notMem_of_stay h (operands_le _) (hposition ▸ hregion), hposition⟩
  rw [turnDeeds, if_pos hanswer, hends, List.append_nil, stepDeeds, if_neg hop, List.append_nil]

namespace Proceeds

theorem region (h : Proceeds p w chip q) : q.position.region = p.position.region := by
  rw [h.position]
  exact (cursor_of_stay h.stays).1

/-- What such a turn reads is gone from what is left of the region. -/
theorem left_eq (h : Proceeds p w chip q) (hq : q.Sound) :
    q.left + (1 + (p.opcode w).operands) = p.left := by
  have hcursor : q.position.cursor = p.position.cursor + (1 + (p.opcode w).operands) := by
    rw [h.position]
    exact (cursor_of_stay h.stays).2
  have hstop := hq.inside.le_stop
  have hregion := h.region
  unfold left
  rw [hregion] at hstop ⊢
  omega

end Proceeds

/-- The limit of an update does not matter once it is larger than what is left of the region. -/
theorem playUpTo_eq_of_lt (h : p.Sound) (w : Window) (chip : Recorder) (timer : Timer)
    {limit limit' : Nat} (hlimit : p.left < limit) (hlimit' : p.left < limit') :
    playUpTo w limit p chip timer = playUpTo w limit' p chip timer := by
  induction limit generalizing p chip limit' with
  | zero => cases hlimit
  | succ limit ih =>
    obtain ⟨m, rfl⟩ : ∃ m, limit' = m + 1 := ⟨limit' - 1, by omega⟩
    have hsound := h.turn w chip
    rw [playUpTo_succ, playUpTo_succ]
    rcases hturn : p.turn w chip with ⟨ending, q, chip'⟩
    rw [hturn] at hsound
    replace hsound : q.Sound := hsound
    cases ending with
    | proceeds =>
      have hleft := (proceeds_of_turn h hturn).left_eq hsound
      exact ih hsound chip' (by omega) (by omega)
    | busy | waits | yields | fails => rfl

/-! ## Bounds -/

/-- Bounds on an update that has met the commands `visited` and done `done`, where `left` bytes were
in front of the end of the region. -/
structure Within (left : Nat) (visited : List (Player × Recorder)) (done : List Deed) : Prop where
  commands : visited.length ≤ left + 1
  bytes : done.countP Deed.isRead ≤ left + 3
  crossings : done.count .crosses ≤ 1
  ends : done.count .ends ≤ 1
  arms : (done.filterMap Deed.delay?).length ≤ 1

theorem counts_looks (i : Nat) (done : List Deed) :
    (Deed.looks i :: done).countP Deed.isRead = done.countP Deed.isRead ∧
      (Deed.looks i :: done).count .crosses = done.count .crosses ∧
      (Deed.looks i :: done).count .ends = done.count .ends := by
  simp [Deed.isRead]

/-- What follows the reads of a command is no read and no crossing. -/
theorem counts_after (w : Window) (p : Player) (e : Ending) :
    let after := (if p.opcode w = .endOfStream then p.past.endDeeds else []) ++ e.deeds
    after.countP Deed.isRead = 0 ∧ after.count .crosses = 0 ∧ after.count .ends ≤ 1 := by
  have hending : e.deeds.countP Deed.isRead = 0 ∧ e.deeds.count .crosses = 0 ∧
      e.deeds.count .ends = 0 := by
    cases e <;> exact ⟨rfl, rfl, rfl⟩
  obtain ⟨hreads, hcrosses, hends⟩ := hending
  intro after
  simp only [after, List.countP_append, List.count_append, hreads, hcrosses, hends]
  split
  · simp [endDeeds, preload, Deed.isRead]
  · exact ⟨rfl, rfl, Nat.zero_le _⟩

/-- A turn plays one command at most. -/
theorem within_turn (p : Player) (w : Window) (chip : Recorder) :
    Within 0 [(p, chip)] (turnDeeds w (p, chip)) := by
  have hdeeds : turnDeeds w (p, chip) = .looks p.position.readOffset ::
      if (p.askChip w chip).1 then readsDeeds (1 + (p.opcode w).operands) p ++
        ((if p.opcode w = .endOfStream then p.past.endDeeds else []) ++
          (p.turn w chip).1.deeds) else [] := by
    rw [← List.append_assoc]
    rfl
  have harms : ((turnDeeds w (p, chip)).filterMap Deed.delay?).length ≤ 1 := by
    rw [delays_turnDeeds]
    cases (p.turn w chip).1 with
    | waits delay => exact Nat.le_refl _
    | proceeds | busy | yields | fails => exact Nat.zero_le _
  obtain ⟨hreads, hcrosses, hends⟩ := counts_after w p (p.turn w chip).1
  have hoperands := operands_le (p.opcode w)
  have hcross := count_crosses_readsDeeds hoperands p
  have hnone := List.count_eq_zero.mpr (ends_notMem_readsDeeds (1 + (p.opcode w).operands) p)
  have hbytes := countP_isRead_readsDeeds (1 + (p.opcode w).operands) p
  obtain ⟨hlookReads, hlookCrosses, hlookEnds⟩ := counts_looks p.position.readOffset
    (if (p.askChip w chip).1 then readsDeeds (1 + (p.opcode w).operands) p ++
      ((if p.opcode w = .endOfStream then p.past.endDeeds else []) ++
        (p.turn w chip).1.deeds) else [])
  refine ⟨Nat.le_refl _, ?_, ?_, ?_, harms⟩
  · rw [hdeeds, hlookReads]
    split
    · rw [List.countP_append]
      omega
    · exact Nat.zero_le _
  · rw [hdeeds, hlookCrosses]
    split
    · rw [List.count_append]
      omega
    · exact Nat.zero_le _
  · rw [hdeeds, hlookEnds]
    split
    · rw [List.count_append]
      omega
    · exact Nat.zero_le _

/-- The bounds of an update grow with what a turn that proceeds reads. -/
theorem Within.proceeds {left : Nat} {visited : List (Player × Recorder)} {done : List Deed}
    (h : Within left visited done) (hturn : Proceeds p w chip q) :
    Within (left + (1 + (p.opcode w).operands)) ((p, chip) :: visited)
      (turnDeeds w (p, chip) ++ done) := by
  have hcross := List.count_eq_zero.mpr hturn.stays
  have hend := List.count_eq_zero.mpr (ends_notMem_readsDeeds (1 + (p.opcode w).operands) p)
  have hbytes := countP_isRead_readsDeeds (1 + (p.opcode w).operands) p
  have hdelays := delays_readsDeeds (1 + (p.opcode w).operands) p
  obtain ⟨hlookReads, hlookCrosses, hlookEnds⟩ := counts_looks p.position.readOffset
    (readsDeeds (1 + (p.opcode w).operands) p ++ done)
  rw [hturn.deeds, List.cons_append]
  refine ⟨?_, ?_, ?_, ?_, ?_⟩
  · have hcommands := h.commands
    rw [List.length_cons]
    omega
  · have hlater := h.bytes
    rw [hlookReads, List.countP_append]
    omega
  · have hlater := h.crossings
    rw [hlookCrosses, List.count_append]
    omega
  · have hlater := h.ends
    rw [hlookEnds, List.count_append]
    omega
  · rw [List.filterMap_cons_none rfl, List.filterMap_append, hdelays, List.nil_append]
    exact h.arms

theorem Within.mono {left left' : Nat} {visited : List (Player × Recorder)} {done : List Deed}
    (h : Within left visited done) (hle : left ≤ left') : Within left' visited done where
  commands := Nat.le_trans h.commands (Nat.add_le_add_right hle 1)
  bytes := Nat.le_trans h.bytes (Nat.add_le_add_right hle 3)
  crossings := h.crossings
  ends := h.ends
  arms := h.arms

/-- However many turns an update takes, it keeps within the rest of its region. -/
theorem within_visitsUpTo (h : p.Sound) (w : Window) (chip : Recorder) (limit : Nat) :
    Within p.left (visitsUpTo w limit p chip)
      ((visitsUpTo w limit p chip).flatMap (turnDeeds w)) := by
  induction limit generalizing p chip with
  | zero => exact ⟨Nat.zero_le _, Nat.zero_le _, Nat.zero_le _, Nat.zero_le _, Nat.zero_le _⟩
  | succ limit ih =>
    have hsound := h.turn w chip
    have hlast : Within p.left [(p, chip)] (turnDeeds w (p, chip) ++ []) := by
      rw [List.append_nil]
      exact (within_turn p w chip).mono (Nat.zero_le _)
    rw [visitsUpTo, List.flatMap_cons]
    rcases hturn : p.turn w chip with ⟨ending, q, chip'⟩
    rw [hturn] at hsound
    cases ending with
    | proceeds =>
      have hproceeds := proceeds_of_turn h hturn
      rw [← hproceeds.left_eq hsound]
      exact (ih hsound chip').proceeds hproceeds
    | busy | waits | yields | fails => exact hlast

/-! ## Why an update ends -/

/-- What an update that did not run out of turns has ended with. -/
def Stops (w : Window) (outcome : Outcome) (visited : List (Player × Recorder))
    (done : List Deed) : Prop :=
  outcome.delay ≠ 0 ∨
    (outcome.chipBusy = true ∧ ∃ v, visited.getLast? = some v ∧ (v.1.opcode w).isWrite = true ∧
      v.2.ready.1 = false) ∨
    Deed.ends ∈ done ∨ Deed.crosses ∈ done ∨ ∃ e, outcome.error = some e ∧ e.isFatal = true

theorem Stops.cons {outcome : Outcome} {visited : List (Player × Recorder)} {done : List Deed}
    (h : Stops w outcome visited done) (v : Player × Recorder) (earlier : List Deed) :
    Stops w outcome (v :: visited) (earlier ++ done) := by
  rcases h with hdelay | ⟨hbusy, u, hlast, hwrite⟩ | hend | hcross | hfatal
  · exact .inl hdelay
  · refine .inr (.inl ⟨hbusy, u, ?_, hwrite⟩)
    rw [List.getLast?_cons, hlast]
    rfl
  · exact .inr (.inr (.inl (List.mem_append_right _ hend)))
  · exact .inr (.inr (.inr (.inl (List.mem_append_right _ hcross))))
  · exact .inr (.inr (.inr (.inr hfatal)))

/-- A turn after which the update does not proceed has a reason for that. -/
theorem stops_turn (h : p.Sound) (hends : (p.turn w chip).1 ≠ .proceeds) :
    Stops w (p.turn w chip).1.outcome [(p, chip)] (turnDeeds w (p, chip)) := by
  rcases hanswer : p.askChip w chip with ⟨_ | _, chip₁⟩
  · have hturn : p.turn w chip = (.busy, p, chip₁) := by rw [turn, hanswer]
    have hwrite : (p.opcode w).isWrite = true := by
      apply Classical.byContradiction
      intro hother
      rw [askChip_of_not_write (by simpa using hother)] at hanswer
      cases hanswer
    rw [askChip_of_write hwrite] at hanswer
    rw [hturn]
    exact .inr (.inl ⟨rfl, (p, chip), rfl, hwrite, by rw [hanswer]⟩)
  · obtain ⟨-, hfatal⟩ := p.samePlayback_step w chip₁
    have hdeeds : turnDeeds w (p, chip) =
        .looks p.position.readOffset :: (stepDeeds w p ++ (p.turn w chip).1.deeds) := by
      rw [turnDeeds, hanswer]
      rfl
    rw [hdeeds]
    unfold turn at hends ⊢
    rw [hanswer] at hends ⊢
    dsimp only at hends ⊢
    have hdoes := Does.step h w chip₁
    rcases hstep : p.step w chip₁ with ⟨e | delay, q, chip₂⟩
    · rw [hstep] at hfatal
      exact .inr (.inr (.inr (.inr ⟨e, rfl, hfatal e rfl⟩)))
    · rw [hstep] at hends hdoes
      dsimp only at hends hdoes ⊢
      unfold Ending.ofStep at hends ⊢
      by_cases hdelay : delay ≠ 0
      · rw [if_pos hdelay]
        exact .inl hdelay
      · rw [if_neg hdelay] at hends ⊢
        split at hends
        · next hyields =>
          -- without an end of the stream, only a crossing leads to another region
          by_cases hend : Deed.ends ∈ stepDeeds w p
          · exact .inr (.inr (.inl (List.mem_cons_of_mem _ (List.mem_append_left _ hend))))
          · have hop : p.opcode w ≠ .endOfStream := by
              intro hop
              refine hend (List.mem_append_right _ ?_)
              rw [if_pos hop]
              exact List.mem_cons_self
            have hregion := hdoes.region hend
            have hcross : Deed.crosses ∈ stepDeeds w p := by
              apply Classical.byContradiction
              intro hnone
              rw [List.count_eq_zero.mpr hnone] at hregion
              simp [hop, hregion] at hyields
            exact .inr (.inr (.inr (.inl (List.mem_cons_of_mem _ (List.mem_append_left _ hcross)))))
        · exact absurd rfl hends

/-- With more turns than bytes left in the region, an update ends for a reason. -/
theorem stops_playUpTo (h : p.Sound) (w : Window) (chip : Recorder) (timer : Timer) {limit : Nat}
    (hlimit : p.left < limit) :
    Stops w (playUpTo w limit p chip timer).1 (visitsUpTo w limit p chip)
      ((visitsUpTo w limit p chip).flatMap (turnDeeds w)) := by
  induction limit generalizing p chip with
  | zero => cases hlimit
  | succ limit ih =>
    have hsound := h.turn w chip
    have hstops (hends : (p.turn w chip).1 ≠ .proceeds) := stops_turn h hends
    rw [playUpTo_succ, visitsUpTo, List.flatMap_cons]
    rcases hturn : p.turn w chip with ⟨ending, q, chip'⟩
    rw [hturn] at hsound hstops
    replace hsound : q.Sound := hsound
    cases ending with
    | proceeds =>
      have hleft := (proceeds_of_turn h hturn).left_eq hsound
      exact (ih hsound chip' (by omega)).cons (p, chip) _
    | busy | waits | yields | fails =>
      rw [List.flatMap_nil, List.append_nil]
      exact hstops (by simp)

/-! ## What is asked for is not read -/

theorem apart_of_offset_none {a b : Deed} (h : b.offset? = none) : a.Apart b := by
  intro r i _ hi
  rw [h] at hi
  cases hi

/-- What a read asks for is not what it reads, or one of the two reads after it. -/
theorem apart_readDeeds (h : p.Sound) (hn : n ≤ 3) : ∀ a ∈ p.readDeeds, ∀ b ∈ readsDeeds n p,
    a.Apart b := by
  rintro a ha b hb r i rfl hi
  have hasked : r ∈ p.leaveRefills ++ p.loopRefills := by
    rw [← refills_readDeeds]
    exact List.mem_filterMap.mpr ⟨_, ha, rfl⟩
  have hoffset : i ∈ readOffsets n p := by
    rw [← offsets_readsDeeds]
    exact List.mem_filterMap.mpr ⟨b, hb, hi⟩
  have hhere : ¬ r.Covers p.position.readOffset := by
    obtain ⟨other, source, hlinear, hother, rfl⟩ := other_of_asked h hasked
    exact h.inside.not_covers hlinear hother.symm source
  obtain ⟨hnext, hsecond⟩ := not_covers_past h hasked
  obtain rfl | rfl | rfl | rfl : n = 0 ∨ n = 1 ∨ n = 2 ∨ n = 3 := by omega
  all_goals simp only [readOffsets, List.mem_cons, List.not_mem_nil, or_false] at hoffset
  · subst hoffset
    exact hhere
  · rcases hoffset with rfl | rfl
    · exact hhere
    · exact hnext
  · rcases hoffset with rfl | rfl | rfl
    · exact hhere
    · exact hnext
    · exact hsecond

theorem pairwise_readsDeeds (h : p.Sound) (hn : n ≤ 3) :
    (readsDeeds n p).Pairwise Deed.Apart := by
  induction n generalizing p with
  | zero => exact .nil
  | succ n ih =>
    have hfirst := apart_readDeeds h hn
    rw [readsDeeds] at hfirst ⊢
    refine List.pairwise_append.mpr ⟨?_, ih h.past (by omega), fun a ha b hb => ?_⟩
    · exact List.pairwise_of_forall_mem_list fun a ha b hb =>
        hfirst a ha b (List.mem_append_left _ hb)
    · exact hfirst a ha b (List.mem_append_right _ hb)

theorem pairwise_turnDeeds (h : p.Sound) (w : Window) (chip : Recorder) :
    (turnDeeds w (p, chip)).Pairwise Deed.Apart := by
  have hsilent {a b : List Deed} (hb : b.filterMap Deed.offset? = [])
      (ha : a.Pairwise Deed.Apart) : (a ++ b).Pairwise Deed.Apart := by
    have hapart (d e : Deed) (he : e ∈ b) : d.Apart e :=
      apart_of_offset_none (List.filterMap_eq_nil_iff.mp hb e he)
    exact List.pairwise_append.mpr ⟨ha,
      List.pairwise_of_forall_mem_list fun d _ e he => hapart d e he,
      fun d _ e he => hapart d e he⟩
  have hlook (d : Deed) : (Deed.looks p.position.readOffset).Apart d := by
    intro r i hr
    cases hr
  unfold turnDeeds
  refine List.pairwise_cons.mpr ⟨fun d _ => hlook d, ?_⟩
  split
  · refine hsilent (offsets_ending _) (hsilent ?_ (pairwise_readsDeeds h (operands_le _)))
    split
    · exact offsets_endDeeds _
    · rfl
  · exact .nil

theorem pairwise_visitsUpTo (h : p.Sound) (w : Window) (chip : Recorder) (limit : Nat) :
    ((visitsUpTo w limit p chip).flatMap (turnDeeds w)).Pairwise Deed.Apart := by
  induction limit generalizing p chip with
  | zero => exact .nil
  | succ limit ih =>
    have hsound := h.turn w chip
    have hfirst := pairwise_turnDeeds h w chip
    rw [visitsUpTo, List.flatMap_cons]
    rcases hturn : p.turn w chip with ⟨ending, q, chip'⟩
    rw [hturn] at hsound
    cases ending with
    | proceeds =>
      have hproceeds := proceeds_of_turn h hturn
      refine List.pairwise_append.mpr ⟨hfirst, ih hsound chip', ?_⟩
      -- a turn that proceeds asks for the loop region only, which is not read from outside of it
      rintro a ha b hb r i rfl hi
      rw [hproceeds.deeds, List.mem_cons] at ha
      obtain ⟨hregion, rfl⟩ := asks_of_stay h hproceeds.stays (ha.resolve_left (by simp))
      have hmem : i ∈ ((visitsUpTo w limit q chip').flatMap (turnDeeds w)).filterMap
          Deed.offset? := List.mem_filterMap.mpr ⟨b, hb, hi⟩
      rw [List.filterMap_flatMap] at hmem
      simp only [offsets_turnDeeds] at hmem
      exact not_covers_visitsUpTo hsound (hproceeds.region ▸ hregion) _ hmem
    | busy | waits | yields | fails =>
      rw [List.flatMap_nil, List.append_nil]
      exact hfirst

/-! ## Updates -/

/-- What an update is limited to, with `p.left` bytes in front of the end of its region. -/
structure Limited (p : Player) (w : Window) (chip : Recorder) (timer : Timer) : Prop where
  /-- The offsets of the deeds are the ones that the update depends on. -/
  offsets : (p.deeds w chip).filterMap Deed.offset? = p.reads w chip
  /-- The update leaves the player that the deeds make, or fails on top of that. -/
  does : ∃ q, Does p (p.deeds w chip) q ∧
    ((p.update w chip timer).outcome.error = none ∧
        ((p.update w chip timer).request, (p.update w chip timer).player) = q.takeRequest ∨
      ∃ e, (p.update w chip timer).outcome.error = some e ∧
        ((p.update w chip timer).request, (p.update w chip timer).player) = q.fail.takeRequest)
  timer_eq : (p.update w chip timer).timer =
    ((p.deeds w chip).filterMap Deed.delay?).foldl Timer.arm timer
  /-- A limit beyond the one that the update has changes nothing. -/
  unlimited : ∀ limit, p.left + 1 ≤ limit →
    playUpTo w limit p chip timer = playUpTo w p.commandLimit p chip timer
  within : Within p.left (p.visits w chip) (p.deeds w chip)
  stops : Stops w (p.update w chip timer).outcome (p.visits w chip) (p.deeds w chip)
  apart : (p.deeds w chip).Pairwise Deed.Apart

theorem limited_of_sound (h : p.Sound) (hplaying : p.phase = .playing ∧ p.started = true)
    (w : Window) (chip : Recorder) (timer : Timer) : p.Limited w chip timer where
  offsets := p.offsets_deeds w chip
  does := update_does h hplaying w chip timer
  timer_eq := timer_update hplaying w chip timer
  unlimited limit hlimit := playUpTo_eq_of_lt h w chip timer hlimit (Nat.lt_succ_self _)
  within := by
    rw [deeds, visits, if_pos hplaying]
    exact within_visitsUpTo h w chip p.commandLimit
  stops := by
    rw [deeds, visits, update, if_pos hplaying, if_pos hplaying]
    exact stops_playUpTo h w chip timer (Nat.lt_succ_self _)
  apart := by
    rw [deeds, visits, if_pos hplaying]
    exact pairwise_visitsUpTo h w chip p.commandLimit

theorem Consistent.update (h : p.Consistent) (w : Window) (chip : Recorder) (timer : Timer) :
    (p.update w chip timer).player.Consistent := by
  by_cases hplaying : p.phase = .playing ∧ p.started = true
  · obtain ⟨q, hsame, ⟨rfl, -⟩ | ⟨e, -, -, hfailed, -⟩⟩ := p.update_phases w chip hplaying timer
    · exact h.samePlayback hsame
    · rw [hfailed]
      exact .fail q
  · rw [Player.update, if_neg hplaying]
    exact h

end Player

namespace Log

theorem player_call_begin (l : Log) (w : Window) :
    (l.call (.begin w)).player = (l.player.begin w).2 := by
  unfold call
  dsimp only
  split <;> rfl

theorem consistent_call {l : Log} (h : l.player.Consistent) (c : Call) :
    (l.call c).player.Consistent := by
  cases c with
  | begin w =>
    rw [player_call_begin]
    exact .begin l.player w
  | update w chip timer => exact h.update w chip timer
  | take =>
    obtain ⟨requests, htaken, -⟩ := l.player.takeRequest_eq
    show l.player.takeRequest.2.Consistent
    rw [htaken]
    exact ⟨h.playing_iff, h.header⟩
  | retune filter => exact ⟨h.playing_iff, h.header⟩

theorem consistent_run (calls : List Call) : (run calls).player.Consistent := by
  have hinitial : initial.player.Consistent := Player.Consistent.initial
  unfold run
  refine List.foldlRecOn (motive := fun l => l.player.Consistent) calls call hinitial ?_
  intro l h c _
  exact consistent_call h c

/-- Every update of a playback is limited by what is left of the region that the cursor is in,
whatever calls came before it, and whatever the window holds, the chip answers and the timer is.
With `r = p.left` bytes left,

* it ends by itself: no larger limit than `r + 1` commands would change it;
* it looks at no more than `r + 1` commands and consumes no more than `r + 3` bytes;
* it crosses into another region once at most, ends the stream once at most, and arms the timer once
  at most;
* it ends with a delay, in front of a write that the chip is busy for, with an end of the stream,
  with a crossing, or with a fatal error;
* what it asks for is looked at by nothing that it does afterwards. -/
theorem update_limited (calls : List Call) (w : Window) (chip : Recorder) (timer : Timer)
    (hphase : (run calls).player.phase = .playing) :
    (run calls).player.Limited w chip timer := by
  have hstarted := (consistent_run calls).playing_iff.mp hphase
  obtain ⟨hsound, -⟩ := (Kept.run calls).tracks ⟨hphase, hstarted⟩
  exact Player.limited_of_sound hsound ⟨hphase, hstarted⟩ w chip timer

theorem deeds_framePlayer {w : Window} (hw : ∀ i < 0x50, w.byte i = Bytes.peek frameStream i)
    (chip : Recorder) :
    framePlayer.deeds w chip = [.looks 0x40, .reads 0x40, .arms Opcode.frame60] := by
  have hread : framePlayer.readDeeds = [.reads 0x40] := by decide
  rw [Player.deeds, visits_framePlayer hw, List.flatMap_singleton, Player.turnDeeds,
    turn_framePlayer hw, readOffset_framePlayer]
  simp [Player.askChip, Player.stepDeeds, opcode_framePlayer hw, Opcode.isWrite, Opcode.operands,
    Player.readsDeeds, hread, Player.Ending.deeds]

/-- The wait for a frame is looked at, read, and waited for. -/
theorem update_limited_frame :
    (run [.begin frameWindow]).player = framePlayer ∧
      framePlayer.Limited frameWindow (.fresh (fun _ => true) true) { manual := true } ∧
      framePlayer.left = 0x11FC0 ∧
      framePlayer.deeds frameWindow (.fresh (fun _ => true) true) =
        [.looks 0x40, .reads 0x40, .arms Opcode.frame60] := by
  have hw := byte_frameWindow
  have hplayer : (run [.begin frameWindow]).player = framePlayer := by
    rw [run, List.foldl_cons, List.foldl_nil, player_call_begin]
    exact congrArg Prod.snd (begin_frameStream hw)
  have hlimited := update_limited [.begin frameWindow] frameWindow (.fresh (fun _ => true) true)
    { manual := true } (by rw [hplayer]; rfl)
  rw [hplayer] at hlimited
  exact ⟨hplayer, hlimited, by decide, deeds_framePlayer hw _⟩

end Log
end ChipReplay
