import ChipReplay.Proofs.Player.Bounds
/-!
# What reads ask for

A read asks for the region it leaves and, from outside of it, for the loop region. Neither is read
again before the update is over: not by the command that is being read (`not_covers_past`), and
not by the commands after it (`not_covers_visitsUpTo`). So an update never waits for a refill of
its own.
-/

namespace ChipReplay

/-! ## Coverage -/

namespace Refill

/-- The refill may write to window offset `i`. -/
def Covers (r : Refill) (i : Nat) : Prop :=
  r.target.toNat ≤ i ∧ i < r.target.toNat + r.length.toNat

theorem target_ofRegion (region : Region) (source : UInt32) :
    (ofRegion region source).target.toNat = region.start := by
  cases region <;> rfl

theorem length_ofRegion (region : Region) (source : UInt32) :
    (ofRegion region source).length.toNat = regionSize :=
  toNat_regionSize

/-- A region's refill covers the region. -/
theorem covers_ofRegion {region : Region} (h : region ≠ .linear) (source : UInt32) (i : Nat) :
    (ofRegion region source).Covers i ↔ region.start ≤ i ∧ i < region.stop := by
  rw [Covers, target_ofRegion, length_ofRegion, Region.stop_eq h]

end Refill

/-- No window offset lies in two regions. -/
theorem Region.eq_of_mem {r s : Region} {i : Nat} (hr : r.start ≤ i ∧ i < r.stop)
    (hs : s.start ≤ i ∧ i < s.stop) : r = s := by
  cases r <;> cases s <;> first | rfl | (simp only [start, stop] at hr hs; omega)

/-- A refill of another region does not cover the next byte. -/
theorem Position.Inside.not_covers {q : Position} (h : q.Inside) {other : Region}
    (hlinear : other ≠ .linear) (hother : q.readRegion ≠ other) (source : UInt32) :
    ¬ (Refill.ofRegion other source).Covers q.readOffset := by
  intro hcovers
  rw [Refill.covers_ofRegion hlinear] at hcovers
  exact hother (Region.eq_of_mem h.readOffset_mem hcovers)

namespace Player

variable {p q : Player} {w : Window} {chip chip' : Recorder}

/-! ## Reads -/

/-- A read asks for a region that it leaves, and for the loop region from outside of it. -/
theorem mem_asked {r : Refill} (h : p.Sound) (hr : r ∈ p.leaveRefills ++ p.loopRefills) :
    ∃ other source, other ≠ Region.linear ∧ r = .ofRegion other source ∧
      (other = p.position.region ∧ p.position.atEnd = true ∨
        other = .loop ∧ p.position.region ≠ .loop) := by
  rcases List.mem_append.mp hr with hr | hr
  · obtain ⟨hleft, rfl⟩ := mem_leaveRefills.mp hr
    exact ⟨_, _, Region.ne_linear hleft.2, rfl, .inl ⟨rfl, hleft.1⟩⟩
  · obtain ⟨hdue, rfl⟩ := mem_loopRefills.mp hr
    refine ⟨_, _, by decide, rfl, .inr ⟨rfl, ?_⟩⟩
    intro hloop
    exact absurd (h.inLoop hloop) (by simp [hdue.2.1])

/-- Every refill that a read asks for is of a region it does not read, and no linear one. -/
theorem other_of_asked {r : Refill} (h : p.Sound)
    (hr : r ∈ p.leaveRefills ++ p.loopRefills) :
    ∃ other source, other ≠ Region.linear ∧ other ≠ p.position.readRegion ∧
      r = .ofRegion other source := by
  obtain ⟨other, source, hlinear, rfl, ⟨rfl, hend⟩ | ⟨rfl, hregion⟩⟩ := mem_asked h hr
  · refine ⟨_, _, hlinear, ?_, rfl⟩
    rw [Position.readRegion, if_pos hend]
    exact (Region.next_ne _).symm
  · exact ⟨_, _, hlinear, (Position.readRegion_ne_loop hregion).symm, rfl⟩

/-- What a read asks for is not read by the two reads after it. -/
theorem not_covers_past {r : Refill} (h : p.Sound)
    (hr : r ∈ p.leaveRefills ++ p.loopRefills) :
    ¬ r.Covers p.past.position.readOffset ∧ ¬ r.Covers p.past.past.position.readOffset := by
  have hinside := h.inside
  rw [position_past, position_past, position_past]
  obtain ⟨other, source, hlinear, rfl, ⟨rfl, hend⟩ | ⟨rfl, hregion⟩⟩ := mem_asked h hr
  -- the region that is left: the two reads stay in the next one
  · obtain ⟨hfirst, hsecond⟩ := Position.not_atEnd_past hend
    have hpast : p.position.past.readRegion = p.position.region.next := by
      rw [Position.readRegion, if_neg hfirst]
      rw [Position.region_past, Position.readRegion, if_pos hend]
    have hpast2 : p.position.past.past.readRegion = p.position.region.next := by
      rw [Position.readRegion, if_neg hsecond, Position.region_past, hpast]
    have hne := Region.next_ne p.position.region
    exact ⟨hinside.past.not_covers hlinear (hpast ▸ hne) _,
      hinside.past.past.not_covers hlinear (hpast2 ▸ hne) _⟩
  -- the loop region: no read moves into it
  · have hpast : p.position.past.readRegion ≠ .loop :=
      Position.readRegion_ne_loop (p.position.region_past ▸ Position.readRegion_ne_loop hregion)
    have hpast2 : p.position.past.past.readRegion ≠ .loop :=
      Position.readRegion_ne_loop (p.position.past.region_past ▸ hpast)
    exact ⟨hinside.past.not_covers hlinear hpast _, hinside.past.past.not_covers hlinear hpast2 _⟩

/-! ## Turns that proceed -/

/-- A read that stays in its region does not leave it. -/
theorem not_atEnd_of_stay (hstay : p.past.position.region = p.position.region) :
    ¬ p.position.atEnd = true := by
  intro hend
  rw [position_past, Position.region_past, Position.readRegion, if_pos hend] at hstay
  exact Region.next_ne _ hstay

/-- Three reads that end in their region have not left it on the way. -/
theorem stay_of_stay_three (hstay : p.past.past.past.position.region = p.position.region) :
    p.past.position.region = p.position.region ∧
    p.past.past.position.region = p.position.region := by
  simp only [position_past, Position.region_past] at hstay ⊢
  by_cases hfirst : p.position.atEnd = true
  -- a cursor that leaves with the first read cannot be back after two more
  · obtain ⟨hsecond, hthird⟩ := Position.not_atEnd_past hfirst
    rw [Position.readRegion, if_neg hthird, Position.region_past, Position.readRegion,
      if_neg hsecond, Position.region_past, Position.readRegion, if_pos hfirst] at hstay
    exact absurd hstay (Region.next_ne _)
  · have hregion : p.position.readRegion = p.position.region := by
      rw [Position.readRegion, if_neg hfirst]
    have hpast : p.position.past.region = p.position.region := by
      rw [Position.region_past, hregion]
    refine ⟨hregion, ?_⟩
    by_cases hsecond : p.position.past.atEnd = true
    · obtain ⟨hthird, -⟩ := Position.not_atEnd_past hsecond
      rw [Position.readRegion, if_neg hthird, Position.region_past, Position.readRegion,
        if_pos hsecond, hpast] at hstay
      exact absurd hstay (Region.next_ne _)
    · rw [Position.readRegion, if_neg hsecond, hpast]

/-- A read that stays in its region asks for the loop region at most. -/
theorem asked_of_stay {r : Refill} (h : p.Sound)
    (hstay : p.past.position.region = p.position.region) (hr : r ∈ p.past.requests.toList) :
    r ∈ p.requests.toList ∨ p.position.region ≠ .loop ∧ r = .ofRegion .loop p.loop := by
  rw [toList_requests_past, List.mem_append, List.mem_append] at hr
  rcases hr with hr | hr | hr
  · exact .inl hr
  · exact absurd (mem_leaveRefills.mp hr).1.1 (not_atEnd_of_stay hstay)
  · obtain ⟨hdue, rfl⟩ := mem_loopRefills.mp hr
    refine .inr ⟨fun hloop => ?_, rfl⟩
    exact absurd (h.inLoop hloop) (by simp [hdue.2.1])

/-- Three reads that end in their region ask for the loop region at most. -/
theorem asked_of_stay_three {r : Refill} (h : p.Sound)
    (hstay : p.past.past.past.position.region = p.position.region)
    (hr : r ∈ p.past.past.past.requests.toList) :
    r ∈ p.requests.toList ∨ p.position.region ≠ .loop ∧ r = .ofRegion .loop p.loop := by
  obtain ⟨hfirst, hsecond⟩ := stay_of_stay_three hstay
  -- back from the third read to the first
  rcases asked_of_stay h.past.past (hstay.trans hsecond.symm) hr with hr | ⟨hregion, rfl⟩
  · rcases asked_of_stay h.past (hsecond.trans hfirst.symm) hr with hr | ⟨hregion, rfl⟩
    · exact asked_of_stay h hfirst hr
    · exact .inr ⟨hfirst ▸ hregion, by rw [loop_past]⟩
  · exact .inr ⟨hsecond ▸ hregion, by rw [loop_past, loop_past]⟩

/-- A turn that proceeds stays in its region and asks for the loop region at most. -/
theorem asked_of_proceeds (h : p.Sound) (hturn : p.turn w chip = (.proceeds, q, chip')) :
    q.position.region = p.position.region ∧ ∀ r ∈ q.requests.toList,
      r ∈ p.requests.toList ∨ p.position.region ≠ .loop ∧ r = .ofRegion .loop p.loop := by
  unfold turn at hturn
  rcases hanswer : p.askChip w chip with ⟨_ | _, chip₁⟩
  · simp [hanswer] at hturn
  · simp only [hanswer, step_eq] at hturn
    cases hop : p.opcode w with
    | write port =>
      simp only [hop, Prod.mk.injEq] at hturn
      obtain ⟨hending, rfl, -⟩ := hturn
      -- a turn that proceeds has not crossed
      have hstay := of_decide_eq_false (Ending.ofStep_eq_proceeds hending).2
      rw [position_emit, ne_eq, Classical.not_not] at hstay
      rw [position_emit, requests_emit]
      exact ⟨hstay, fun r hr => asked_of_stay_three h hstay hr⟩
    | wait =>
      simp only [hop, Prod.mk.injEq] at hturn
      obtain ⟨hending, rfl, -⟩ := hturn
      have hstay := of_decide_eq_false (Ending.ofStep_eq_proceeds hending).2
      rw [ne_eq, Classical.not_not] at hstay
      exact ⟨hstay, fun r hr => asked_of_stay_three h hstay hr⟩
    | pause samples =>
      simp only [hop, Prod.mk.injEq] at hturn
      obtain ⟨hending, rfl, -⟩ := hturn
      have hstay := of_decide_eq_false (Ending.ofStep_eq_proceeds hending).2
      rw [ne_eq, Classical.not_not] at hstay
      exact ⟨hstay, fun r hr => asked_of_stay h hstay hr⟩
    | endOfStream =>
      simp only [hop, Prod.mk.injEq] at hturn
      exact absurd rfl (Ending.ofStep_eq_proceeds hturn.1).1
    | dataBlock | unknown => simp [hop] at hturn

/-! ## Commands after them -/

/-- The loop region is not read from outside of it. -/
theorem not_covers_readOffsets (h : p.Sound) (hregion : p.position.region ≠ .loop)
    (source : UInt32) {n i : Nat} (hi : i ∈ readOffsets n p) :
    ¬ (Refill.ofRegion .loop source).Covers i := by
  induction n generalizing p with
  | zero => exact absurd hi List.not_mem_nil
  | succ n ih =>
    have hread := Position.readRegion_ne_loop hregion
    rw [readOffsets, List.mem_cons] at hi
    rcases hi with rfl | hi
    · exact h.inside.not_covers (by decide) hread source
    · exact ih h.past (by rwa [position_past, Position.region_past]) hi

theorem not_covers_turnReads (h : p.Sound) (hregion : p.position.region ≠ .loop)
    (source : UInt32) {i : Nat} (hi : i ∈ turnReads w (p, chip)) :
    ¬ (Refill.ofRegion .loop source).Covers i := by
  rw [turnReads, List.mem_cons] at hi
  rcases hi with rfl | hi
  · exact h.inside.not_covers (by decide) (Position.readRegion_ne_loop hregion) source
  · split at hi
    · exact not_covers_readOffsets h hregion source hi
    · exact absurd hi List.not_mem_nil

/-- An update that starts outside of the loop region does not read it. -/
theorem not_covers_visitsUpTo (h : p.Sound) (hregion : p.position.region ≠ .loop)
    (source : UInt32) {limit i : Nat}
    (hi : i ∈ (visitsUpTo w limit p chip).flatMap (turnReads w)) :
    ¬ (Refill.ofRegion .loop source).Covers i := by
  induction limit generalizing p chip with
  | zero => exact absurd hi List.not_mem_nil
  | succ limit ih =>
    rw [visitsUpTo, List.flatMap_cons, List.mem_append] at hi
    rcases hi with hi | hi
    · exact not_covers_turnReads h hregion source hi
    · have hq := h.turn w chip
      rcases hturn : p.turn w chip with ⟨ending, q, chip'⟩
      rw [hturn] at hi hq
      cases ending with
      -- the next turn is outside of the loop region as well
      | proceeds =>
        have hstay := (asked_of_proceeds h hturn).1
        exact ih hq (hstay ▸ hregion) hi
      | busy | waits | yields | fails => exact absurd hi List.not_mem_nil

end Player
end ChipReplay
