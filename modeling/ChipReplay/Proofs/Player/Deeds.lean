import Mathlib.Logic.Function.Iterate
import ChipReplay.Proofs.Player.Asking
/-!
# What an update does, step by step

`deeds` is all that a player does in an update, in order: the bytes it looks at and reads, the
refills it asks for, the regions it crosses into, the ends of the stream, and the delays it arms the
timer with. Three things tie it to the update: the offsets in it are the ones that the update reads
(`offsets_deeds`), the player that the update leaves is the one that these deeds make (`Does`,
`update_does`), and the timer is armed as they say (`timer_update`).
-/

namespace ChipReplay

/-- What a player does in the course of an update. -/
inductive Deed where
  /-- The byte at a window offset is looked at. -/
  | looks (offset : Nat)
  /-- The byte at a window offset is read. -/
  | reads (offset : Nat)
  | asks (r : Refill)
  /-- The cursor moves into the next region. -/
  | crosses
  /-- The stream ends. -/
  | ends
  /-- The timer is armed. -/
  | arms (delay : UInt32)
deriving DecidableEq

namespace Deed

/-- The window offset that the player looks at. -/
def offset? : Deed → Option Nat
  | looks i | reads i => some i
  | asks _ | crosses | ends | arms _ => none

def refill? : Deed → Option Refill
  | asks r => some r
  | looks _ | reads _ | crosses | ends | arms _ => none

def delay? : Deed → Option UInt32
  | arms delay => some delay
  | looks _ | reads _ | asks _ | crosses | ends => none

/-- Whether a byte is consumed. -/
def isRead : Deed → Bool
  | reads _ => true
  | looks _ | asks _ | crosses | ends | arms _ => false

end Deed

namespace Player

/-! ## The deeds of a turn -/

/-- Reading a byte: the region that is left is asked for, the cursor moves into the next one, and
the loop region is asked for at the loop point. -/
def readDeeds (p : Player) : List Deed :=
  p.leaveRefills.map .asks ++ (if p.position.atEnd then [.crosses] else []) ++
    p.loopRefills.map .asks ++ [.reads p.position.readOffset]

/-- Reading the next `n` bytes. -/
def readsDeeds : Nat → Player → List Deed
  | 0, _ => []
  | n + 1, p => p.readDeeds ++ readsDeeds n p.past

/-- Ending the stream: A and B are asked for. -/
def endDeeds (p : Player) : List Deed :=
  .ends :: (preload (if p.loop ≠ 0 ∧ p.loopCached then p.loop + UInt32.ofNat regionSize
    else UInt32.ofNat linearEnd)).map .asks

/-- Playing the command that the player looks at. -/
def stepDeeds (w : Window) (p : Player) : List Deed :=
  readsDeeds (1 + (p.opcode w).operands) p ++
    if p.opcode w = .endOfStream then p.past.endDeeds else []

/-- Waiting, if the turn ends with that. -/
def Ending.deeds : Ending → List Deed
  | waits delay => [.arms delay]
  | proceeds | busy | yields | fails _ => []

/-- Dealing with the command that the player looks at: it is not played if the chip is busy. -/
def turnDeeds (w : Window) (v : Player × Recorder) : List Deed :=
  .looks v.1.position.readOffset ::
    if (v.1.askChip w v.2).1 then stepDeeds w v.1 ++ (v.1.turn w v.2).1.deeds else []

/-- Updating. -/
def deeds (p : Player) (w : Window) (chip : Recorder) : List Deed :=
  (p.visits w chip).flatMap (turnDeeds w)

/-! ## Offsets -/

variable {p q r : Player} {w : Window} {chip : Recorder} {a b : List Deed}

/-- Refills are no offsets. -/
theorem offsets_asks (refills : List Refill) :
    (refills.map Deed.asks).filterMap Deed.offset? = [] := by
  rw [List.filterMap_map]
  exact List.filterMap_eq_nil_iff.mpr fun _ _ => rfl

theorem refills_asks (refills : List Refill) :
    (refills.map Deed.asks).filterMap Deed.refill? = refills := by
  rw [List.filterMap_map]
  exact List.filterMap_some

theorem offsets_readDeeds (p : Player) :
    p.readDeeds.filterMap Deed.offset? = [p.position.readOffset] := by
  rw [readDeeds]
  simp only [List.filterMap_append, offsets_asks]
  split <;> rfl

theorem offsets_readsDeeds (n : Nat) (p : Player) :
    (readsDeeds n p).filterMap Deed.offset? = readOffsets n p := by
  induction n generalizing p with
  | zero => rfl
  | succ n ih =>
    rw [readsDeeds, List.filterMap_append, offsets_readDeeds, ih]
    rfl

theorem offsets_endDeeds (p : Player) : p.endDeeds.filterMap Deed.offset? = [] := by
  show List.filterMap Deed.offset? (List.map Deed.asks _) = []
  exact offsets_asks _

theorem offsets_ending (e : Ending) : e.deeds.filterMap Deed.offset? = [] := by
  cases e <;> rfl

theorem offsets_stepDeeds (w : Window) (p : Player) : (stepDeeds w p).filterMap Deed.offset? =
    readOffsets (1 + (p.opcode w).operands) p := by
  rw [stepDeeds, List.filterMap_append, offsets_readsDeeds]
  split
  · rw [offsets_endDeeds, List.append_nil]
  · exact List.append_nil _

theorem offsets_turnDeeds (w : Window) (v : Player × Recorder) :
    (turnDeeds w v).filterMap Deed.offset? = turnReads w v := by
  unfold turnDeeds turnReads
  split
  · show _ :: List.filterMap Deed.offset? (_ ++ _) = _
    rw [List.filterMap_append, offsets_stepDeeds, offsets_ending, List.append_nil]
  · rfl

/-- The offsets that an update looks at and reads are the ones that it depends on. -/
theorem offsets_deeds (p : Player) (w : Window) (chip : Recorder) :
    (p.deeds w chip).filterMap Deed.offset? = p.reads w chip := by
  rw [deeds, List.filterMap_flatMap, reads]
  simp only [offsets_turnDeeds]

/-! ## What the deeds make of a player -/

/-- The deeds make `q` of `p`. As long as the stream does not end, the cursor moves on by a byte
with each one read, and into the next region with each crossing. -/
structure Does (p : Player) (done : List Deed) (q : Player) : Prop where
  requests : q.requests.toList = p.requests.toList ++ done.filterMap Deed.refill?
  loopCount : q.loopCount = p.loopCount + UInt32.ofNat (done.count .ends)
  region : Deed.ends ∉ done →
    q.position.region = Region.next^[done.count .crosses] p.position.region
  offset : Deed.ends ∉ done →
    q.streamOffset = p.streamOffset + UInt32.ofNat (done.countP Deed.isRead)

namespace Does

theorem refl (p : Player) : Does p [] p where
  requests := (List.append_nil _).symm
  loopCount := (UInt32.add_zero _).symm
  region _ := rfl
  offset _ := (UInt32.add_zero _).symm

theorem trans (h : Does p a q) (h' : Does q b r) : Does p (a ++ b) r where
  requests := by
    rw [h'.requests, h.requests, List.filterMap_append, List.append_assoc]
  loopCount := by
    rw [h'.loopCount, h.loopCount, List.count_append, UInt32.ofNat_add, UInt32.add_assoc]
  region hnone := by
    rw [List.mem_append, not_or] at hnone
    rw [h'.region hnone.2, h.region hnone.1, List.count_append, Nat.add_comm,
      Function.iterate_add_apply]
  offset hnone := by
    rw [List.mem_append, not_or] at hnone
    rw [h'.offset hnone.2, h.offset hnone.1, List.countP_append, UInt32.ofNat_add,
      UInt32.add_assoc]

/-- Looking at a byte and arming the timer do nothing to the player. -/
theorem of_idle {d : Deed} (hrefill : d.refill? = none) (hend : d ≠ .ends) (hcross : d ≠ .crosses)
    (hread : d.isRead = false) : Does p [d] p where
  requests := by rw [List.filterMap_cons_none hrefill, List.filterMap_nil, List.append_nil]
  loopCount := by
    rw [List.count_singleton, beq_false_of_ne hend]
    exact (UInt32.add_zero _).symm
  region _ := by
    rw [List.count_singleton, beq_false_of_ne hcross]
    rfl
  offset _ := by
    rw [List.countP_singleton, hread]
    exact (UInt32.add_zero _).symm

end Does

theorem ends_notMem_readDeeds (p : Player) : Deed.ends ∉ p.readDeeds := by
  unfold readDeeds
  split <;> simp

theorem count_crosses_readDeeds (p : Player) :
    p.readDeeds.count .crosses = if p.position.atEnd then 1 else 0 := by
  have hasks (refills : List Refill) : (refills.map Deed.asks).count .crosses = 0 :=
    List.count_eq_zero.mpr (by simp)
  unfold readDeeds
  simp only [List.count_append, hasks]
  split <;> rfl

theorem countP_isRead_readDeeds (p : Player) : p.readDeeds.countP Deed.isRead = 1 := by
  have hasks (refills : List Refill) : (refills.map Deed.asks).countP Deed.isRead = 0 := by
    rw [List.countP_map]
    exact List.countP_eq_zero.mpr fun _ _ => by simp [Deed.isRead]
  unfold readDeeds
  simp only [List.countP_append, hasks]
  split <;> rfl

theorem refills_readDeeds (p : Player) :
    p.readDeeds.filterMap Deed.refill? = p.leaveRefills ++ p.loopRefills := by
  unfold readDeeds
  simp only [List.filterMap_append, refills_asks]
  split <;> simp [List.filterMap_cons, Deed.refill?]

/-- A read moves the cursor on in the stream by a byte, into the next region or not. -/
theorem streamOffset_past (h : p.position.Inside) : p.past.streamOffset = p.streamOffset + 1 := by
  show p.past.position.streamOffset = _
  rw [position_past, Position.past]
  split
  · next hend =>
    show p.streamOffset +
      UInt32.ofNat (p.position.region.next.start + 1 - p.position.region.next.start) = _
    rw [Nat.add_sub_cancel_left]
    rfl
  · next hend =>
    have hentered := h.entered_le
    show p.position.base + UInt32.ofNat (p.position.cursor + 1 - p.position.entered) =
      p.position.base + UInt32.ofNat (p.position.cursor - p.position.entered) + 1
    rw [Nat.succ_sub hentered, Nat.succ_eq_add_one, UInt32.ofNat_add, UInt32.add_assoc]
    rfl

namespace Does

theorem past (h : p.position.Inside) : Does p p.readDeeds p.past where
  requests := by rw [toList_requests_past, refills_readDeeds]
  loopCount := by
    rw [loopCount_past, List.count_eq_zero.mpr p.ends_notMem_readDeeds]
    exact (UInt32.add_zero _).symm
  region _ := by
    rw [position_past, Position.region_past, count_crosses_readDeeds, Position.readRegion]
    split <;> rfl
  offset _ := by
    rw [countP_isRead_readDeeds]
    exact streamOffset_past h

theorem reads (h : p.Sound) (n : Nat) : Does p (readsDeeds n p) (Player.past^[n] p) := by
  induction n generalizing p with
  | zero => exact refl p
  | succ n ih => exact (past h.inside).trans (ih h.past)

theorem endStream (p : Player) : Does p p.endDeeds p.endStream where
  requests := by
    show _ = _ ++ List.filterMap Deed.refill? (List.map Deed.asks _)
    rw [endStream_eq, refills_asks]
    split <;> exact Fifo.toList_pushAll _ _
  loopCount := by
    have hcount : p.endDeeds.count .ends = 1 := by simp [endDeeds, preload]
    rw [hcount, endStream_eq]
    split <;> rfl
  region hnone := absurd List.mem_cons_self hnone
  offset hnone := absurd List.mem_cons_self hnone

/-- A register write changes nothing but the filter. -/
theorem emit (h : Does p a q) (chip : Recorder) (port : Port) (register data : UInt8) :
    Does p a (q.emit chip port register data).1 := by
  rw [emit_fst]
  exact ⟨h.requests, h.loopCount, h.region, h.offset⟩

/-- A command that is played does to the player what its deeds say. -/
theorem step (h : p.Sound) (w : Window) (chip : Recorder) :
    Does p (stepDeeds w p) (p.step w chip).2.1 := by
  rw [step_eq, stepDeeds]
  cases hop : p.opcode w with
  | write port =>
    rw [if_neg nofun, List.append_nil]
    exact (reads h 3).emit chip port _ _
  | wait =>
    rw [if_neg nofun, List.append_nil]
    exact reads h 3
  | pause | dataBlock | unknown =>
    rw [if_neg nofun, List.append_nil]
    exact reads h 1
  | endOfStream =>
    rw [if_pos rfl]
    exact (reads h 1).trans (endStream p.past)

end Does

/-- A turn does to the player what its deeds say; if the command cannot be played, the player fails
on top of that. -/
theorem turn_does (h : p.Sound) (w : Window) (chip : Recorder) :
    ∃ q, Does p (turnDeeds w (p, chip)) q ∧
      ((p.turn w chip).2.1 = q ∧ (p.turn w chip).1.outcome.error = none ∨
        ∃ e, (p.turn w chip).1 = .fails e ∧ (p.turn w chip).2.1 = q.fail) := by
  have hlook : Does p [.looks p.position.readOffset] p := .of_idle rfl nofun nofun rfl
  have hending (q : Player) (e : Ending) : Does q e.deeds q := by
    cases e with
    | waits delay => exact .of_idle rfl nofun nofun rfl
    | proceeds | busy | yields | fails => exact .refl q
  unfold turnDeeds
  dsimp only
  rcases hanswer : p.askChip w chip with ⟨_ | _, chip'⟩
  · refine ⟨p, hlook, .inl ?_⟩
    rw [turn, hanswer]
    exact ⟨rfl, rfl⟩
  · refine ⟨(p.step w chip').2.1,
      hlook.trans ((Does.step h w chip').trans (hending _ (p.turn w chip).1)), ?_⟩
    unfold turn
    rw [hanswer]
    dsimp only
    generalize p.step w chip' = t
    rcases t with ⟨e | delay, q, chip''⟩
    · exact .inr ⟨e, rfl, rfl⟩
    · refine .inl ⟨rfl, ?_⟩
      unfold Ending.ofStep
      dsimp only
      split
      · rfl
      · split <;> rfl

theorem playUpTo_does (h : p.Sound) (w : Window) (chip : Recorder) (timer : Timer) (limit : Nat) :
    let t := playUpTo w limit p chip timer
    ∃ q, Does p ((visitsUpTo w limit p chip).flatMap (turnDeeds w)) q ∧
      (t.2.1 = q ∧ t.1.error = none ∨ ∃ e, t.1.error = some e ∧ t.2.1 = q.fail) := by
  induction limit generalizing p chip with
  | zero => exact ⟨p, .refl p, .inl ⟨rfl, rfl⟩⟩
  | succ limit ih =>
    obtain ⟨q, hdoes, hturn⟩ := turn_does h w chip
    have hsound := h.turn w chip
    rw [playUpTo_succ, visitsUpTo, List.flatMap_cons]
    generalize p.turn w chip = t at hturn hsound ⊢
    obtain ⟨ending, p', chip'⟩ := t
    cases ending with
    | proceeds =>
      obtain ⟨rfl, -⟩ | ⟨e, hfails, -⟩ := hturn
      · obtain ⟨r, hlater, hplayed⟩ := ih hsound chip'
        exact ⟨r, hdoes.trans hlater, hplayed⟩
      · cases hfails
    | fails e =>
      obtain ⟨-, hnone⟩ | ⟨e', hfails, hfailed⟩ := hturn
      · cases hnone
      · exact ⟨q, hdoes.trans (.refl q), .inr ⟨e, rfl, hfailed⟩⟩
    | busy | waits | yields =>
      obtain ⟨rfl, -⟩ | ⟨e, hfails, -⟩ := hturn
      · exact ⟨p', hdoes.trans (.refl p'), .inl ⟨rfl, rfl⟩⟩
      · cases hfails

/-- An update leaves the player that its deeds make, with the oldest refill handed out, or failed
with an error. -/
theorem update_does (h : p.Sound) (hplaying : p.phase = .playing ∧ p.started = true) (w : Window)
    (chip : Recorder) (timer : Timer) :
    let u := p.update w chip timer
    ∃ q, Does p (p.deeds w chip) q ∧
      (u.outcome.error = none ∧ (u.request, u.player) = q.takeRequest ∨
        ∃ e, u.outcome.error = some e ∧ (u.request, u.player) = q.fail.takeRequest) := by
  obtain ⟨q, hdoes, hplayed⟩ := playUpTo_does h w chip timer p.commandLimit
  rw [deeds, visits, update, if_pos hplaying, if_pos hplaying]
  generalize playUpTo w p.commandLimit p chip timer = t at hplayed
  obtain ⟨outcome, p', chip', timer'⟩ := t
  refine ⟨q, hdoes, ?_⟩
  obtain ⟨rfl, hnone⟩ | ⟨e, herror, rfl⟩ := hplayed
  · exact .inl ⟨hnone, rfl⟩
  · exact .inr ⟨e, herror, rfl⟩

/-! ## The timer -/

theorem delays_readsDeeds (n : Nat) (p : Player) :
    (readsDeeds n p).filterMap Deed.delay? = [] := by
  have hasks (refills : List Refill) : (refills.map Deed.asks).filterMap Deed.delay? = [] := by
    rw [List.filterMap_map]
    exact List.filterMap_eq_nil_iff.mpr fun _ _ => rfl
  induction n generalizing p with
  | zero => rfl
  | succ n ih =>
    rw [readsDeeds, List.filterMap_append, ih, readDeeds]
    simp only [List.filterMap_append, hasks]
    split <;> rfl

theorem delays_stepDeeds (w : Window) (p : Player) :
    (stepDeeds w p).filterMap Deed.delay? = [] := by
  rw [stepDeeds, List.filterMap_append, delays_readsDeeds]
  split
  · simp [endDeeds, preload, Deed.delay?]
  · rfl

/-- A turn arms the timer at most once, with what there is to wait. -/
theorem delays_turnDeeds (w : Window) (p : Player) (chip : Recorder) :
    (turnDeeds w (p, chip)).filterMap Deed.delay? =
      (p.turn w chip).1.deeds.filterMap Deed.delay? := by
  unfold turnDeeds
  dsimp only
  rcases hanswer : p.askChip w chip with ⟨_ | _, chip'⟩
  · rw [turn, hanswer]
    rfl
  · rw [List.filterMap_cons_none rfl]
    dsimp only
    rw [if_pos rfl, List.filterMap_append, delays_stepDeeds, List.nil_append]

theorem timer_playUpTo (p : Player) (w : Window) (chip : Recorder) (timer : Timer) (limit : Nat) :
    (playUpTo w limit p chip timer).2.2.2 =
      (((visitsUpTo w limit p chip).flatMap (turnDeeds w)).filterMap Deed.delay?).foldl Timer.arm
        timer := by
  induction limit generalizing p chip with
  | zero => rfl
  | succ limit ih =>
    have hdelays := delays_turnDeeds w p chip
    rw [playUpTo_succ, visitsUpTo, List.flatMap_cons, List.filterMap_append, hdelays]
    generalize p.turn w chip = t
    obtain ⟨ending, p', chip'⟩ := t
    cases ending with
    | proceeds => exact ih p' chip'
    | busy | waits | yields | fails => rfl

/-- An update arms the timer with the delays among its deeds, one after the other. -/
theorem timer_update (hplaying : p.phase = .playing ∧ p.started = true) (w : Window)
    (chip : Recorder) (timer : Timer) : (p.update w chip timer).timer =
      ((p.deeds w chip).filterMap Deed.delay?).foldl Timer.arm timer := by
  rw [deeds, visits, update, if_pos hplaying, if_pos hplaying]
  exact timer_playUpTo p w chip timer p.commandLimit

end Player
end ChipReplay
