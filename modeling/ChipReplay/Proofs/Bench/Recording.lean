import ChipReplay.Proofs.Bench.Serving
/-!
# A record changes nothing

A chip may keep its writes or only count them. Whatever the player, the device and the bench do,
they do the same with a chip whose record is taken away (`Recorder.unrecorded`). So a run without a
record is the run with one, less the record (`Bench.run_unrecorded`).
-/

namespace ChipReplay

/-- The chip without its record. -/
def Recorder.unrecorded (chip : Recorder) : Recorder := { chip with recording := false, kept := [] }

theorem Recorder.ready_unrecorded (chip : Recorder) :
    chip.unrecorded.ready = (chip.ready.1, chip.ready.2.unrecorded) := by
  cases hbusy : chip.busy <;> simp [ready, unrecorded, hbusy]

theorem Recorder.write_unrecorded (chip : Recorder) (w : RegisterWrite) :
    chip.unrecorded.write w = (chip.write w).unrecorded := by
  cases hbusy : chip.busy <;> simp [write, unrecorded, hbusy]

theorem WriteQueue.flush_of_pop? {q rest : WriteQueue} {w : RegisterWrite}
    (h : q.pop? = some (w, rest)) (chip : Recorder) : flush q chip =
      match chip.ready with
      | (false, chip) => (false, rest.pushFront w, chip)
      | (true, chip) => flush rest (chip.write w) := by
  rw [flush]
  split
  · next hnone => exact absurd (hnone.symm.trans h) (by simp)
  · next hsome =>
    obtain ⟨rfl, rfl⟩ := Prod.mk.inj (Option.some.inj (hsome.symm.trans h))
    rfl

theorem WriteQueue.flush_unrecorded (q : WriteQueue) (chip : Recorder) :
    flush q chip.unrecorded =
      ((flush q chip).1, (flush q chip).2.1, (flush q chip).2.2.unrecorded) := by
  -- which write comes next and whether it is taken does not depend on the record
  fun_induction flush q chip with
  | case1 q chip hpop =>
    rw [flush]
    split
    · rfl
    · next hsome => exact absurd (hpop.symm.trans hsome) (by simp)
  | case2 q chip w rest hpop chip' hready =>
    rw [flush_of_pop? hpop, chip.ready_unrecorded, hready]
  | case3 q chip w rest hpop chip' hready ih =>
    rw [flush_of_pop? hpop, chip.ready_unrecorded, hready]
    dsimp only
    rw [chip'.write_unrecorded]
    exact ih

/-! ## The player -/

namespace Player

theorem step_unrecorded (p : Player) (w : Window) (chip : Recorder) :
    p.step w chip.unrecorded =
      ((p.step w chip).1, (p.step w chip).2.1, (p.step w chip).2.2.unrecorded) := by
  rw [step_eq, step_eq]
  cases p.opcode w with
  | write port =>
    unfold emit
    dsimp only
    split
    · rw [Recorder.write_unrecorded]
    · rfl
  | wait | pause | endOfStream | dataBlock | unknown => rfl

theorem askChip_unrecorded (p : Player) (w : Window) (chip : Recorder) :
    p.askChip w chip.unrecorded = ((p.askChip w chip).1, (p.askChip w chip).2.unrecorded) := by
  unfold askChip
  split
  · exact chip.ready_unrecorded
  · rfl

theorem turn_unrecorded (p : Player) (w : Window) (chip : Recorder) :
    p.turn w chip.unrecorded =
      ((p.turn w chip).1, (p.turn w chip).2.1, (p.turn w chip).2.2.unrecorded) := by
  unfold turn
  rw [askChip_unrecorded]
  rcases p.askChip w chip with ⟨_ | _, chip'⟩
  · rfl
  · dsimp only
    rw [step_unrecorded]
    rcases p.step w chip' with ⟨_ | _, q, chip''⟩ <;> rfl

theorem playUpTo_unrecorded (w : Window) (limit : Nat) (p : Player) (chip : Recorder)
    (timer : Timer) :
    let t := playUpTo w limit p chip timer
    playUpTo w limit p chip.unrecorded timer = (t.1, t.2.1, t.2.2.1.unrecorded, t.2.2.2) := by
  induction limit generalizing p chip with
  | zero => rfl
  | succ limit ih =>
    dsimp only
    rw [playUpTo_succ, playUpTo_succ, turn_unrecorded]
    generalize p.turn w chip = t
    obtain ⟨ending, q, chip'⟩ := t
    cases ending with
    | proceeds => exact ih q chip'
    | busy | waits | yields | fails => rfl

theorem update_unrecorded (p : Player) (w : Window) (chip : Recorder) (timer : Timer) :
    p.update w chip.unrecorded timer =
      { p.update w chip timer with chip := (p.update w chip timer).chip.unrecorded } := by
  unfold update
  split
  · rw [playUpTo_unrecorded]
  · rfl

theorem reads_unrecorded (p : Player) (w : Window) (chip : Recorder) :
    p.reads w chip.unrecorded = p.reads w chip := by
  -- the update visits other chips, but the same players with the same answers
  have hvisits (limit : Nat) (p : Player) (chip : Recorder) :
      (visitsUpTo w limit p chip.unrecorded).flatMap (turnReads w) =
        (visitsUpTo w limit p chip).flatMap (turnReads w) := by
    induction limit generalizing p chip with
    | zero => rfl
    | succ limit ih =>
      have hfirst : turnReads w (p, chip.unrecorded) = turnReads w (p, chip) := by
        unfold turnReads
        dsimp only
        rw [askChip_unrecorded]
      rw [visitsUpTo, visitsUpTo, turn_unrecorded, List.flatMap_cons, List.flatMap_cons, hfirst]
      generalize p.turn w chip = t
      obtain ⟨ending, q, chip'⟩ := t
      cases ending with
      | proceeds => exact congrArg _ (ih q chip')
      | busy | waits | yields | fails => rfl
  unfold reads visits
  split
  · exact hvisits _ _ _
  · rfl

end Player

/-! ## The device -/

namespace Device

variable (d : Device)

/-- The device without the record of its chip. -/
def unrecorded (d : Device) : Device := { d with chip := d.chip.unrecorded }

theorem ite_unrecorded {c : Prop} [Decidable c] {a b a' b' : Device} (ha : a' = a.unrecorded)
    (hb : b' = b.unrecorded) : (if c then a' else b') = (if c then a else b).unrecorded := by
  subst ha hb
  exact (apply_ite unrecorded c a b).symm

theorem flushDirect_unrecorded : d.unrecorded.flushDirect = d.flushDirect.unrecorded := by
  unfold flushDirect
  have hflush : WriteQueue.flush d.unrecorded.direct d.unrecorded.chip = _ :=
    WriteQueue.flush_unrecorded d.direct d.chip
  rw [hflush]
  rfl

theorem storeWindow_unrecorded (offset : Nat) (bytes : ByteArray) :
    d.unrecorded.storeWindow offset bytes = (d.storeWindow offset bytes).unrecorded := by
  unfold storeWindow
  have hstopped : (if d.unrecorded.config.stopOnLinearUpload && d.unrecorded.active &&
        offset < linearEnd then d.unrecorded.stopPlayback else d.unrecorded) =
      (if d.config.stopOnLinearUpload && d.active && offset < linearEnd then d.stopPlayback
        else d).unrecorded :=
    ite_unrecorded rfl rfl
  dsimp only
  rw [hstopped]
  generalize (if d.config.stopOnLinearUpload && d.active && offset < linearEnd then d.stopPlayback
    else d) = d
  split <;> rfl

theorem storeSamples_unrecorded (offset : Nat) (bytes : ByteArray) :
    d.unrecorded.storeSamples offset bytes = (d.storeSamples offset bytes).unrecorded := by
  unfold storeSamples
  exact ite_unrecorded rfl rfl

theorem store_unrecorded (c : Chunk) : d.unrecorded.store c = (d.store c).unrecorded := by
  let counted : Device := { d with stats := { d.stats with
    packets := d.stats.packets + 1
    bytesReceived := d.stats.bytesReceived + c.bytes.size } }
  exact ite_unrecorded (counted.storeSamples_unrecorded _ _) (counted.storeWindow_unrecorded _ _)

theorem ingest_unrecorded : d.unrecorded.ingest = d.ingest.unrecorded := by
  unfold ingest
  have hpoll : d.unrecorded.session.poll d.unrecorded.endpoint = d.session.poll d.endpoint := rfl
  rw [hpoll]
  rcases d.session.poll d.endpoint with ⟨_ | _ | c, session, endpoint⟩
  · rfl
  · rfl
  · exact store_unrecorded { d with session, endpoint } c

theorem step_unrecorded : d.unrecorded.step = d.step.unrecorded := by
  unfold step
  have hupdate : d.unrecorded.player.update d.unrecorded.window d.unrecorded.chip
      d.unrecorded.timer = _ := d.player.update_unrecorded d.window d.chip d.timer
  rw [hupdate]
  generalize d.player.update d.window d.chip d.timer = u
  dsimp only
  cases u.outcome.error with
  | none => rfl
  | some e => exact ite_unrecorded rfl rfl

theorem sendUpTo_unrecorded (limit : Nat) :
    d.unrecorded.sendUpTo limit = (d.sendUpTo limit).unrecorded := by
  induction limit generalizing d with
  | zero => rfl
  | succ limit ih =>
    unfold sendUpTo
    have hpop : d.unrecorded.outbox.pop? = d.outbox.pop? := rfl
    rw [hpop]
    rcases d.outbox.pop? with _ | ⟨message, outbox⟩
    · rfl
    · have hsend : d.unrecorded.sendMessage message = d.sendMessage message := by
        cases message <;> rfl
      dsimp only
      rw [hsend]
      rcases d.sendMessage message with ⟨_ | _, session, endpoint⟩
      · exact ih { d with session, endpoint, outbox, stats := d.stats.countSent message }
      · rfl

theorem startPlayback_unrecorded : d.unrecorded.startPlayback = d.startPlayback.unrecorded := by
  unfold startPlayback
  have hbegin : d.unrecorded.player.begin d.unrecorded.window = d.player.begin d.window := rfl
  rw [hbegin]
  rcases d.player.begin d.window with ⟨_ | _, player⟩ <;> rfl

theorem startIfAsked_unrecorded : d.unrecorded.startIfAsked = d.startIfAsked.unrecorded := by
  unfold startIfAsked
  have hasked : d.unrecorded.session.takeStart = d.session.takeStart := rfl
  rw [hasked]
  rcases d.session.takeStart with ⟨_ | _, session⟩
  · rfl
  · exact startPlayback_unrecorded { d with session }

theorem stepIfDue_unrecorded : d.unrecorded.stepIfDue = d.stepIfDue.unrecorded := by
  unfold stepIfDue
  rw [step_unrecorded]
  exact ite_unrecorded rfl rfl

theorem ingested_unrecorded : d.unrecorded.ingested = d.ingested.unrecorded := by
  have hflush := flushDirect_unrecorded
    { d with stats := { d.stats with polls := d.stats.polls + 1 } }
  rw [ingested, ingested, ← ingest_unrecorded, ← hflush]
  rfl

theorem poll_unrecorded : d.unrecorded.poll = d.poll.unrecorded := by
  rw [poll_eq, poll_eq, ingested_unrecorded, stepIfDue_unrecorded, sendMessages,
    sendUpTo_unrecorded, startIfAsked_unrecorded]
  rfl

theorem onTime_unrecorded : d.unrecorded.OnTime ↔ d.OnTime := by
  have hreads : d.unrecorded.polledReads = d.polledReads := by
    unfold polledReads
    rw [ingested_unrecorded]
    dsimp only
    rw [← d.ingested.player.reads_unrecorded]
    rfl
  unfold OnTime
  rw [hreads, ingested_unrecorded]
  rfl

theorem request_unrecorded (r : Request) :
    d.unrecorded.request r = ((d.request r).1, (d.request r).2.unrecorded) := by
  unfold request control
  have hcontrol : d.unrecorded.session.control d.unrecorded.endpoint r.encode.1 r.encode.2 =
      d.session.control d.endpoint r.encode.1 r.encode.2 := rfl
  rw [hcontrol]
  rcases d.session.control d.endpoint r.encode.1 r.encode.2 with ⟨_ | _, session, endpoint⟩ <;> rfl

end Device

/-! ## The bench -/

namespace Bench

open Device

variable (b : Bench)

/-- The bench with a chip that keeps no writes. -/
def unrecorded (b : Bench) : Bench :=
  { b with config := { b.config with recordWrites := false }, device := b.device.unrecorded }

/-- So is the bench after an activity. -/
def Progress.unrecorded (p : Progress) : Progress := (p.1, p.2.unrecorded)

theorem andThen_unrecorded {p p' : Progress} {next : Bench → Progress} (h : p' = p.unrecorded)
    (hnext : ∀ b : Bench, next b.unrecorded = (next b).unrecorded) :
    p'.andThen next = (p.andThen next).unrecorded := by
  subst h
  rcases p with ⟨_ | e, b⟩
  · exact hnext b
  · rfl

theorem request_unrecorded (r : Request) : b.unrecorded.request r = (b.request r).unrecorded := by
  unfold request
  have hrequest : b.unrecorded.device.request r = _ := b.device.request_unrecorded r
  rw [hrequest]
  rcases b.device.request r with ⟨_ | _, d⟩ <;> rfl

theorem finishUpload_unrecorded (limit : Nat) (d : Device) :
    finishUpload limit d.unrecorded =
      ((finishUpload limit d).1, (finishUpload limit d).2.unrecorded) := by
  induction limit generalizing d with
  | zero => rfl
  | succ limit ih =>
    unfold finishUpload
    rw [poll_unrecorded, ih]
    have hactive : d.unrecorded.session.active = d.session.active := rfl
    rw [hactive]
    split <;> rfl

theorem send_unrecorded (u : Upload) : b.unrecorded.send u = (b.send u).unrecorded := by
  let sent : Device := { b.device with endpoint := b.device.endpoint.pushBulk u.data }
  have hfinish : finishUpload uploadPollLimit (b.unrecorded.onDevice fun d =>
      { d with endpoint := d.endpoint.pushBulk u.data }).device = _ :=
    finishUpload_unrecorded uploadPollLimit sent
  have hsent : (b.onDevice fun d =>
      { d with endpoint := d.endpoint.pushBulk u.data }).device = sent := rfl
  unfold send
  dsimp only
  rw [hfinish, hsent]
  rcases finishUpload uploadPollLimit sent with ⟨_ | _, d⟩ <;> rfl

theorem upload_unrecorded (u : Upload) : b.unrecorded.upload u = (b.upload u).unrecorded :=
  andThen_unrecorded (b.request_unrecorded _) fun b => b.send_unrecorded u

theorem uploadAll_unrecorded (us : List Upload) :
    b.unrecorded.uploadAll us = (b.uploadAll us).unrecorded := by
  induction us generalizing b with
  | nil => rfl
  | cons u us ih => exact andThen_unrecorded (b.upload_unrecorded u) ih

theorem start_unrecorded : b.unrecorded.start = b.start.unrecorded := by
  refine andThen_unrecorded (b.request_unrecorded _) fun b => ?_
  have hpoll : b.unrecorded.device.poll = b.device.poll.unrecorded := b.device.poll_unrecorded
  rw [hpoll]
  rfl

theorem setUp_unrecorded : b.unrecorded.setUp = b.setUp.unrecorded :=
  andThen_unrecorded ((b.onDevice Device.configure).uploadAll_unrecorded b.host.initialUploads)
    start_unrecorded

theorem serve_unrecorded : b.unrecorded.serve = b.serve.unrecorded := by
  cases hslot : b.device.endpoint.inSlot with
  | none => rw [serve_of_none hslot, serve_of_none (b := b.unrecorded) hslot]; rfl
  | some message =>
    rw [serve_of_some hslot, serve_of_some (b := b.unrecorded) hslot]
    have hanswer : b.unrecorded.host.answer message = b.host.answer message := rfl
    rw [hanswer]
    rcases b.host.answer message with ⟨_ | u, host⟩
    · rfl
    · exact upload_unrecorded { b with device := b.device.react .read, host } u

theorem onDevice_tick_unrecorded :
    b.unrecorded.onDevice Device.tick = (b.onDevice Device.tick).unrecorded :=
  congrArg (fun device => { b.unrecorded with device })
    (poll_unrecorded { b.device with timer := b.device.timer.expire })

theorem round_unrecorded : b.unrecorded.round = b.round.unrecorded := by
  rw [round, onDevice_tick_unrecorded, serve_unrecorded]
  rfl

theorem play_unrecorded (limit : Nat) :
    b.unrecorded.play limit = ((b.play limit).1, (b.play limit).2.unrecorded) := by
  induction limit generalizing b with
  | zero => rfl
  | succ limit ih =>
    unfold play
    have hover : b.unrecorded.isOver = b.isOver := rfl
    rw [hover, round_unrecorded]
    split
    · rfl
    · rcases b.round with ⟨_ | _, b⟩
      · exact ih b
      · rfl

/-- A run without a record is the run with one, less the record. -/
theorem run_unrecorded (limit : Nat) :
    b.unrecorded.run limit = ((b.run limit).1, (b.run limit).2.unrecorded) := by
  unfold run
  rw [setUp_unrecorded]
  rcases b.setUp with ⟨_ | _, b⟩
  · exact b.play_unrecorded limit
  · rfl

/-! ## Its polls -/

theorem finishPolls_unrecorded (limit : Nat) (d : Device) :
    finishPolls limit d.unrecorded = (finishPolls limit d).map Device.unrecorded := by
  induction limit generalizing d with
  | zero => rfl
  | succ limit ih =>
    unfold finishPolls
    rw [poll_unrecorded, ih]
    have hactive : d.unrecorded.session.active = d.session.active := rfl
    rw [hactive]
    split <;> rfl

theorem uploadPolls_unrecorded (u : Upload) :
    b.unrecorded.uploadPolls u = (b.uploadPolls u).map Device.unrecorded := by
  have hsent : b.unrecorded.device.sentWhole u = (b.device.sentWhole u).unrecorded := by
    have hrequest : b.unrecorded.device.request u.request = _ :=
      b.device.request_unrecorded u.request
    unfold sentWhole
    rw [hrequest]
    rfl
  rw [uploadPolls, hsent, finishPolls_unrecorded]
  rfl

theorem servePolls_unrecorded :
    b.unrecorded.servePolls = b.servePolls.map Device.unrecorded := by
  unfold servePolls
  have hslot : b.unrecorded.device.endpoint.inSlot = b.device.endpoint.inSlot := rfl
  rw [hslot]
  cases b.device.endpoint.inSlot with
  | none => rfl
  | some message =>
    have hanswer : b.unrecorded.host.answer message = b.host.answer message := rfl
    dsimp only
    rw [hanswer]
    rcases b.host.answer message with ⟨_ | u, host⟩
    · rfl
    · exact uploadPolls_unrecorded { b with device := b.device.react .read, host } u

theorem playPolls_unrecorded (limit : Nat) :
    b.unrecorded.playPolls limit = (b.playPolls limit).map Device.unrecorded := by
  induction limit generalizing b with
  | zero => rfl
  | succ limit ih =>
    have hround : b.unrecorded.roundPolls = b.roundPolls.map Device.unrecorded := by
      unfold roundPolls
      rw [onDevice_tick_unrecorded, servePolls_unrecorded]
      rfl
    have hrest : b.unrecorded.round.2.playPolls limit =
        (b.round.2.playPolls limit).map Device.unrecorded := by
      rw [round_unrecorded]
      exact ih b.round.2
    unfold playPolls
    rw [hround, hrest, ← List.map_append]
    have hover : b.unrecorded.isOver = b.isOver := rfl
    rw [hover]
    split <;> rfl

end Bench
end ChipReplay
