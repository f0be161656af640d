import ChipReplay.Proofs.Bench.SetUp
import ChipReplay.Proofs.Device.Counting
/-!
# Every upload of a run completes

Between two uploads of a run the device can take another one, and nothing that it has been sent was
ever refused (`Device.Serviceable`). What the host sends is a prepared block, the part of the stream
that fills the linear region, or the answer to a request for a whole region. All of them fit, so
whatever the player does meanwhile, each takes one poll for each of its packets
(`Bench.completes_of_serviceable`), and a run never ends with an error of the host
(`Bench.uploads_complete`).
-/

namespace ChipReplay

namespace Device

variable {d old : Device} {u : Upload} {p : Packet} {ps : List Packet}

/-- The device takes an upload, all of which has been sent, and has counted what it took; the
packets `ps` wait. -/
structure Intake (old : Device) (u : Upload) (ps : List Packet) (d : Device) : Prop where
  receiving : ∃ done rest, Receiving old u done rest ps [] d ∧
    d.stats.bytesReceived = old.stats.bytesReceived + done.size
  polls : d.stats.polls + ps.length = old.stats.polls + u.packets.length
  regions : d.AsksRegions
  report : d.lastUploadError = old.lastUploadError
  overruns : d.stats.overruns = old.stats.overruns

/-- Before its first poll nothing of an upload has been taken. -/
theorem intake_sentWhole (hready : d.Ready) (hregions : d.AsksRegions) (hfits : u.Fits) :
    (d.request u.request).1 = .ok .acknowledge ∧
      Intake d u (u.packets.map .data) (d.sentWhole u) := by
  obtain ⟨haccepted, hsent⟩ := receiving_sentWhole hready hfits
  have hreport : (d.request u.request).2.lastUploadError = d.lastUploadError := by
    unfold request control at haccepted ⊢
    dsimp only at haccepted ⊢
    rw [haccepted]
  refine ⟨haccepted, ?_⟩
  exact {
    receiving := ⟨_, _, hsent, rfl⟩
    polls := by rw [List.length_map]; rfl
    regions := hregions.of_quiet (quiet_sentWhole hfits) rfl
    report := hreport
    overruns := rfl }

/-- A poll takes the packet that comes next. -/
theorem Intake.poll (h : Intake old u (p :: ps) d) (hfits : u.Fits) : Intake old u ps d.poll := by
  obtain ⟨done, rest, hreceiving, hreceived⟩ := h.receiving
  obtain ⟨done', rest', hpolled, hsize⟩ := hreceiving.poll hfits.fits
  obtain ⟨hreport, hoverruns⟩ := hreceiving.unrefused hfits.fits
  obtain ⟨hpolls, hbytes⟩ := d.counted_poll
  have hcount := h.polls
  rw [List.length_cons] at hcount
  exact {
    receiving := ⟨done', rest', hpolled, by omega⟩
    polls := by omega
    regions := h.regions.poll
    report := hreport.trans h.report
    overruns := hoverruns.trans h.overruns }

/-- When the upload is over, no packet waits and every byte has been counted. -/
theorem Intake.complete (h : Intake old u ps d) (hover : d.session.active = false) :
    ps = [] ∧ d.stats.bytesReceived = old.stats.bytesReceived + u.data.size := by
  obtain ⟨done, rest, hreceiving, hreceived⟩ := h.receiving
  have hsize := hreceiving.size_data
  have hrest : ¬ 0 < rest.size := of_decide_eq_false (hreceiving.active.symm.trans hover)
  refine ⟨?_, by omega⟩
  rcases hreceiving.carry with hcarry | ⟨hnone, -⟩
  · exact absurd hcarry.size_pos hrest
  · exact (List.append_eq_nil_iff.mp hnone).1

/-- Between two uploads: the device can take another one, asks for whole regions only, and has
refused nothing that it was sent. -/
structure Serviceable (d : Device) : Prop where
  ready : d.Ready
  inactive : d.session.active = false
  regions : d.AsksRegions
  report : d.lastUploadError = none
  overruns : d.stats.overruns = 0

namespace Serviceable

/-- A poll without an upload takes nothing. -/
theorem poll (h : d.Serviceable) :
    d.poll.Serviceable ∧ d.poll.stats.bytesReceived = d.stats.bytesReceived := by
  obtain ⟨-, hready, hover⟩ := Bench.poll_of_over h.ready h.inactive
  obtain ⟨hnone, hreport, hoverruns⟩ := unrefused_of_inactive h.inactive
  obtain ⟨-, hbytes⟩ := d.counted_poll
  rw [hnone] at hbytes
  exact ⟨⟨hready, hover, h.regions.poll, hreport.trans h.report, hoverruns.trans h.overruns⟩,
    hbytes⟩

theorem tick (h : d.Serviceable) :
    d.tick.Serviceable ∧ d.tick.stats.bytesReceived = d.stats.bytesReceived := by
  have hexpired : ({ d with timer := d.timer.expire } : Device).Serviceable :=
    ⟨⟨h.ready.inStep, h.ready.drained⟩, h.inactive, ⟨h.regions.upcoming, h.regions.requests⟩,
      h.report, h.overruns⟩
  exact hexpired.poll

/-- A device that the host has configured can take an upload. -/
theorem configured (config : DeviceConfig) (chip : Recorder) (timer : Timer) :
    (Device.new config chip timer).configure.Serviceable where
  ready := ⟨inStep_run config chip timer [.configure], ⟨rfl, rfl, rfl, rfl⟩⟩
  inactive := rfl
  regions := ⟨fun _ hr => absurd hr List.not_mem_nil, fun _ hr => absurd hr List.not_mem_nil⟩
  report := rfl
  overruns := rfl

theorem asked (h : d.Serviceable) : d.asked.Serviceable where
  ready := ⟨h.ready.inStep, h.ready.drained⟩
  inactive := h.inactive
  regions := ⟨h.regions.upcoming, h.regions.requests⟩
  report := h.report
  overruns := h.overruns

theorem read (h : d.Serviceable) : (d.react .read).Serviceable where
  ready := ⟨h.ready.inStep.react .read, { h.ready.drained with }⟩
  inactive := h.inactive
  regions := h.regions.read
  report := h.report
  overruns := h.overruns

end Serviceable
end Device

namespace Host

/-- What the host answers a request for a whole region with fits. -/
theorem fits_answer {h h' : Host} {message : ByteArray} {u : Upload}
    (hanswer : h.answer message = (some u, h'))
    (hregion : ∀ r, Notification.refillIn message = some r → r.OfRegion) : u.Fits := by
  unfold answer at hanswer
  split at hanswer
  · next sequence r hdecode =>
    have hr : r.OfRegion := hregion r (by rw [Notification.refillIn, hdecode]; rfl)
    obtain ⟨hroom, -⟩ := Device.answer_le h.stream hr
    split at hanswer
    · cases hanswer
    · dsimp only at hanswer
      split at hanswer
      · cases hanswer
      · next hsize =>
        obtain rfl := Option.some.inj (Prod.mk.inj hanswer).1
        exact ⟨Nat.pos_of_ne_zero hsize, hroom⟩
  · cases hanswer

/-- The host counts the requests that it answers with data. -/
theorem served_answer (h : Host) (message : ByteArray) :
    (h.answer message).2.served = h.served + (h.answer message).1.isSome.toNat := by
  unfold answer
  split
  · split
    · rfl
    · dsimp only
      split <;> rfl
  · rfl

end Host

namespace Bench

open Device

variable {b b' : Bench} {u : Upload} {us : List Upload}

/-! ## One upload -/

/-- The bench makes an upload from its request to its last byte. It finds the endpoint enabled and
drained, and leaves it so; it polls once for each packet; and every byte is stored and counted,
without anything being refused. -/
structure Completes (b : Bench) (u : Upload) : Prop where
  found : b.device.endpoint.Drained
  accepted : (b.device.request u.request).1 = .ok .acknowledge
  ended : (b.upload u).1 = none
  polls : (b.upload u).2.device.stats.polls =
    b.device.stats.polls + (u.data.size + (packetSize - 1)) / packetSize
  stored : b.device.Stored (b.upload u).2.device u.destination u.offset.toNat u.data
  received : (b.upload u).2.device.stats.bytesReceived =
    b.device.stats.bytesReceived + u.data.size
  report : (b.upload u).2.device.lastUploadError = b.device.lastUploadError
  overruns : (b.upload u).2.device.stats.overruns = b.device.stats.overruns
  inactive : (b.upload u).2.device.session.active = false
  left : (b.upload u).2.device.endpoint.Drained

theorem completes_of_serviceable (h : b.device.Serviceable) (hfits : u.Fits) :
    b.Completes u ∧ (b.upload u).2.device.Serviceable ∧ (b.upload u).2.host = b.host := by
  obtain ⟨haccepted, hsent⟩ := intake_sentWhole h.ready h.regions hfits
  obtain ⟨ps, d, hupload, hready, hover, hstored, hintake⟩ :=
    upload_of_ready (P := Intake b.device u) h.ready hfits hsent
      fun _ _ _ _ _ _ _ hintake => hintake.poll hfits
  obtain ⟨rfl, hreceived⟩ := hintake.complete hover
  have hpolls : d.stats.polls =
      b.device.stats.polls + (u.data.size + (packetSize - 1)) / packetSize := by
    rw [← length_packets]
    exact hintake.polls
  have hafter : (b.upload u).2 = { b with device := d } := by rw [hupload]
  have hdevice : (b.upload u).2.device = d := congrArg Bench.device hafter
  rw [hdevice, hafter]
  refine ⟨?_, ⟨hready, hover, hintake.regions, hintake.report.trans h.report,
    hintake.overruns.trans h.overruns⟩, rfl⟩
  exact {
    found := h.ready.drained
    accepted := haccepted
    ended := by rw [hupload]
    polls := by rw [hdevice, hpolls]
    stored := by
      rw [hdevice]
      exact hstored
    received := by rw [hdevice, hreceived]
    report := by rw [hdevice, hintake.report]
    overruns := by rw [hdevice, hintake.overruns]
    inactive := by rw [hdevice, hover]
    left := by
      rw [hdevice]
      exact hready.drained }

/-! ## All uploads of a run -/

/-- The uploads that `uploadAll` makes, each with the bench that makes it. -/
def uploadAllCalls (b : Bench) : List Upload → List (Bench × Upload)
  | [] => []
  | u :: rest =>
    (b, u) :: match b.upload u with
      | (none, b) => b.uploadAllCalls rest
      | (some _, _) => []

/-- The upload that answers the next notification, if there is one. -/
def serveCalls (b : Bench) : List (Bench × Upload) :=
  match b.device.endpoint.inSlot with
  | none => []
  | some message =>
    match b.host.answer message with
    | (some u, host) => [({ b with device := b.device.react .read, host }, u)]
    | (none, _) => []

/-- The uploads of the rounds that `play` makes. -/
def playCalls (b : Bench) : Nat → List (Bench × Upload)
  | 0 => []
  | limit + 1 =>
    if b.isOver then []
    else
      (b.onDevice Device.tick).serveCalls ++ match b.round with
        | (none, b) => b.playCalls limit
        | (some _, _) => []

/-- The uploads of a whole run. -/
def runCalls (b : Bench) (limit : Nat) : List (Bench × Upload) :=
  (b.onDevice Device.configure).uploadAllCalls b.host.initialUploads ++
    match b.setUp with
    | (none, ready) => ready.playCalls limit
    | (some _, _) => []

/-- The bench makes the uploads of `calls` on its way to `b'`. All of them complete, and nothing
else is received. -/
structure Makes (b : Bench) (calls : List (Bench × Upload)) (b' : Bench) : Prop where
  completes : ∀ c ∈ calls, c.1.Completes c.2
  serviceable : b'.device.Serviceable
  received : b'.device.stats.bytesReceived =
    b.device.stats.bytesReceived + (calls.map (·.2.data.size)).sum

theorem Makes.trans {b₁ b₂ b₃ : Bench} {calls later : List (Bench × Upload)}
    (h : b₁.Makes calls b₂) (h' : b₂.Makes later b₃) : b₁.Makes (calls ++ later) b₃ where
  completes := fun c hc => (List.mem_append.mp hc).elim (h.completes c) (h'.completes c)
  serviceable := h'.serviceable
  received := by
    rw [h'.received, h.received, List.map_append, List.sum_append, Nat.add_assoc]

theorem makes_nothing (h : b'.device.Serviceable)
    (hreceived : b'.device.stats.bytesReceived = b.device.stats.bytesReceived) : b.Makes [] b' where
  completes := fun _ hc => absurd hc List.not_mem_nil
  serviceable := h
  received := hreceived

theorem makes_upload (h : b.device.Serviceable) (hfits : u.Fits) :
    b.Makes [(b, u)] (b.upload u).2 ∧ b.upload u = (none, (b.upload u).2) ∧
      (b.upload u).2.host = b.host := by
  obtain ⟨hcompletes, hserviceable, hhost⟩ := completes_of_serviceable h hfits
  refine ⟨⟨fun _ hc => ?_, hserviceable, hcompletes.received⟩, Prod.ext hcompletes.ended rfl, hhost⟩
  rw [List.mem_singleton.mp hc]
  exact hcompletes

/-- Uploads that fit are all made, one after the other. -/
theorem makes_uploadAll (h : b.device.Serviceable) (hfits : ∀ u ∈ us, u.Fits) :
    ∃ b', b.uploadAll us = (none, b') ∧ b.Makes (b.uploadAllCalls us) b' ∧
      (b.uploadAllCalls us).map (·.2) = us ∧ b'.host = b.host := by
  induction us generalizing b with
  | nil => exact ⟨b, rfl, makes_nothing h rfl, rfl, rfl⟩
  | cons u us ih =>
    obtain ⟨hu, hus⟩ := List.forall_mem_cons.mp hfits
    obtain ⟨hmade, hupload, hhost⟩ := makes_upload h hu
    obtain ⟨b', hrest, hmakes, hcalls, hhost'⟩ := ih hmade.serviceable hus
    refine ⟨b', ?_, ?_, ?_, hhost'.trans hhost⟩
    · rw [uploadAll, hupload]
      exact hrest
    · rw [uploadAllCalls, hupload]
      exact hmade.trans hmakes
    · rw [uploadAllCalls, hupload]
      exact congrArg _ hcalls

/-- The host answers a notification with at most one upload, which it counts. -/
theorem makes_serve (h : b.device.Serviceable) :
    ∃ b', b.serve = (none, b') ∧ b.Makes b.serveCalls b' ∧
      b'.host.served = b.host.served + b.serveCalls.length := by
  cases hslot : b.device.endpoint.inSlot with
  | none =>
    refine ⟨b, serve_of_none hslot, ?_, ?_⟩ <;> rw [serveCalls, hslot]
    · exact makes_nothing h rfl
    · rfl
  | some message =>
    have hserved := b.host.served_answer message
    rw [serve_of_some hslot, serveCalls, hslot]
    dsimp only
    rcases hanswer : b.host.answer message with ⟨_ | u, host⟩ <;> rw [hanswer] at hserved
    · exact ⟨_, rfl, makes_nothing h.read rfl, hserved⟩
    · have hu : u.Fits := Host.fits_answer hanswer fun r hr => h.regions.inSlot hslot hr
      obtain ⟨hmakes, hupload, hhost⟩ :=
        makes_upload (b := { b with device := b.device.react .read, host }) h.read hu
      refine ⟨_, hupload, ⟨hmakes.completes, hmakes.serviceable, hmakes.received⟩, ?_⟩
      rw [hhost]
      exact hserved

/-- So does a round. -/
theorem makes_round (h : b.device.Serviceable) :
    ∃ b', b.round = (none, b') ∧ b.Makes (b.onDevice Device.tick).serveCalls b' ∧
      b'.host.served = b.host.served + (b.onDevice Device.tick).serveCalls.length := by
  obtain ⟨hticked, hreceived⟩ := h.tick
  obtain ⟨b', hserve, hmakes, hserved⟩ := makes_serve (b := b.onDevice Device.tick) hticked
  exact ⟨b', hserve, ⟨hmakes.completes, hmakes.serviceable, hreceived ▸ hmakes.received⟩, hserved⟩

theorem makes_play (h : b.device.Serviceable) (limit : Nat) :
    (∀ e, (b.play limit).1 ≠ .failed e) ∧ b.Makes (b.playCalls limit) (b.play limit).2 ∧
      (b.play limit).2.host.served = b.host.served + (b.playCalls limit).length := by
  induction limit generalizing b with
  | zero =>
    rw [play, playCalls]
    refine ⟨fun e => ?_, makes_nothing h rfl, rfl⟩
    dsimp only
    split <;> simp
  | succ limit ih =>
    rw [play, playCalls]
    by_cases hover : b.isOver = true
    · rw [if_pos hover, if_pos hover]
      exact ⟨by simp, makes_nothing h rfl, rfl⟩
    · obtain ⟨b', hround, hmakes, hserved⟩ := makes_round h
      obtain ⟨hnever, hlater, hserved'⟩ := ih hmakes.serviceable
      rw [if_neg hover, if_neg hover, hround]
      refine ⟨hnever, hmakes.trans hlater, ?_⟩
      rw [List.length_append]
      dsimp only
      omega

/-- A start takes no upload. -/
theorem makes_start (h : b.device.Serviceable) :
    ∃ b', b.start = (none, b') ∧ b.Makes [] b' ∧ b'.host.served = b.host.served := by
  obtain ⟨hpolled, hreceived⟩ := h.asked.poll
  refine ⟨{ b with host := b.host.resetSequence, device := b.device.asked.poll }, ?_,
    makes_nothing hpolled hreceived, rfl⟩
  rw [Bench.start, request_of_accepted (congrArg Prod.fst (request_startPlayback b.device)),
    request_startPlayback]
  rfl

/-- A run makes the initial uploads, and then one for each refill that the host serves. -/
theorem makes_run (h : b.device.configure.Serviceable)
    (hfits : ∀ u ∈ b.host.initialUploads, u.Fits) (limit : Nat) :
    (∀ e, (b.run limit).1 ≠ .failed e) ∧
      (b.onDevice Device.configure).Makes (b.runCalls limit) (b.run limit).2 ∧
      ∃ refills, (b.runCalls limit).map (·.2) = b.host.initialUploads ++ refills ∧
        (b.run limit).2.host.served = b.host.served + refills.length := by
  obtain ⟨b₁, huploads, hmakes₁, hcalls, hhost⟩ :=
    makes_uploadAll (b := b.onDevice Device.configure) h hfits
  obtain ⟨ready, hstart, hmakes₂, hserved₂⟩ := makes_start hmakes₁.serviceable
  obtain ⟨hnever, hmakes₃, hserved₃⟩ := makes_play hmakes₂.serviceable limit
  have hsetUp : b.setUp = (none, ready) := by
    show Progress.andThen ((b.onDevice Device.configure).uploadAll b.host.initialUploads) start = _
    rw [huploads]
    exact hstart
  have hmakes := (hmakes₁.trans hmakes₂).trans hmakes₃
  rw [List.append_nil] at hmakes
  rw [run, runCalls, hsetUp]
  refine ⟨hnever, hmakes, (ready.playCalls limit).map (·.2), ?_, ?_⟩
  · rw [List.map_append, hcalls]
  · have hsame : b₁.host.served = b.host.served := by rw [hhost]; rfl
    rw [List.length_map]
    dsimp only
    omega

variable {file : ByteArray} {p : Prepared}

/-- Every upload of every run completes. The host has a prepared file. Then, whatever the
configurations say and however long the run is, it makes the initial uploads and one more for every
refill that it counts as served, and each of them

* finds the endpoint enabled and drained, and leaves it so;
* takes as many polls as it has packets;
* has every byte stored, and no other byte touched;
* is accepted, and neither overruns nor is reported in any other way.

So no run ends with an error of the host, the device counts no overrun and reports nothing, and what
it has received is what the uploads have together. -/
theorem uploads_complete (h : prepare file = .ok p) (deviceConfig : DeviceConfig)
    (config : BenchConfig) (limit : Nat) :
    let b := Bench.new deviceConfig config (.ofPrepared p)
    let calls := b.runCalls limit
    let after := (b.run limit).2
    (∀ c ∈ calls, c.1.Completes c.2) ∧
    (∃ refills, calls.map (·.2) = b.host.initialUploads ++ refills ∧
      refills.length = after.report.refillsServed) ∧
    (∀ e, (b.run limit).1 ≠ .failed e) ∧
    after.report.stats.overruns = 0 ∧ after.device.lastUploadError = none ∧
    after.report.stats.bytesReceived = (calls.map (·.2.data.size)).sum := by
  intro b calls after
  obtain ⟨start, loop, commands, banks, hmade⟩ := Preparation.made_of_prepare h
  obtain ⟨hnever, hmakes, refills, hcalls, hserved⟩ :=
    makes_run (b := b) (.configured deviceConfig _ _) hmade.fits_initialUploads limit
  have hzero : b.host.served = 0 := rfl
  have hreceived : after.device.stats.bytesReceived = 0 + (calls.map (·.2.data.size)).sum :=
    hmakes.received
  rw [Nat.zero_add] at hreceived
  rw [hzero, Nat.zero_add] at hserved
  exact ⟨hmakes.completes, ⟨refills, hcalls, hserved.symm⟩, hnever, hmakes.serviceable.overruns,
    hmakes.serviceable.report, hreceived⟩

open Preparation in
/-- A file with six bytes of samples and a stream of 65 bytes: both are uploaded in every run. -/
theorem uploads_complete_wholeWords : ∃ p, prepare (continued #[1, 2, 3, 4] #[5, 6]) = .ok p ∧
    ∀ limit, let run := (Bench.new {} {} (.ofPrepared p)).run limit
      (∀ e, run.1 ≠ .failed e) ∧ run.2.report.stats.overruns = 0 ∧
        6 + 65 ≤ run.2.report.stats.bytesReceived := by
  obtain ⟨p, hprepare, hblocks, hmade⟩ := prepare_wholeWords
  have hsize : p.data.size = 65 := by
    rw [hmade.data_eq]
    decide +kernel
  refine ⟨p, hprepare, fun limit => ?_⟩
  obtain ⟨-, ⟨refills, hcalls, -⟩, hnever, hoverruns, -, hreceived⟩ :=
    uploads_complete hprepare {} {} limit
  have hinitial : ((Host.ofPrepared p).initialUploads.map (·.data.size)).sum = 6 + 65 := by
    rw [initialUploads_eq, linearUploads, if_neg (by omega), hblocks]
    simp only [List.map_cons, List.map_nil, List.cons_append, List.nil_append, List.sum_cons,
      List.sum_nil, ByteArray.size_extract, hsize]
    rfl
  have hsum : (((Bench.new {} {} (.ofPrepared p)).runCalls limit).map (·.2.data.size)).sum =
      6 + 65 + (refills.map (·.data.size)).sum := by
    have hsizes := congrArg (List.map (·.data.size)) hcalls
    rw [List.map_map, List.map_append] at hsizes
    rw [← hinitial, ← List.sum_append]
    exact congrArg List.sum hsizes
  exact ⟨hnever, hoverruns, by omega⟩

end Bench
end ChipReplay
