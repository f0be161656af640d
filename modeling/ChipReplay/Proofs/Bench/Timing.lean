import ChipReplay.Proofs.Bench.Faithful
import ChipReplay.Proofs.Bench.Recording
import ChipReplay.Proofs.Preparation.Unended
/-!
# The time of a run

The bench counts samples when the player starts to wait for them, so on course its time is that of
the commands played so far. A run is over once the stream has ended as often as it is to end, but
the bench looks only after a round: the polls of an upload that come after the last end may play on.
If there are none, the run takes exactly the time of its passes (`Bench.time_exact`).
-/

namespace ChipReplay

open Bytes Preparation

namespace Bench

open Device

variable {s : Score} {k : Nat} {part : List Located} {polls : List Device} {b : Bench}

/-- The device in each poll of the rounds of a run. -/
def runPolls (b : Bench) (limit : Nat) : List Device :=
  match b.setUp with
  | (none, ready) => ready.playPolls limit
  | (some _, _) => []

/-! ## On course -/

/-- What the bench reports, after the rounds with `polls`, when `k` passes and the commands `part`
of the next one have been played. -/
structure Timed (s : Score) (k : Nat) (part : List Located) (polls : List Device) (b : Bench) :
    Prop where
  loops : b.report.loops = UInt32.ofNat k
  ticks : b.report.ticks = samplesIn (s.played k part)
  error : b.report.error = none
  begun : part <+: passAt s.first s.later k
  within : StaysWithin polls 0 [] k part

theorem OnCourse.timed (h : b.OnCourse s k part) (hwithin : StaysWithin polls 0 [] k part) :
    b.Timed s k part polls := by
  obtain ⟨waiting, hdevice, -⟩ := h.device
  obtain ⟨f, -, hmid⟩ := hdevice.midway
  obtain ⟨rest, -, hsplit⟩ := hmid.ahead
  exact ⟨hdevice.loopCount_eq, hdevice.total, hdevice.lastError, ⟨rest, hsplit.symm⟩, hwithin⟩

/-- Whether the chip keeps its writes makes no difference to the time. -/
theorem Timed.unrecorded (h : b.Timed s k part polls) :
    b.unrecorded.Timed s k part (polls.map Device.unrecorded) :=
  ⟨h.loops, h.ticks, h.error, h.begun, fun n hbefore hin =>
    h.within n (fun d hd => hbefore d.unrecorded (List.mem_map_of_mem hd)) hin⟩

/-- Where none of the polls comes after the last end of the stream, the run stands there when it
sees it. -/
theorem Timed.exact {n : UInt32} (h : b.Timed s k part polls) (hreached : n ≤ b.report.loops)
    (hbefore : ∀ d ∈ polls, d.player.loopCount < n) :
    b.report.loops = n ∧ b.report.ticks = samplesIn (passes s.first s.later n.toNat) := by
  have hstart : Score.Within n.toNat 0 [] := by
    rcases Nat.eq_zero_or_pos n.toNat with hzero | hpos
    · exact .inr ⟨hzero.symm, rfl⟩
    · exact .inl hpos
  -- fewer passes cannot be counted as `n`, as their number fits a word
  obtain ⟨rfl, rfl⟩ : k = n.toNat ∧ part = [] := by
    rcases h.within n hbefore hstart with hlt | hend
    · have hk : k < 2 ^ 32 := Nat.lt_trans hlt n.toNat_lt
      rw [h.loops, UInt32.le_iff_toNat_le, UInt32.toNat_ofNat_of_lt' hk] at hreached
      omega
    · exact hend
  have hticks := h.ticks
  rw [Score.played, List.append_nil] at hticks
  exact ⟨h.loops.trans n.ofNat_toNat, hticks⟩

/-- Rounds whose polls are on time keep the bench on course. -/
theorem OnCourse.play_within (h : b.OnCourse s k part) (hplayable : s.Playable) {limit : Nat}
    (hontime : ∀ d ∈ b.playPolls limit, d.OnTime) :
    ∃ k' part', (b.play limit).2.OnCourse s k' part' ∧
      StaysWithin (b.playPolls limit) k part k' part' := by
  induction limit generalizing b k part with
  | zero => exact ⟨k, part, h, .refl⟩
  | succ limit ih =>
    rw [Bench.play, playPolls]
    rw [playPolls] at hontime
    by_cases hover : b.isOver = true
    · rw [if_pos hover, if_pos hover]
      exact ⟨k, part, h, .refl⟩
    · rw [if_neg hover] at hontime
      obtain ⟨hfirst, hlater⟩ := List.forall_mem_append.mp hontime
      obtain ⟨b₁, k₁, part₁, hround, hcourse₁, -, -, -, hwithin₁⟩ := h.round hplayable hfirst
      rw [hround] at hlater
      obtain ⟨k', part', hcourse', hwithin⟩ := ih hcourse₁ hlater
      rw [if_neg hover, if_neg hover, hround]
      refine ⟨k', part', hcourse', fun n hbefore hin => ?_⟩
      obtain ⟨hnow, hthen⟩ := List.forall_mem_append.mp hbefore
      exact hwithin n hthen (hwithin₁ n hnow hin)

/-- A run that is on time comes to its last end of the stream, if its passes wait for fewer samples
than it may take. -/
theorem OnCourse.reaches (h : b.OnCourse s 0 []) (hplayable : s.Playable)
    (hloops : b.config.loops.toNat + 1 + answerPackets ≤ 2 ^ 32)
    (hontime : ∀ limit, ∀ d ∈ b.playPolls limit, d.OnTime)
    (hticks : samplesIn (passes s.first s.later b.config.loops.toNat) < b.config.maxTicks)
    {limit : Nat} (hlimit : 2 * (passes s.first s.later b.config.loops.toNat).length ≤ limit) :
    b.config.loops ≤ (b.play limit).2.report.loops := by
  obtain ⟨b', k, part, hcourse, hconfig, hover, hk, hplay⟩ :=
    h.play hplayable hloops (Nat.zero_le _) hontime (Nat.le_add_left _ _)
  rw [hplay limit hlimit, ← hconfig]
  exact (hcourse.writes_of_isOver hk hover (.inr (by rwa [hconfig]))).1

/-! ## Runs -/

variable {file : ByteArray} {p : Prepared}

/-- A chip that keeps no writes is one that keeps them, less the record. -/
theorem new_of_not_recording (deviceConfig : DeviceConfig) {config : BenchConfig} (host : Host)
    (h : config.recordWrites = false) : Bench.new deviceConfig config host =
      (Bench.new deviceConfig { config with recordWrites := true } host).unrecorded := by
  cases config
  cases h
  rfl

theorem runPolls_unrecorded (b : Bench) (limit : Nat) :
    b.unrecorded.runPolls limit = (b.runPolls limit).map Device.unrecorded := by
  unfold runPolls
  rw [setUp_unrecorded]
  rcases b.setUp with ⟨_ | _, ready⟩
  · exact ready.playPolls_unrecorded limit
  · rfl

/-- A run whose polls are on time plays the passes of the stream. -/
theorem run_timed_of_recording (h : prepare file = .ok p) (hend : p.stats.endOfStream = true)
    (hsize : file.size + 0x8000 < 2 ^ 32) (hstart : Stream.start file < linearEnd)
    (deviceConfig : DeviceConfig) (config : BenchConfig) (hrecord : config.recordWrites = true)
    {limit : Nat}
    (hontime : ∀ d ∈ (Bench.new deviceConfig config (.ofPrepared p)).runPolls limit, d.OnTime) :
    ∃ s k part, s.Playable ∧ s.stream = p.data ∧ s.start.toNat = Stream.start file ∧
      HeaderField.loopOffset.resolve p.data = .ok s.loop ∧
      ((Bench.new deviceConfig config (.ofPrepared p)).run limit).2.Timed s k part
        ((Bench.new deviceConfig config (.ofPrepared p)).runPolls limit) := by
  obtain ⟨s, ready, hsetUp, hplayable, hbegun, -, hstream, -, hplace, hresolve, -⟩ :=
    setUp_of_prepare h hend hsize hstart deviceConfig config hrecord
  rw [runPolls, hsetUp] at hontime ⊢
  rw [run, hsetUp]
  obtain ⟨k, part, hcourse, hwithin⟩ := hbegun.course.play_within hplayable hontime
  exact ⟨s, k, part, hplayable, hstream, hplace, hresolve, hcourse.timed hwithin⟩

theorem run_timed (h : prepare file = .ok p) (hend : p.stats.endOfStream = true)
    (hsize : file.size + 0x8000 < 2 ^ 32) (hstart : Stream.start file < linearEnd)
    (deviceConfig : DeviceConfig) (config : BenchConfig) {limit : Nat}
    (hontime : ∀ d ∈ (Bench.new deviceConfig config (.ofPrepared p)).runPolls limit, d.OnTime) :
    ∃ s k part, s.Playable ∧ s.stream = p.data ∧ s.start.toNat = Stream.start file ∧
      HeaderField.loopOffset.resolve p.data = .ok s.loop ∧
      ((Bench.new deviceConfig config (.ofPrepared p)).run limit).2.Timed s k part
        ((Bench.new deviceConfig config (.ofPrepared p)).runPolls limit) := by
  cases hrecord : config.recordWrites with
  | true => exact run_timed_of_recording h hend hsize hstart deviceConfig config hrecord hontime
  | false =>
    rw [new_of_not_recording deviceConfig _ hrecord, runPolls_unrecorded] at hontime
    rw [new_of_not_recording deviceConfig _ hrecord, runPolls_unrecorded, run_unrecorded]
    obtain ⟨s, k, part, hplayable, hstream, hplace, hresolve, htimed⟩ :=
      run_timed_of_recording h hend hsize hstart deviceConfig { config with recordWrites := true }
        rfl fun d hd => (onTime_unrecorded d).mp (hontime _ (List.mem_map_of_mem hd))
    exact ⟨s, k, part, hplayable, hstream, hplace, hresolve, htimed.unrecorded⟩

/-- A run plays nothing if its first command lies behind the linear region. -/
theorem loops_of_late (h : prepare file = .ok p) (hsize : file.size < 2 ^ 32)
    (hlate : linearEnd ≤ Stream.start file) (deviceConfig : DeviceConfig) (config : BenchConfig)
    (limit : Nat) :
    ((Bench.new deviceConfig config (.ofPrepared p)).run limit).2.report.loops = 0 := by
  have hident := ident_of_prepare h
  obtain ⟨start, loop, commands, banks, hmade⟩ := made_of_prepare h
  have hlow := le_start_of_made hmade
  obtain ⟨hshort, -⟩ := size_of_made hmade
  obtain ⟨-, -, -, hkept, -⟩ := data_of_made hmade hlow
  obtain rfl := Stream.start_eq hmade.startOf_eq
  have hfits := hmade.fits
  obtain ⟨d, huploads, -, hover, hresting, hlinear, -⟩ :=
    uploadAll_of_prepare deviceConfig config h (by omega)
  let old := (Bench.new deviceConfig config (.ofPrepared p)).onDevice Device.configure
  -- the window holds the header, and with it where the first command lies
  have hregion : 0x38 ≤ linearEnd := by decide
  obtain ⟨header, hread, hheader, -⟩ := header_of_kept (w := d.window) hident (by omega) (by omega)
    fun i hi hopen => (hlinear i (by omega)).trans (hkept i (by omega) hopen)
  have hplace : linearEnd ≤ header.start.toNat := by
    rw [hheader, UInt32.toNat_ofNat_of_lt' (show Stream.start file < 2 ^ 32 by omega)]
    exact hlate
  obtain ⟨cause, q, hbegin, hcount⟩ : ∃ cause q,
      old.device.player.begin d.window = (.error cause, q) ∧ q.loopCount = 0 := by
    have hfails : Player.readHeader d.window = .error (.startOutOfRange header.start) := by
      rw [Player.readHeader, hread]
      exact if_pos hplace
    unfold Player.begin
    rw [hfails]
    exact ⟨_, _, rfl, rfl⟩
  obtain ⟨hinactive, hplayer, -⟩ := hresting.start_fails hover hbegin
  let ready : Bench :=
    { old with host := old.host.resetSequence, device := d.asked.poll }
  have hsetUp : (Bench.new deviceConfig config (.ofPrepared p)).setUp = (none, ready) := by
    show Progress.andThen (old.uploadAll (Host.ofPrepared p).initialUploads) Bench.start = _
    rw [huploads]
    rfl
  have hended : ready.isOver = true := by
    have hdevice : ready.device.active = false := hinactive
    rw [isOver, hdevice]
    rfl
  rw [run, hsetUp]
  dsimp only
  rw [play_of_isOver hended]
  exact (congrArg Player.loopCount hplayer).trans hcount

/-- The passes of a score are what its stream holds from its first command and from its loop point.
-/
theorem commandsFrom_of_playable {start : Nat} (h : s.Playable) (hplace : s.start.toNat = start) :
    commandsFrom s.stream start = .ok s.first ∧
      commandsFrom s.stream (if s.loop = 0 then start else s.loop.toNat) = .ok s.later ∧
      s.later.getLast?.map (·.command) = some .endOfStream := by
  subst hplace
  obtain ⟨place, hlast, -⟩ := h.later_pass.exists_last
  refine ⟨h.first_pass.commandsFrom_eq, ?_, by rw [hlast]; rfl⟩
  have hlater := h.later_pass.commandsFrom_eq
  rwa [apply_ite UInt32.toNat] at hlater

/-- The bench keeps the time. Its host has a prepared file that ends its stream, and the stream has
ended as often as the run is to make it. If no poll reads a byte of the window that is still to
come, no error has ended the playback, and the samples of the run are those that the passes it has
counted, and what it has begun of the next one, wait for. If no poll comes after the last end of the
stream either, the run has counted just the passes that it was to make, and has taken exactly their
samples. -/
theorem time_exact (h : prepare file = .ok p) (hend : p.stats.endOfStream = true)
    (hsize : file.size + 0x8000 < 2 ^ 32) (deviceConfig : DeviceConfig) (config : BenchConfig)
    (limit : Nat) (hloops : 0 < config.loops)
    (hreached : config.loops ≤
      ((Bench.new deviceConfig config (.ofPrepared p)).run limit).2.report.loops)
    (hontime : ∀ d ∈ (Bench.new deviceConfig config (.ofPrepared p)).runPolls limit, d.OnTime) :
    ∃ loop first later, HeaderField.loopOffset.resolve p.data = .ok loop ∧
      commandsFrom p.data (Stream.start file) = .ok first ∧
      commandsFrom p.data (if loop = 0 then Stream.start file else loop.toNat) = .ok later ∧
      later <:+ first ∧ later.getLast?.map (·.command) = some .endOfStream ∧
      let report := ((Bench.new deviceConfig config (.ofPrepared p)).run limit).2.report
      report.error = none ∧
      (∃ k part, part <+: passAt first later k ∧ report.loops = UInt32.ofNat k ∧
        report.ticks = samplesIn (passes first later k ++ part)) ∧
      ((∀ d ∈ (Bench.new deviceConfig config (.ofPrepared p)).runPolls limit,
          d.player.loopCount < config.loops) →
        report.loops = config.loops ∧
          report.ticks = samplesIn (passes first later config.loops.toNat)) := by
  have hstart : Stream.start file < linearEnd := by
    by_contra hlate
    rw [loops_of_late h (by omega) (Nat.le_of_not_lt hlate)] at hreached
    exact absurd hloops (UInt32.not_lt.mpr hreached)
  obtain ⟨s, k, part, hplayable, hstream, hplace, hresolve, htimed⟩ :=
    run_timed h hend hsize hstart deviceConfig config hontime
  obtain ⟨hfirst, hlater, hlast⟩ := commandsFrom_of_playable hplayable hplace
  rw [hstream] at hfirst hlater
  exact ⟨s.loop, s.first, s.later, hresolve, hfirst, hlater, hplayable.suffix, hlast, htimed.error,
    ⟨k, part, htimed.begun, htimed.loops, htimed.ticks⟩, htimed.exact hreached⟩

/-- Two passes over `keyFile`, a frame each. -/
theorem time_exact_keyFile : ∃ p, prepare keyFile = .ok p ∧
    let report := ((Bench.new {} twice (.ofPrepared p)).run 16).2.report
    report.error = none ∧ report.loops = 2 ∧ report.ticks = 2 * 735 := by
  obtain ⟨p, hprepare, hend, hresolve, hshort, hpass⟩ := prepare_keyFile
  have hstart : Stream.start keyFile = 0x40 := by decide +kernel
  have hsize : keyFile.size + 0x8000 < 2 ^ 32 := by decide +kernel
  have hlow : Stream.start keyFile < linearEnd := by rw [hstart]; decide
  obtain ⟨s, ready, hsetUp, hplayable, hbegun, hconfig, hstream, -, hplace, hloop, -⟩ :=
    setUp_of_prepare hprepare hend hsize hlow {} twice rfl
  have hpolls := playPolls_of_short hprepare hend hsize hlow hshort hresolve
    (fun hne => absurd rfl hne) {} twice rfl ready hsetUp
  have hpasses : s.first = keyCommands ∧ s.later = keyCommands := by
    obtain ⟨hfirst, hlater, -⟩ := commandsFrom_of_playable hplayable (hplace.trans hstart)
    obtain hzero : s.loop = 0 := Except.ok.inj (hloop.symm.trans hresolve)
    rw [if_pos hzero, hstream, hpass] at hlater
    rw [hstream, hpass] at hfirst
    exact ⟨(Except.ok.inj hfirst).symm, (Except.ok.inj hlater).symm⟩
  have hwhole : passes s.first s.later ready.config.loops.toNat = keyCommands ++ keyCommands := by
    rw [hpasses.1, hpasses.2, hconfig]
    rfl
  have hreached : twice.loops ≤ ((Bench.new {} twice (.ofPrepared p)).run 16).2.report.loops := by
    rw [run, hsetUp, ← hconfig]
    refine hbegun.course.reaches hplayable ?_ (fun limit d hd => (hpolls limit d hd).1) ?_ ?_
    · rw [hconfig]
      decide
    · rw [hwhole, hconfig]
      decide
    · rw [hwhole]
      decide
  have hmade : (Bench.new {} twice (.ofPrepared p)).runPolls 16 = ready.playPolls 16 := by
    rw [runPolls, hsetUp]
  obtain ⟨loop, first, later, hloop', hfirst, hlater, -, -, herror, -, hexact⟩ :=
    time_exact hprepare hend hsize {} twice 16 (by decide) hreached fun d hd =>
      (hpolls 16 d (hmade ▸ hd)).1
  obtain ⟨hloops, hticks⟩ := hexact fun d hd => (hpolls 16 d (hmade ▸ hd)).2
  obtain rfl : (0 : UInt32) = loop := Except.ok.inj (hresolve.symm.trans hloop')
  rw [hstart, hpass] at hfirst
  rw [if_pos rfl, hstart, hpass] at hlater
  obtain rfl := Except.ok.inj hfirst
  obtain rfl := Except.ok.inj hlater
  exact ⟨p, hprepare, herror, hloops, hticks⟩

end Bench
end ChipReplay
