import ChipReplay.Proofs.Bench.Staying
/-!
# The bench plays what was prepared

A bench that is on course comes to its end: every round gets on, and fewer than so many passes have
few commands. If no poll reads what is still to come, the passes that the run is to make are then
played, without an error and without a message that the host ignores
(`Bench.plays_faithfully`).
-/

namespace ChipReplay

open Bytes

namespace Device.OnCourse

variable {s : Score} {w : Window} {waiting : List Refill} {k : Nat} {part : List Located}
  {d : Device}

/-- Before `n` passes are over, some of their commands are still to be played. -/
theorem exists_rest (h : d.OnCourse s w waiting k part) {n : Nat} (hk : k < n) :
    ∃ rest, rest ≠ [] ∧ passes s.first s.later n = s.played k part ++ rest := by
  obtain ⟨f, -, hmid⟩ := h.midway
  obtain ⟨rest, hrest, hsplit⟩ := hmid.ahead
  obtain ⟨more, hmore⟩ := passes_mono s.first s.later hk
  refine ⟨rest ++ more, fun hnil => hrest.ne_nil (List.append_eq_nil_iff.mp hnil).1, ?_⟩
  rw [← hmore, passes, hsplit, Score.played]
  rw [List.append_assoc, List.append_assoc, List.append_assoc]

end Device.OnCourse

namespace Bench

open Device

variable {s : Score} {k : Nat} {part : List Located} {b : Bench}

/-- As long as a bench on course is not over, it has passes to play. -/
theorem OnCourse.lt_of_not_over (h : b.OnCourse s k part) (hk : k < 2 ^ 32)
    (hover : ¬ b.isOver = true) : k < b.config.loops.toNat := by
  obtain ⟨waiting, hcourse, -⟩ := h.device
  have hloops : ¬ b.config.loops ≤ b.device.player.loopCount := by
    intro hle
    refine hover ?_
    simp [isOver, hle]
  rw [hcourse.loopCount_eq, UInt32.le_iff_toNat_le, UInt32.toNat_ofNat_of_lt' hk] at hloops
  omega

/-- A bench on course comes to its end, after at most two rounds for every command. -/
theorem OnCourse.play (h : b.OnCourse s k part) (hplayable : s.Playable)
    (hloops : b.config.loops.toNat + 1 + answerPackets ≤ 2 ^ 32)
    (hk : k ≤ b.config.loops.toNat + answerPackets)
    (hontime : ∀ limit, ∀ d ∈ b.playPolls limit, d.OnTime) {n : Nat}
    (hn : 2 * (passes s.first s.later b.config.loops.toNat).length ≤
      headway b.device.chip (s.played k part) + n) :
    ∃ b' k' part', b'.OnCourse s k' part' ∧ b'.config = b.config ∧ b'.isOver = true ∧
      k' < 2 ^ 32 ∧ ∀ limit, n ≤ limit → b.play limit = (.ended, b') := by
  induction n generalizing b k part with
  | zero =>
    have hover : b.isOver = true := by
      by_contra hover
      have hlt := h.lt_of_not_over (by omega) hover
      obtain ⟨waiting, hcourse, -⟩ := h.device
      obtain ⟨rest, hrest, hwhole⟩ := hcourse.exists_rest hlt
      have hpos := List.length_pos_iff.mpr hrest
      have hbit := Bool.toNat_le (!b.device.chip.accepts b.device.chip.checks)
      rw [hwhole, List.length_append, headway] at hn
      omega
    exact ⟨b, k, part, h, rfl, hover, by omega, fun limit _ => play_of_isOver hover limit⟩
  | succ n ih =>
    by_cases hover : b.isOver = true
    · exact ⟨b, k, part, h, rfl, hover, by omega, fun limit _ => play_of_isOver hover limit⟩
    · have hlt := h.lt_of_not_over (by omega) hover
      have hpolls (limit : Nat) :
          b.playPolls (limit + 1) = b.roundPolls ++ b.round.2.playPolls limit := by
        rw [playPolls, if_neg hover]
      have hfirst : ∀ d ∈ b.roundPolls, d.OnTime := fun d hd =>
        hontime 1 d (by rw [hpolls]; exact List.mem_append_left _ hd)
      obtain ⟨b₁, k₁, part₁, hround, hcourse₁, hconfig, hnext, hheadway, -⟩ :=
        h.round hplayable hfirst
      have hlater : ∀ limit, ∀ d ∈ b₁.playPolls limit, d.OnTime := fun limit d hd =>
        hontime (limit + 1) d (by rw [hpolls, hround]; exact List.mem_append_right _ hd)
      rw [← hconfig] at hn hloops hlt
      obtain ⟨b', k', part', hcourse', hconfig', hover', hk', hplay⟩ :=
        ih hcourse₁ hloops (by omega) hlater (by omega)
      refine ⟨b', k', part', hcourse', hconfig'.trans hconfig, hover', hk', fun limit hlimit => ?_⟩
      obtain ⟨limit, rfl⟩ : ∃ m, limit = m + 1 := ⟨limit - 1, by omega⟩
      rw [Bench.play, if_neg hover, hround]
      exact hplay limit (by omega)

/-- A run that is over has made its passes if the number of samples has not ended it, as it cannot
if the passes wait for fewer. -/
theorem OnCourse.writes_of_isOver (h : b.OnCourse s k part) (hk : k < 2 ^ 32)
    (hover : b.isOver = true)
    (hticks : b.device.timer.total < b.config.maxTicks ∨
      samplesIn (passes s.first s.later b.config.loops.toNat) < b.config.maxTicks) :
    b.config.loops ≤ b.device.player.loopCount ∧
      s.writes (passes s.first s.later b.config.loops.toNat) <+: b.device.chip.writes := by
  obtain ⟨waiting, hcourse, -⟩ := h.device
  have hcounted : b.config.loops ≤ b.device.player.loopCount ↔ b.config.loops.toNat ≤ k := by
    rw [hcourse.loopCount_eq, UInt32.le_iff_toNat_le, UInt32.toNat_ofNat_of_lt' hk]
  have hloops : b.config.loops.toNat ≤ k := by
    by_contra hless
    obtain ⟨rest, -, hwhole⟩ := hcourse.exists_rest (Nat.lt_of_not_le hless)
    have hended : b.config.maxTicks ≤ b.device.timer.total := by
      unfold isOver at hover
      simpa [hcourse.active, hcounted, hless] using hover
    rw [hwhole, samplesIn_append] at hticks
    rw [hcourse.total] at hended hticks
    omega
  refine ⟨hcounted.mpr hloops, ?_⟩
  obtain ⟨more, hmore⟩ := passes_mono s.first s.later hloops
  rw [hcourse.writes, Score.played, ← hmore, List.append_assoc, s.writes_append]
  exact List.prefix_append _ _

variable {file : ByteArray} {p : Prepared}

/-- The bench plays every file faithfully that is prepared, ends its stream and begins in the linear
region, as long as no poll reads a byte of the window that is still to come. The first pass of a run
begins at the first command, and every other one at the loop point, or at the first command if there
is none. With as many passes as the configuration says, the run ends after at most two rounds for
each of their commands, without an error and without a refill request that the host ignores. Unless
the number of samples has ended it, which it cannot if the passes wait for fewer, all passes are
counted, and the writes that the chip has kept begin with those of the passes that the filter lets
through, in order. -/
theorem plays_faithfully (h : prepare file = .ok p) (hend : p.stats.endOfStream = true)
    (hsize : file.size + 0x8000 < 2 ^ 32) (hstart : Stream.start file < linearEnd)
    (deviceConfig : DeviceConfig) (config : BenchConfig) (hrecord : config.recordWrites = true)
    (hloops : config.loops.toNat + 1 + answerPackets ≤ 2 ^ 32)
    (hontime : ∀ ready, (Bench.new deviceConfig config (.ofPrepared p)).setUp = (none, ready) →
      ∀ limit, ∀ d ∈ ready.playPolls limit, d.OnTime) :
    ∃ loop first later, HeaderField.loopOffset.resolve p.data = .ok loop ∧
      commandsFrom p.data (Stream.start file) = .ok first ∧
      commandsFrom p.data (if loop = 0 then Stream.start file else loop.toNat) = .ok later ∧
      later <:+ first ∧ later.getLast?.map (·.command) = some .endOfStream ∧
      let whole := passes first later config.loops.toNat
      ∃ b, (∀ limit, 2 * whole.length ≤ limit →
          (Bench.new deviceConfig config (.ofPrepared p)).run limit = (.ended, b)) ∧
        b.report.error = none ∧ b.report.refillsIgnored = 0 ∧
        (b.report.ticks < config.maxTicks ∨ samplesIn whole < config.maxTicks →
          config.loops ≤ b.report.loops ∧
          (registerWrites whole).filter deviceConfig.allows <+: b.device.chip.writes) := by
  obtain ⟨s, ready, hsetUp, hplayable, hbegun, rfl, hstream, hbegin, hplace, hresolve, hallowed⟩ :=
    setUp_of_prepare h hend hsize hstart deviceConfig config hrecord
  obtain ⟨place, hlast, -⟩ := hplayable.later_pass.exists_last
  obtain ⟨b, k, part, hcourse, hconfig, hover, hk, hplay⟩ :=
    hbegun.course.play (n := 2 * (passes s.first s.later ready.config.loops.toNat).length) hplayable
      hloops (Nat.zero_le _) (hontime ready hsetUp) (Nat.le_add_left _ _)
  obtain ⟨waiting, hdevice, -⟩ := hcourse.device
  refine ⟨s.loop, s.first, s.later, hresolve, ?_, ?_, hplayable.suffix, by rw [hlast]; rfl, b,
    fun limit hlimit => ?_, hdevice.lastError, hcourse.ignored, fun hticks => ?_⟩
  · rw [← hstream, ← hplace]
    exact hplayable.first_pass.commandsFrom_eq
  · have hlater := hplayable.later_pass.commandsFrom_eq
    rw [← hstream, ← hplace]
    split at hlater
    · next hzero => rwa [if_pos hzero]
    · next hzero => rwa [if_neg hzero]
  · rw [run, hsetUp]
    exact hplay limit hlimit
  · rw [← hconfig] at hticks ⊢
    rw [← hallowed]
    exact hcourse.writes_of_isOver hk hover hticks

/-! ## Two files -/

/-- A file that presses a key for a frame. -/
def keyFile : ByteArray :=
  ⟨#[0x56, 0x67, 0x6D, 0x20] ++ Array.replicate 60 0 ++
    #[0x58, 0x28, 0xF0, 0x62, 0x58, 0x28, 0x00, 0x66]⟩

/-- What `keyFile` holds behind its header. -/
def keyCommands : List Located :=
  [⟨0x40, .write .a 0x28 0xF0⟩, ⟨0x43, .pause 0x62 735⟩, ⟨0x44, .write .a 0x28 0x00⟩,
    ⟨0x47, .endOfStream⟩]

/-- Two passes on a chip that refuses every third check. -/
def twice : BenchConfig := { loops := 2, busyEvery := 3, recordWrites := true }

open Preparation

theorem prepare_keyFile : ∃ p, prepare keyFile = .ok p ∧ p.stats.endOfStream = true ∧
    HeaderField.loopOffset.resolve p.data = .ok 0 ∧ p.data.size ≤ linearEnd ∧
    commandsFrom p.data 0x40 = .ok keyCommands := by
  obtain ⟨p, hprepare, -, hmade⟩ := prepare_ok
    (show checkIdent keyFile = .ok () by decide +kernel)
    (show startOf keyFile = .ok 0x40 by decide +kernel)
    (show pointer keyFile .loopOffset = .ok 0 by decide +kernel)
    (show 0x40 ≤ keyFile.size by decide +kernel)
    (show commandsFrom keyFile 0x40 = .ok keyCommands by decide +kernel)
    (show placeBlocks (mergedBlocks (sampleBlocks keyCommands)) = .ok ([], []) by
      rw [mergedBlocks_of_sorted (by decide +kernel)]
      decide +kernel)
  refine ⟨p, hprepare, ?_, ?_, ?_, ?_⟩
  · rw [hmade.stats_eq]
    rfl
  all_goals
    rw [hmade.data_eq]
    decide +kernel

/-- A file that presses a key twice, and loops from its first wait on. -/
def loopedKeyFile : ByteArray :=
  ⟨#[0x56, 0x67, 0x6D, 0x20] ++ Array.replicate 24 0 ++ #[0x27, 0x00, 0x00, 0x00] ++
    Array.replicate 32 0 ++
    #[0x58, 0x28, 0xF0, 0x62, 0x58, 0x28, 0x00, 0x62, 0x58, 0x28, 0xF1, 0x62, 0x58, 0x28, 0x01,
      0x62, 0x66]⟩

/-- What `loopedKeyFile` holds from its loop point on. -/
def loopedKeyCommands : List Located :=
  [⟨0x43, .pause 0x62 735⟩, ⟨0x44, .write .a 0x28 0x00⟩, ⟨0x47, .pause 0x62 735⟩,
    ⟨0x48, .write .a 0x28 0xF1⟩, ⟨0x4B, .pause 0x62 735⟩, ⟨0x4C, .write .a 0x28 0x01⟩,
    ⟨0x4F, .pause 0x62 735⟩, ⟨0x50, .endOfStream⟩]

theorem prepare_loopedKeyFile : ∃ p, prepare loopedKeyFile = .ok p ∧ p.stats.endOfStream = true ∧
    HeaderField.loopOffset.resolve p.data = .ok 0x43 ∧ p.data.size = 0x51 ∧
    commandsFrom p.data 0x40 = .ok (⟨0x40, .write .a 0x28 0xF0⟩ :: loopedKeyCommands) ∧
    commandsFrom p.data 0x43 = .ok loopedKeyCommands := by
  obtain ⟨p, hprepare, -, hmade⟩ := prepare_ok
    (show checkIdent loopedKeyFile = .ok () by decide +kernel)
    (show startOf loopedKeyFile = .ok 0x40 by decide +kernel)
    (show pointer loopedKeyFile .loopOffset = .ok 0x43 by decide +kernel)
    (show 0x40 ≤ loopedKeyFile.size by decide +kernel)
    (show commandsFrom loopedKeyFile 0x40 =
      .ok (⟨0x40, .write .a 0x28 0xF0⟩ :: loopedKeyCommands) by decide +kernel)
    (show placeBlocks (mergedBlocks (sampleBlocks
        (⟨0x40, .write .a 0x28 0xF0⟩ :: loopedKeyCommands))) = .ok ([], []) by
      rw [mergedBlocks_of_sorted (by decide +kernel)]
      decide +kernel)
  refine ⟨p, hprepare, ?_, ?_, ?_, ?_, ?_⟩
  · rw [hmade.stats_eq]
    rfl
  all_goals
    rw [hmade.data_eq]
    decide +kernel

/-- Both are played twice. The refill of the loop region brings the data of the looped one. -/
theorem plays_faithfully_keyFiles :
    (∃ p b, prepare keyFile = .ok p ∧
      (Bench.new {} twice (.ofPrepared p)).run 16 = (.ended, b) ∧
      b.report.error = none ∧ b.report.refillsIgnored = 0 ∧ 2 ≤ b.report.loops ∧
      [⟨0x28, 0xF0⟩, ⟨0x28, 0x00⟩, ⟨0x28, 0xF0⟩, ⟨0x28, 0x00⟩] <+: b.device.chip.writes) ∧
    ∃ p b, prepare loopedKeyFile = .ok p ∧
      (Bench.new {} twice (.ofPrepared p)).run 34 = (.ended, b) ∧
      b.report.error = none ∧ b.report.refillsIgnored = 0 ∧ 0 < b.report.refillsServed ∧
      2 ≤ b.report.loops ∧
      [⟨0x28, 0xF0⟩, ⟨0x28, 0x00⟩, ⟨0x28, 0xF1⟩, ⟨0x28, 0x01⟩, ⟨0x28, 0x00⟩, ⟨0x28, 0xF1⟩,
        ⟨0x28, 0x01⟩] <+: b.device.chip.writes := by
  constructor
  · obtain ⟨p, hprepare, hend, hresolve, hlinear, hpass⟩ := prepare_keyFile
    have hstart : Stream.start keyFile = 0x40 := by decide +kernel
    have hsize : keyFile.size + 0x8000 < 2 ^ 32 := by decide +kernel
    have hlow : Stream.start keyFile < linearEnd := by rw [hstart]; decide
    obtain ⟨loop, first, later, hloop, hfirst, hlater, -, -, b, hrun, herror, hignored, hplayed⟩ :=
      plays_faithfully hprepare hend hsize hlow {} twice rfl (by decide)
        (onTime_of_short hprepare hend hsize hlow hlinear hresolve (fun hne => absurd rfl hne) {}
          twice rfl)
    obtain rfl : (0 : UInt32) = loop := Except.ok.inj (hresolve.symm.trans hloop)
    rw [hstart, hpass] at hfirst
    rw [if_pos rfl, hstart, hpass] at hlater
    obtain rfl := Except.ok.inj hfirst
    obtain rfl := Except.ok.inj hlater
    obtain ⟨hloops, hwrites⟩ := hplayed (.inr (by decide))
    exact ⟨p, b, hprepare, hrun 16 (by decide), herror, hignored, hloops, hwrites⟩
  · obtain ⟨p, hprepare, hend, hresolve, hlength, hpass, hlooped⟩ := prepare_loopedKeyFile
    have hstart : Stream.start loopedKeyFile = 0x40 := by decide +kernel
    have hsize : loopedKeyFile.size + 0x8000 < 2 ^ 32 := by decide +kernel
    have hlow : Stream.start loopedKeyFile < linearEnd := by rw [hstart]; decide
    have hlinear : p.data.size ≤ linearEnd := by rw [hlength]; decide
    have hshort : LoopsShort p.data 0x43 := fun _ =>
      ⟨by rw [hlength]; decide, loopedKeyCommands, hlooped, by decide⟩
    obtain ⟨loop, first, later, hloop, hfirst, hlater, -, -, b, hrun, herror, hignored, hplayed⟩ :=
      plays_faithfully hprepare hend hsize hlow {} twice rfl (by decide)
        (onTime_of_short hprepare hend hsize hlow hlinear hresolve hshort {} twice rfl)
    obtain rfl : (0x43 : UInt32) = loop := Except.ok.inj (hresolve.symm.trans hloop)
    rw [hstart, hpass] at hfirst
    rw [if_neg (by decide)] at hlater
    obtain rfl := Except.ok.inj hfirst
    obtain rfl := Except.ok.inj (hlooped.symm.trans hlater)
    obtain ⟨hloops, hwrites⟩ := hplayed (.inr (by decide))
    have hrun := hrun 34 (by decide)
    have hserved := refillsServed_of_short hprepare hend hsize hlow hlinear hresolve hshort
      (by decide) {} twice rfl 34
    rw [hrun] at hserved
    refine ⟨p, b, hprepare, hrun, herror, hignored, hserved ?_, hloops, hwrites⟩
    exact UInt32.lt_of_lt_of_le (by decide) hloops

end Bench
end ChipReplay
