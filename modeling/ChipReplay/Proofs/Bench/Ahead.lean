import ChipReplay.Proofs.Bench.Staying
/-!
# A playback that runs ahead

A round answers one notification, and the status report comes first. A stream that ends with its
first command, and goes on there, comes to its loop point in the first round. So the player jumps
into the loop region before the refill of it has been sent, and the second round ends the playback
with an error (`Bench.fails_of_looped_end`).
-/

namespace ChipReplay

namespace Device

variable {s : Score} {w : Window} {waiting : List Refill} {k : Nat} {part : List Located}
  {d : Device}

theorem step_of_fatal {e : PlayError}
    (h : (d.player.update d.window d.chip d.timer).outcome.error = some e)
    (hfatal : e.isFatal = true) : d.step.active = false ∧ d.step.lastError = some e := by
  unfold step
  dsimp only
  rw [h]
  dsimp only
  rw [if_pos hfatal]
  exact ⟨rfl, rfl⟩

/-- What the update of a round does to the player, and to the playback if it fails. -/
theorem OnCourse.tick_eq (h : d.OnCourse s w waiting k part) (hover : d.session.active = false) :
    let u := d.player.update d.window d.chip d.timer.expire
    d.tick.window = d.window ∧ d.tick.player = { u.player with requests := .empty } ∧
      d.tick.timer = u.timer ∧ ∀ e, u.outcome.error = some e → e.isFatal = true →
        d.tick.active = false ∧ d.tick.lastError = some e := by
  intro u
  obtain ⟨e, he⟩ : ∃ e, ({ d with timer := d.timer.expire } : Device) = e := ⟨_, rfl⟩
  have hcourse : e.OnCourse s w waiting k part :=
    he ▸ h.congr rfl rfl rfl rfl rfl rfl rfl
  obtain ⟨hplayer, hwindow, -⟩ := ingested_of_inactive (d := e) (he ▸ hover)
  have hkept : e.ingested.active = true := (active_ingested fun c hc => by
    rw [polled, Session.poll_of_inactive (he ▸ hover)] at hc
    exact absurd hc (by simp [Except.toOption])).trans hcourse.active
  obtain ⟨hingested, hchip, htimer⟩ := hcourse.ingested hkept
  have hu : e.ingested.player.update e.ingested.window e.ingested.chip e.ingested.timer = u := by
    rw [hplayer, hwindow, hchip, htimer, ← he]
  have hdue :
      (e.ingested.active && e.ingested.timer.elapsed && e.ingested.direct.isEmpty) = true := by
    rw [hkept, htimer, (Fifo.isEmpty_iff _).mpr hingested.direct, ← he]
    rfl
  obtain ⟨session, endpoint, outbox, stats, hpoll⟩ := poll_of_held hcourse.held
  have htick : d.tick = e.poll := by
    rw [← he]
    rfl
  rw [stepIfDue, if_pos hdue] at hpoll
  rw [htick, hpoll]
  obtain ⟨active, voices, direct, lastError, stats', hstep⟩ := e.ingested.step_eq
  refine ⟨?_, ?_, ?_, fun error herror hfatal => step_of_fatal (hu ▸ herror) hfatal⟩
  · rw [hstep, hwindow, ← he]
  · rw [hstep, hu]
  · rw [hstep, hu]

end Device

namespace Bench

open Device Player

variable {s : Score} {b : Bench} {k : Nat} {part : List Located}

/-- What has been asked for leaves the linear region alone. -/
theorem Begun.not_covers (h : b.Begun s) {r : Refill}
    (hr : r ∈ b.device.upcoming.filterMap Notification.refillIn) {i : Nat}
    (hi : Region.linear.Spans i 1) : ¬ r.Covers i := by
  rw [h.asked] at hr
  exact (Refill.follows_preload (Nat.zero_le _) (by decide) r hr).not_covers rfl hi

/-- At the beginning of a stream that ends with its first command, an update takes one turn, which
reads in the linear region. -/
theorem Begun.update_eq (h : b.Begun s) (hstart : s.start.toNat < linearEnd)
    (hends : Command.endOfStream.At s.stream s.start.toNat) (chip : Recorder) (timer : Timer) :
    let p := b.device.player
    p.update b.device.window chip timer = ⟨{}, p.past.endStream.takeRequest.1,
        p.past.endStream.takeRequest.2, chip, timer⟩ ∧
      ∀ i ∈ p.reads b.device.window chip, Region.linear.Spans i 1 := by
  intro p
  obtain ⟨waiting, hcourse, hexpects⟩ := h.course.device
  obtain ⟨f, hagree, hmid⟩ := hcourse.midway
  have hread : p.position.readOffset = s.start.toNat := by
    rw [h.position, Position.readOffset, if_neg]
    · rfl
    · rw [Position.atEnd_iff]
      exact Nat.not_le.mpr hstart
  have hplace : f.position = s.start.toNat := by
    rw [hagree.position, h.position]
    show s.start.toNat + (s.start.toNat - s.start.toNat) = _
    omega
  have hlow : Region.linear.Spans p.position.readOffset 1 := by
    rw [hread]
    exact ⟨Nat.zero_le _, hstart⟩
  have hclear : Clear waiting p p.position.readOffset := by
    intro r hr
    rw [h.idle, List.append_nil, ← hexpects.refills_eq] at hr
    exact h.not_covers hr hlow
  have hcommand : Command.endOfStream.At s.stream f.position := hplace ▸ hends
  have hop : p.opcode b.device.window = .endOfStream := by
    rw [(hagree.opcode hcourse.ready hclear hcommand.lt_size).2, FlatPlayer.opcode_of_at hcommand]
    rfl
  obtain ⟨hupdate, hreads⟩ := update_of_turn (hagree.playing.mp hmid.playing)
    (turn_of_endOfStream hop chip) (by simp) timer
  refine ⟨hupdate, fun i hi => ?_⟩
  rw [hreads, turnReads, hop] at hi
  have hone : i = p.position.readOffset := by
    rcases List.mem_cons.mp hi with hi | hi
    · exact hi
    · split at hi
      · exact List.mem_singleton.mp hi
      · exact absurd hi List.not_mem_nil
  rw [hone]
  exact hlow

/-- So the first round is on time. -/
theorem Begun.onTime (h : b.Begun s) (hstart : s.start.toNat < linearEnd)
    (hends : Command.endOfStream.At s.stream s.start.toNat) :
    ({ b.device with timer := b.device.timer.expire } : Device).OnTime := by
  let d : Device := { b.device with timer := b.device.timer.expire }
  obtain ⟨hplayer, hwindow, hsession⟩ := ingested_of_inactive (d := d) h.course.inactive
  have hreads : ∀ i ∈ d.polledReads, Region.linear.Spans i 1 := by
    intro i hi
    unfold polledReads at hi
    dsimp only at hi
    split at hi
    · rw [hplayer, hwindow] at hi
      exact (h.update_eq hstart hends _ d.timer).2 i hi
    · exact absurd hi List.not_mem_nil
  refine onTime_of_region hreads (fun r hr i hi => h.not_covers hr hi) fun hactive => ?_
  rw [hsession] at hactive
  exact absurd (h.course.inactive.symm.trans hactive) Bool.false_ne_true

/-- If the stream goes on where it begins, the loop point comes with its first byte, and the end of
the stream is a jump. -/
theorem Begun.jumps (h : b.Begun s) (hloop : s.loop = s.start) (hne : s.loop ≠ 0) :
    let q := b.device.player.past.endStream
    q.position = .enter .loop Region.loop.start s.loop ∧ q.loopCount = 1 := by
  intro q
  obtain ⟨waiting, hcourse, -⟩ := h.course.device
  let p := b.device.player
  have hplace : p.streamOffset = s.start := by
    show p.position.streamOffset = s.start
    rw [h.position, Position.streamOffset_enter]
  have hcached : p.past.loopCached = true := by
    rw [loopCached_past, loopCachedPast, h.loop, hplace, hloop]
    simp [← hloop, hne]
  have hjump : p.past.loop ≠ 0 ∧ p.past.loopCached = true :=
    ⟨by rw [loop_past, h.loop]; exact hne, hcached⟩
  show p.past.endStream.position = _ ∧ p.past.endStream.loopCount = 1
  rw [endStream_eq, if_pos hjump]
  dsimp only
  rw [loop_past, h.loop, loopCount_past, hcourse.loopCount_eq]
  exact ⟨rfl, rfl⟩

/-- If the first refill that waits is behind the end of the stream, the notification that comes
after the update of a round is answered with no upload. At most that notification is taken. -/
theorem OnCourse.serve_tick (h : b.OnCourse s k part) {r : Refill} {rest : List Refill}
    (hr : r.Follows s.stream.size)
    (hfirst : b.device.upcoming.filterMap Notification.refillIn = r :: rest) :
    let ticked := b.onDevice Device.tick
    ticked.servePolls = [] ∧ ∃ host endpoint read more,
      ticked.serve = (none, { ticked with device := { ticked.device with endpoint }, host }) ∧
      read.length ≤ 1 ∧
      read ++ ({ ticked.device with endpoint } : Device).upcoming.filterMap Notification.refillIn =
        r :: (rest ++ more) := by
  intro ticked
  obtain ⟨waiting, hcourse, hexpects⟩ := h.device
  let d : Device := { b.device with timer := b.device.timer.expire }
  have hexpects₁ : b.host.Expects (waiting ++ d.refillsOf .poll) ticked.device :=
    Host.Expects.poll (d := d) hexpects hcourse.held
  rw [hexpects.refills_eq.symm.trans hfirst] at hexpects₁
  have hwhole := hexpects₁.refills_eq
  obtain ⟨hpolls, host, endpoint, hserve, -, hupcoming⟩ := serve_of_follows hexpects₁ h.masked
    fun message r' hslot hr' => by
      -- a refill that is in the slot is the first that waits
      rw [upcoming, hslot, Option.toList_some, List.singleton_append, List.filterMap_cons, hr']
        at hwhole
      exact (List.cons.inj hwhole).1 ▸ h.stream ▸ hr
  refine ⟨hpolls, host, endpoint, ticked.device.endpoint.inSlot.toList.filterMap
    Notification.refillIn, d.refillsOf .poll, hserve,
    Nat.le_trans (List.length_filterMap_le _ _) (Option.length_toList_le), ?_⟩
  rw [← List.filterMap_append, ← hupcoming]
  exact hwhole

/-- The player has jumped into the loop region, and the refill of that region is not the first that
waits. -/
structure Jumped (s : Score) (b : Bench) : Prop where
  course : ∃ k part, b.OnCourse s k part
  position : b.device.player.position = .enter .loop Region.loop.start s.loop
  loopCount : b.device.player.loopCount = 1
  total : b.device.timer.total = 0
  empty : b.device.window.byte Region.loop.start = 0
  first : ∃ r rest, r.Follows s.stream.size ∧
    b.device.upcoming.filterMap Notification.refillIn = r :: rest

/-- Without the first element, if even that is missing, one of the first two comes first. -/
theorem exists_cons_of_append {α : Type} {first rest more : List α} {x y : α}
    (h : first ++ rest = x :: y :: more) (hlength : first.length ≤ 1) :
    ∃ z ∈ [x, y], ∃ more', rest = z :: more' := by
  match first, hlength, h with
  | [], _, h => exact ⟨x, List.mem_cons_self, _, h⟩
  | [_], _, h => exact ⟨y, List.mem_cons_of_mem _ List.mem_cons_self, _, (List.cons.inj h).2⟩

/-- The first round of a stream that ends with its first command, and goes on there. -/
theorem Begun.round (h : b.Begun s) (hplayable : s.Playable) (hshort : s.stream.size ≤ linearEnd)
    (hends : Command.endOfStream.At s.stream s.start.toNat) (hloop : s.loop = s.start)
    (hne : s.loop ≠ 0) : ∃ b', b.round = (none, b') ∧ b'.Jumped s ∧ b'.config = b.config := by
  obtain ⟨waiting, hcourse, -⟩ := h.course.device
  have hstart : s.start.toNat < linearEnd := Nat.lt_of_lt_of_le hends.lt_size hshort
  obtain ⟨k₁, part₁, hticked, -⟩ := h.course.tick hplayable (h.onTime hstart hends)
  obtain ⟨hwindow, hplayer, htimer, -⟩ := hcourse.tick_eq h.course.inactive
  obtain ⟨requests, htaken, -⟩ := b.device.player.past.endStream.takeRequest_eq
  rw [(h.update_eq hstart hends _ _).1] at hplayer htimer
  rw [htaken] at hplayer
  obtain ⟨hposition, hloopCount⟩ := h.jumps hloop hne
  have hfollow : ∀ r ∈ preload (UInt32.ofNat linearEnd), r.Follows s.stream.size :=
    Refill.follows_preload (toNat_linearEnd ▸ hshort) (by decide)
  obtain ⟨hpolls, host, endpoint, read, more, hserve, hlength, hrest⟩ :=
    h.course.serve_tick (hfollow _ List.mem_cons_self) h.asked
  obtain ⟨b', k', part', hserve', hcourse', hconfig, -⟩ :=
    hticked.serve hplayable (by simp [hpolls])
  obtain rfl := (Prod.mk.inj (hserve.symm.trans hserve')).2
  refine ⟨_, hserve', ?_, hconfig⟩
  exact {
    course := ⟨k', part', hcourse'⟩
    position := by
      show b.device.tick.player.position = _
      rw [hplayer]
      exact hposition
    loopCount := by
      show b.device.tick.player.loopCount = 1
      rw [hplayer]
      exact hloopCount
    total := by
      show b.device.tick.timer.total = 0
      rw [htimer]
      exact hcourse.total
    empty := by
      show b.device.tick.window.byte _ = 0
      rw [hwindow]
      exact h.empty _ (Nat.le_refl linearEnd)
    -- at most the refill of A has been taken
    first := by
      obtain ⟨r, hr, rest, hfirst⟩ := exists_cons_of_append hrest hlength
      exact ⟨r, rest, hfollow r hr, hfirst⟩ }

/-- The round after the jump ends the playback, as the loop region holds nothing yet. -/
theorem Jumped.round (h : b.Jumped s) :
    ∃ b', b.round = (none, b') ∧ b'.device.active = false ∧
      b'.device.lastError = some (.unexpectedOpcode 0 s.loop) := by
  obtain ⟨k, part, hcourse⟩ := h.course
  obtain ⟨waiting, hdevice, -⟩ := hcourse.device
  obtain ⟨f, hagree, hmid⟩ := hdevice.midway
  let p := b.device.player
  have hpeek : p.peek b.device.window = 0 := by
    show b.device.window.byte p.position.readOffset = 0
    rw [h.position]
    exact h.empty
  have hop : p.opcode b.device.window = .unknown := by
    rw [Player.opcode, hpeek]
    rfl
  have hplace : p.streamOffset = s.loop := by
    show p.position.streamOffset = s.loop
    rw [h.position, Position.streamOffset_enter]
  obtain ⟨hupdate, -⟩ := update_of_turn (hagree.playing.mp hmid.playing)
    (turn_of_unknown hop b.device.chip) (by simp) b.device.timer.expire
  obtain ⟨-, -, -, hfails⟩ := hdevice.tick_eq hcourse.inactive
  rw [hupdate, hpeek, hplace] at hfails
  obtain ⟨hinactive, herror⟩ := hfails _ rfl rfl
  obtain ⟨r, rest, hr, hfirst⟩ := h.first
  obtain ⟨-, host, endpoint, -, -, hserve, -⟩ := hcourse.serve_tick hr hfirst
  exact ⟨_, hserve, hinactive, herror⟩

/-- A stream that ends with its first command, and goes on there, is not played twice: the second
round ends its playback with an error. -/
theorem Begun.fails (h : b.Begun s) (hplayable : s.Playable) (hshort : s.stream.size ≤ linearEnd)
    (hends : Command.endOfStream.At s.stream s.start.toNat) (hloop : s.loop = s.start)
    (hne : s.loop ≠ 0) (hloops : 1 < b.config.loops) (hticks : 0 < b.config.maxTicks) :
    ∃ b', (∀ limit, 2 ≤ limit → b.play limit = (.ended, b')) ∧
      b'.report.error = some (.unexpectedOpcode 0 s.loop) := by
  obtain ⟨waiting, hcourse, -⟩ := h.course.device
  obtain ⟨b₁, hround₁, hjumped, hconfig⟩ := h.round hplayable hshort hends hloop hne
  obtain ⟨b₂, hround₂, hinactive, herror⟩ := hjumped.round
  obtain ⟨k₁, part₁, hcourse₁⟩ := hjumped.course
  obtain ⟨waiting₁, hdevice₁, -⟩ := hcourse₁.device
  have hgoes (c : UInt32) (hc : c ≤ 1) : ¬ b.config.loops ≤ c := by
    rw [UInt32.not_le]
    exact UInt32.lt_of_le_of_lt hc hloops
  have hlimit : b.config.maxTicks ≠ 0 := Nat.pos_iff_ne_zero.mp hticks
  have hover : b.isOver = false := by
    rw [isOver, hcourse.active, hcourse.loopCount_eq, hcourse.total]
    simp [hgoes, samplesIn, Score.played, passes, hlimit]
  have hover₁ : b₁.isOver = false := by
    rw [isOver, hdevice₁.active, hjumped.loopCount, hjumped.total, hconfig]
    simp [hgoes, hlimit]
  have hover₂ : b₂.isOver = true := by
    rw [isOver, hinactive]
    rfl
  refine ⟨b₂, fun limit hlimit => ?_, herror⟩
  obtain ⟨limit, rfl⟩ : ∃ n, limit = n + 2 := ⟨limit - 2, by omega⟩
  rw [play, hover, if_neg Bool.false_ne_true, hround₁]
  dsimp only
  rw [play, hover₁, if_neg Bool.false_ne_true, hround₂]
  exact play_of_isOver hover₂ limit

variable {file : ByteArray} {p : Prepared}

/-- If a file holds nothing but the end of its stream, and loops there, then a second pass is asked
for in vain. -/
theorem fails_of_looped_end (h : prepare file = .ok p) (hend : p.stats.endOfStream = true)
    (hsize : file.size + 0x8000 < 2 ^ 32) (hstart : Stream.start file < linearEnd)
    (hshort : p.data.size ≤ linearEnd)
    (hcommands : commandsFrom p.data (Stream.start file) = .ok [⟨Stream.start file, .endOfStream⟩])
    (hloop : HeaderField.loopOffset.resolve p.data = .ok (UInt32.ofNat (Stream.start file)))
    (hne : Stream.start file ≠ 0) (deviceConfig : DeviceConfig) (config : BenchConfig)
    (hrecord : config.recordWrites = true) (hloops : 1 < config.loops)
    (hticks : 0 < config.maxTicks) :
    ∃ b, (∀ limit, 2 ≤ limit →
        (Bench.new deviceConfig config (.ofPrepared p)).run limit = (.ended, b)) ∧
      b.report.error = some (.unexpectedOpcode 0 (UInt32.ofNat (Stream.start file))) := by
  obtain ⟨s, ready, hsetUp, hplayable, hbegun, rfl, hstream, hbegin, hplace, hresolve, -⟩ :=
    setUp_of_prepare h hend hsize hstart deviceConfig config hrecord
  have hsame : s.loop = s.start :=
    (Except.ok.inj (hresolve.symm.trans hloop)).trans hbegin.symm
  have hpass := hplayable.first_pass
  rw [hplace, hstream] at hpass
  have hfirst : s.first = [⟨Stream.start file, .endOfStream⟩] :=
    Except.ok.inj (hpass.commandsFrom_eq.symm.trans hcommands)
  rw [hfirst] at hpass
  have hcommand : Command.endOfStream.At s.stream s.start.toNat := by
    rw [hplace, hstream]
    cases hpass with
    | last hcommand => exact hcommand
    | next hcommand hends => exact absurd hends (by decide)
  have hnonzero : s.loop ≠ 0 := fun hzero =>
    hne (hplace.symm.trans (congrArg UInt32.toNat (hsame.symm.trans hzero)))
  obtain ⟨b, hplay, herror⟩ :=
    hbegun.fails hplayable (hstream ▸ hshort) hcommand hsame hnonzero hloops hticks
  refine ⟨b, fun limit hlimit => ?_, by rw [herror, hsame, hbegin]⟩
  rw [run, hsetUp]
  exact hplay limit hlimit

/-- A file whose only command is the end of the stream, which is its loop point. -/
def loopedEnd : ByteArray :=
  ⟨#[0x56, 0x67, 0x6D, 0x20, 0x3D, 0x00, 0x00, 0x00] ++ Array.replicate 20 0 ++
    #[0x24, 0x00, 0x00, 0x00] ++ Array.replicate 32 0 ++ #[0x66]⟩

open Preparation

/-- So not every file is played faithfully. -/
theorem fails_loopedEnd : ∃ p b, prepare loopedEnd = .ok p ∧ p.stats.endOfStream = true ∧
    Stream.start loopedEnd < linearEnd ∧
    (Bench.new {} { loops := 2, recordWrites := true } (.ofPrepared p)).run 16 = (.ended, b) ∧
    b.report.error = some (.unexpectedOpcode 0 0x40) := by
  have hcommands : commandsFrom loopedEnd 0x40 = .ok [⟨0x40, .endOfStream⟩] := by decide +kernel
  obtain ⟨p, hprepare, -, hmade⟩ := prepare_ok
    (show checkIdent loopedEnd = .ok () by decide +kernel)
    (show startOf loopedEnd = .ok 0x40 by decide +kernel)
    (show pointer loopedEnd .loopOffset = .ok 0x40 by decide +kernel)
    (show 0x40 ≤ loopedEnd.size by decide +kernel) hcommands
    (show placeBlocks (mergedBlocks (sampleBlocks [⟨0x40, .endOfStream⟩])) = .ok ([], []) by
      rw [mergedBlocks_of_sorted (by decide +kernel)]
      decide +kernel)
  have hend : p.stats.endOfStream = true := by
    rw [hmade.stats_eq]
    rfl
  -- the file is already what it is prepared to be
  have hdata : p.data = loopedEnd := hmade.data_eq.trans (by decide +kernel)
  have hstart : Stream.start loopedEnd = 0x40 := by decide +kernel
  have hlow : Stream.start loopedEnd < linearEnd := by rw [hstart]; decide
  obtain ⟨b, hrun, herror⟩ := fails_of_looped_end hprepare hend (by decide +kernel) hlow
    (by rw [hdata]; decide +kernel) (by rw [hdata, hstart]; exact hcommands)
    (by rw [hdata, hstart]; decide +kernel) (by rw [hstart]; decide) {}
    { loops := 2, recordWrites := true } rfl (by decide) (by decide)
  rw [hstart] at herror
  exact ⟨p, b, hprepare, hend, hlow, hrun 16 (by decide), herror⟩

end Bench
end ChipReplay
