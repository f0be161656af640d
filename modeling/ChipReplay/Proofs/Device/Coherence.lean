import ChipReplay.Proofs.Player.Phases
import ChipReplay.Proofs.Upload.Starting
/-!
# The parts of the device agree

Whether something is played is known to the device, to its player and to sample memory, and whether
ADPCM is muted to the device and to its filter. Every event changes them together, also one that
fails in the middle (`Device.Coherent`). A packet for sample memory leaves the device `Loading`, and
nothing but a playback that begins leads out of that.
-/

namespace ChipReplay

theorem Player.filter_begin (p : Player) (w : Window) :
    (p.begin w).2.filter = p.filter.resetLevel := by
  unfold begin
  dsimp only
  split <;> rfl

/-- A playback that cannot begin asks for nothing. -/
theorem Player.requests_of_begin_error {p q : Player} {w : Window} {e : PlayError}
    (h : p.begin w = (.error e, q)) : q.requests.toList = [] := by
  unfold begin at h
  dsimp only at h
  split at h
  · obtain ⟨-, rfl⟩ := Prod.mk.inj h
    rfl
  · cases (Prod.mk.inj h).1

namespace Device

variable {d d' : Device}

/-! ## Loading samples -/

/-- Sample memory may be loaded: nothing is played, and the chip fetches nothing. -/
structure Loading (d : Device) : Prop where
  inactive : d.active = false
  gated : d.samples.pcmEnabled = false

theorem loading_storeSamples (d : Device) (offset : Nat) (bytes : ByteArray) :
    (d.storeSamples offset bytes).Loading := by
  unfold storeSamples
  dsimp only
  split
  · exact ⟨rfl, rfl⟩
  · exact ⟨rfl, rfl⟩

/-- A packet for sample memory sees to that, and no other packet touches it. -/
theorem ingest_samples (d : Device) :
    (∃ c, d.polled = some c ∧ c.destination.isSamples = true) ∧ d.ingest.Loading ∨
      (∀ c, d.polled = some c → c.destination.isSamples = false) ∧
        d.ingest.samples = d.samples := by
  unfold ingest polled
  rcases d.session.poll d.endpoint with ⟨_ | _ | c, session, endpoint⟩
  · exact .inr ⟨nofun, rfl⟩
  · exact .inr ⟨nofun, rfl⟩
  · show (∃ c', some c = some c' ∧ c'.destination.isSamples = true) ∧
        (store { d with session, endpoint } c).Loading ∨
      (∀ c', some c = some c' → c'.destination.isSamples = false) ∧
        (store { d with session, endpoint } c).samples = d.samples
    unfold store
    dsimp only
    by_cases hsamples : c.destination.isSamples = true
    · rw [if_pos hsamples]
      exact .inl ⟨⟨c, rfl, hsamples⟩, loading_storeSamples _ _ _⟩
    · rw [if_neg hsamples]
      refine .inr ⟨fun c' hc => ?_, ?_⟩
      · rw [← Option.some.inj hc]
        exact eq_false_of_ne_true hsamples
      · obtain ⟨active, window, lastUploadError, heq, -⟩ :=
          storeWindow_eq { d with session, endpoint, stats := { d.stats with
            packets := d.stats.packets + 1
            bytesReceived := d.stats.bytesReceived + c.bytes.size } } c.offset c.bytes
        rw [heq]

theorem ingested_samples (d : Device) :
    (∃ c, d.polled = some c ∧ c.destination.isSamples = true) ∧ d.ingested.Loading ∨
      (∀ c, d.polled = some c → c.destination.isSamples = false) ∧
        d.ingested.samples = d.samples :=
  ingest_samples
    ({ d with stats := { d.stats with polls := d.stats.polls + 1 } } : Device).flushDirect

/-- While the device is loading, an update does nothing and a start that fails changes nothing. -/
theorem poll_of_loading (h : d.ingested.Loading)
    (hfails : ∀ w, d.startedBy .poll = some w → ∃ e, Player.readHeader w = .error e) :
    d.poll.Loading := by
  obtain ⟨session, endpoint, outbox, stats, hsent⟩ := sendUpTo_eq 2 d.ingested
  have hsends : d.ingested.stepIfDue.sendMessages =
      { d.ingested with session, endpoint, outbox, stats } := by
    rw [stepIfDue_of_inactive h.inactive]
    exact hsent
  unfold startedBy at hfails
  rw [hsends] at hfails
  rw [poll_eq, hsends, startIfAsked]
  dsimp only at hfails ⊢
  split
  · next hasked =>
    obtain ⟨e, herror⟩ := hfails d.ingested.window (by rw [if_pos hasked])
    unfold startPlayback Player.begin
    dsimp only
    rw [herror]
    exact ⟨rfl, h.gated⟩
  · exact ⟨h.inactive, h.gated⟩

theorem Loading.ingested (h : d.Loading) : d.ingested.Loading := by
  rcases d.ingested_samples with ⟨-, hloading⟩ | ⟨-, hsamples⟩
  · exact hloading
  · obtain ⟨active, window, samples, lastUploadError, stats, heq, hactive, -⟩ := d.ingested_eq
    refine ⟨?_, by rw [hsamples, h.gated]⟩
    rw [heq]
    cases active with
    | true => exact absurd (hactive rfl) (by simp [h.inactive])
    | false => rfl

theorem Loading.react (h : d.Loading) {e : Event}
    (hfails : ∀ w, d.startedBy e = some w → ∃ e, Player.readHeader w = .error e) :
    (d.react e).Loading := by
  cases e with
  | poll => exact poll_of_loading h.ingested hfails
  | live event =>
    obtain ⟨filter, direct, voices, midi, pcmMuted, heq⟩ := d.steered_live event
    show (d.live event).Loading
    rw [heq]
    exact ⟨h.inactive, h.gated⟩
  | configure | control | push | read | time | chip => exact ⟨h.inactive, h.gated⟩

/-- As long as no playback begins, the device stays loading. -/
theorem Loading.run (h : d.Loading) {events : List Event}
    (hfails : ∀ w ∈ d.startsIn events, ∃ e, Player.readHeader w = .error e) :
    (d.run events).Loading := by
  induction events generalizing d with
  | nil => exact h
  | cons e events ih =>
    have hnow := h.react (e := e) fun w hw =>
      hfails w (List.mem_append_left _ (Option.mem_toList.mpr hw))
    exact ih hnow fun w hw => hfails w (List.mem_append_right _ hw)

/-- From the packet on, that is. -/
theorem loading_of_polled {c : Chunk} (hpolled : d.polled = some c)
    (hsamples : c.destination.isSamples = true) {later : List Event}
    (hfails : ∀ w ∈ d.startsIn (.poll :: later), ∃ e, Player.readHeader w = .error e) :
    (d.run (.poll :: later)).Loading := by
  have hstored : d.ingested.Loading := by
    rcases d.ingested_samples with ⟨-, hloading⟩ | ⟨hother, -⟩
    · exact hloading
    · exact absurd (hother c hpolled) (by simp [hsamples])
  have hpoll := poll_of_loading hstored fun w hw =>
    hfails w (List.mem_append_left _ (Option.mem_toList.mpr hw))
  exact hpoll.run fun w hw => hfails w (List.mem_append_right _ hw)

/-! ## Coherence -/

/-- What is played is played by a player that has been started, from sample memory that may be
fetched from; the filter blocks what is muted; and no refill stays with the player. -/
structure Coherent (d : Device) : Prop where
  player : d.player.Consistent
  active : d.active = true → d.player.started = true ∧ d.samples.pcmEnabled = true
  muted : d.pcmMuted = d.player.filter.blocksPcmKeys
  quiet : d.player.requests.toList = []

namespace Coherent

/-- The filter may change but for its flag, and a playback may end. -/
theorem congr (h : d.Coherent)
    (hplayer : d'.player = { d.player with filter := d'.player.filter })
    (hmuted : d'.pcmMuted = d'.player.filter.blocksPcmKeys)
    (hactive : d'.active = true → d.active = true ∧ d'.samples = d.samples) : d'.Coherent where
  player := by
    rw [hplayer]
    exact ⟨h.player.playing_iff, h.player.header⟩
  active hd := by
    obtain ⟨hactive, hsamples⟩ := hactive hd
    rw [hplayer, hsamples]
    exact h.active hactive
  muted := hmuted
  quiet := by
    rw [hplayer]
    exact h.quiet

/-! ### The parts of a poll -/

theorem ingested (h : d.Coherent) : d.ingested.Coherent := by
  have hsamples : d.ingested.active = true → d.ingested.samples = d.samples := fun hactive =>
    d.ingested_samples.elim (fun hloading => absurd hactive (by simp [hloading.2.inactive]))
      fun hsame => hsame.2
  obtain ⟨active, window, samples, lastUploadError, stats, heq, hactive, -⟩ := d.ingested_eq
  rw [heq] at hsamples ⊢
  exact h.congr rfl h.muted fun hd => ⟨hactive hd, hsamples hd⟩

/-- The device and its player fail together. -/
theorem step (h : d.Coherent) (hactive : d.active = true) : d.step.Coherent := by
  obtain ⟨hstarted, henabled⟩ := h.active hactive
  obtain ⟨q, hsame, hupdated⟩ := d.player.update_phases d.window d.chip
    ⟨h.player.playing_iff.mpr hstarted, hstarted⟩ d.timer
  have hconsistent := h.player.samePlayback hsame
  have hmuted := h.muted.trans hsame.blocksPcmKeys.symm
  unfold Device.step
  generalize d.player.update d.window d.chip d.timer = u at hupdated ⊢
  obtain ⟨outcome, request, player, chip, timer⟩ := u
  obtain ⟨rfl, hnone⟩ | ⟨e, herror, hfatal, rfl, -⟩ := hupdated
  · dsimp only at hnone ⊢
    rw [hnone]
    exact ⟨⟨hconsistent.playing_iff, hconsistent.header⟩,
      fun _ => ⟨hsame.started.trans hstarted, henabled⟩, hmuted, rfl⟩
  · dsimp only at herror ⊢
    rw [herror]
    dsimp only
    rw [if_pos hfatal]
    have hfailed := Player.Consistent.fail q
    exact ⟨⟨hfailed.playing_iff, hfailed.header⟩, nofun, hmuted, rfl⟩

theorem stepIfDue (h : d.Coherent) : d.stepIfDue.Coherent := by
  unfold Device.stepIfDue
  split
  · next hdue =>
    obtain ⟨hready, -⟩ := Bool.and_eq_true_iff.mp hdue
    exact h.step (Bool.and_eq_true_iff.mp hready).1
  · exact h

theorem sendMessages (h : d.Coherent) : d.sendMessages.Coherent := by
  obtain ⟨session, endpoint, outbox, stats, heq⟩ := sendUpTo_eq 2 d
  rw [Device.sendMessages, heq]
  exact h.congr rfl h.muted fun hactive => ⟨hactive, rfl⟩

/-- A playback that begins turns everything on, and one that cannot turns everything off. -/
theorem startPlayback (h : d.Coherent) : d.startPlayback.Coherent := by
  have hconsistent := Player.Consistent.begin d.player d.window
  have hmuted : d.pcmMuted = (d.player.begin d.window).2.filter.blocksPcmKeys := by
    rw [Player.filter_begin]
    exact h.muted
  rcases hresult : d.player.begin d.window with ⟨e | _, q⟩
  · have hquiet := Player.requests_of_begin_error hresult
    rw [hresult] at hconsistent hmuted
    unfold Device.startPlayback
    rw [hresult]
    exact ⟨hconsistent, nofun, hmuted, hquiet⟩
  · obtain ⟨header, -, -, hbegun⟩ := Player.begin_eq_ok hresult
    rw [hresult] at hconsistent hmuted
    rw [startPlayback_of_ok hresult]
    refine ⟨⟨hconsistent.playing_iff, hconsistent.header⟩, fun _ => ⟨?_, rfl⟩, hmuted, rfl⟩
    show q.started = true
    rw [hbegun]
    rfl

theorem startIfAsked (h : d.Coherent) : d.startIfAsked.Coherent := by
  have hsame (session : Session) : Coherent { d with session } :=
    h.congr rfl h.muted fun hactive => ⟨hactive, rfl⟩
  unfold Device.startIfAsked
  dsimp only
  split
  · exact (hsame _).startPlayback
  · exact hsame _

theorem poll (h : d.Coherent) : d.poll.Coherent :=
  h.ingested.stepIfDue.sendMessages.startIfAsked

/-! ### Live control -/

theorem setMask (h : d.Coherent) (mask : ChannelSet) : (d.setMask mask).Coherent :=
  h.congr rfl h.muted fun hactive => ⟨hactive, rfl⟩

theorem setPitchFilter (h : d.Coherent) (on : Bool) : (d.setPitchFilter on).Coherent :=
  h.congr rfl h.muted fun hactive => ⟨hactive, rfl⟩

/-- The flag of the device and that of its filter change together. -/
theorem setPcmMuted (h : d.Coherent) (on : Bool) : (d.setPcmMuted on).Coherent := by
  unfold Device.setPcmMuted
  split
  · exact h
  · exact h.congr rfl rfl fun hactive => ⟨hactive, rfl⟩

theorem midiByte (h : d.Coherent) (byte : UInt8) : (d.midiByte byte).Coherent := by
  unfold Device.midiByte
  rcases d.midi.push byte with ⟨_ | message, midi⟩
  · exact h.congr rfl h.muted fun hactive => ⟨hactive, rfl⟩
  · cases message <;> exact h.congr rfl h.muted fun hactive => ⟨hactive, rfl⟩

theorem live (h : d.Coherent) (event : LiveEvent) : (d.live event).Coherent := by
  cases event with
  | setMask mask => exact h.setMask mask
  | solo channel => exact h.setMask (.single channel)
  | unmuteAll => exact ((h.setMask .all).setPitchFilter false).setPcmMuted false
  | setPitchFilter on => exact h.setPitchFilter on
  | setPcmMuted on => exact h.setPcmMuted on
  | midi byte => exact h.midiByte byte

/-! ### Runs -/

theorem react (h : d.Coherent) (e : Event) : (d.react e).Coherent := by
  cases e with
  | poll => exact h.poll
  | live event => exact h.live event
  | configure | control | push | read | time | chip =>
    exact h.congr rfl h.muted fun hactive => ⟨hactive, rfl⟩

/-- An active player has been started, so it never answers that it has not. -/
theorem update_started (h : d.Coherent) (hactive : d.active = true) :
    (d.player.update d.window d.chip d.timer).outcome.error ≠ some .notStarted := by
  obtain ⟨hstarted, -⟩ := h.active hactive
  obtain ⟨q, -, hupdated⟩ := d.player.update_phases d.window d.chip
    ⟨h.player.playing_iff.mpr hstarted, hstarted⟩ d.timer
  intro hnot
  obtain ⟨-, hnone⟩ | ⟨e, herror, hfatal, -⟩ := hupdated
  · cases hnone.symm.trans hnot
  · obtain rfl := Option.some.inj (herror.symm.trans hnot)
    cases hfatal

/-- An update that fails hands nothing over. -/
theorem updateRefills_of_error (h : d.Coherent) {e : PlayError}
    (herror : (d.player.update d.window d.chip d.timer).outcome.error = some e) :
    d.updateRefills = [] := by
  unfold updateRefills
  split
  · next hdue =>
    obtain ⟨hready, -⟩ := Bool.and_eq_true_iff.mp hdue
    obtain ⟨hstarted, -⟩ := h.active (Bool.and_eq_true_iff.mp hready).1
    obtain ⟨q, -, ⟨-, hnone⟩ | ⟨e', -, -, hfailed, hrequest⟩⟩ := d.player.update_phases d.window
      d.chip ⟨h.player.playing_iff.mpr hstarted, hstarted⟩ d.timer
    · cases hnone.symm.trans herror
    · dsimp only
      rw [hfailed, hrequest]
      rfl
  · rfl

end Coherent

theorem coherent_new (config : DeviceConfig) (chip : Recorder) (timer : Timer) :
    (Device.new config chip timer).Coherent where
  player := ⟨Player.Consistent.initial.playing_iff, Player.Consistent.initial.header⟩
  active := nofun
  muted := rfl
  quiet := rfl

/-- The parts of the device agree at any point of any run, whatever the host sends, the user does,
and the chip and the timer answer:

* while the device plays, its player plays a stream with a header, and the chip may fetch samples;
* the player plays exactly if it has been started;
* the filter blocks the log's ADPCM keys exactly if ADPCM is muted;
* no refill stays with the player: the next poll adds those that an update asks for to the outbox,
  and there are none if it fails;
* a poll that finds the device playing does not update a player that has not been started;
* once the next poll takes a packet for sample memory, nothing is played and the chip fetches no
  sample, for as long as no playback is started from a window with a readable header. -/
theorem parts_agree (config : DeviceConfig) (chip : Recorder) (timer : Timer)
    (events : List Event) :
    let d := (Device.new config chip timer).run events
    let update := d.ingested.player.update d.ingested.window d.ingested.chip d.ingested.timer
    (d.active = true → d.player.phase = .playing ∧ d.player.started = true ∧
      d.player.header.isSome = true ∧ d.samples.pcmEnabled = true) ∧
    (d.player.phase = .playing ↔ d.player.started = true) ∧
    (d.pcmMuted = d.player.filter.blocksPcmKeys) ∧
    (d.player.requests.toList = [] ∧
      d.ingested.stepIfDue.outbox.toList =
        d.outbox.toList ++ d.ingested.updateRefills.map .refill ∧
      (∀ e, update.outcome.error = some e → d.ingested.updateRefills = [])) ∧
    (d.ingested.active = true → update.outcome.error ≠ some .notStarted) ∧
    ∀ c later, d.polled = some c → c.destination.isSamples = true →
      (∀ w ∈ d.startsIn (.poll :: later), ∃ e, Player.readHeader w = .error e) →
      (d.run (.poll :: later)).active = false ∧
        (d.run (.poll :: later)).samples.pcmEnabled = false := by
  intro d update
  have h : d.Coherent :=
    run_keeps (P := Coherent) (fun d e hd => hd.react e) (coherent_new config chip timer) events
  refine ⟨fun hactive => ?_, h.player.playing_iff, h.muted, ⟨h.quiet, ?_, fun e herror => ?_⟩,
    h.ingested.update_started, fun c later hpolled hsamples hfails => ?_⟩
  · obtain ⟨hstarted, henabled⟩ := h.active hactive
    exact ⟨h.player.playing_iff.mpr hstarted, hstarted, h.player.header hstarted, henabled⟩
  · rw [d.ingested.stepIfDue_outbox.1, d.quiet_ingested.outbox]
  · exact h.ingested.updateRefills_of_error herror
  · have hloading := loading_of_polled hpolled hsamples hfails
    exact ⟨hloading.inactive, hloading.gated⟩

/-- The host opens an upload of two bytes for sample memory and sends them. -/
def twoSamples : List Event :=
  [.configure, .control (Request.openUpload .adpcmA 0 2).encode.1
    (Request.openUpload .adpcmA 0 2).encode.2, .push (.data ⟨#[1, 2]⟩)]

/-- They are stored in the next poll, and what the user mutes then is still not fetched. -/
theorem parts_agree_twoSamples :
    let d := (Device.new {} (.fresh (fun _ => true) true) { manual := true }).run twoSamples
    (d.run [.poll, .live (.setPcmMuted true)]).samples.pcmEnabled = false := by
  intro d
  obtain ⟨-, -, -, -, -, hloads⟩ :=
    parts_agree {} (.fresh (fun _ => true) true) { manual := true } twoSamples
  have hpolled : d.polled = some ⟨.adpcmA, 0, ⟨#[1, 2]⟩⟩ := rfl
  have hnone : d.startsIn [.poll, .live (.setPcmMuted true)] = [] := rfl
  refine (hloads _ [.live (.setPcmMuted true)] hpolled rfl fun w hw => ?_).2
  exact absurd (hnone ▸ hw : w ∈ []) List.not_mem_nil

end Device
end ChipReplay
