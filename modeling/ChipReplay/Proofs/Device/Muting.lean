import ChipReplay.Proofs.Device.Coherence
import ChipReplay.Proofs.Device.Ordering
import ChipReplay.Proofs.Device.Ownership
import ChipReplay.Proofs.Player.Levels
/-!
# Muting ADPCM

While ADPCM is muted, the log is refused its keys, but it goes on setting its level, and errors
silence the chip again. What the writes of the chip and of the queue gain in an event is said by the
signals (`Device.written_run`): writes of the log, and writes that join the queue. Those that join
the queue and start or stop ADPCM come from the sequences that silence it (`Device.Silences`), and
the level that the filter remembers is the one that the log has set since the last start
(`Device.level_run`).
-/

namespace ChipReplay

/-! ## What joins the writes -/

/-- The write that joins those of the chip and of the queue: one of the log, or one that will
wait. -/
def Signal.added? : Signal → Option RegisterWrite
  | log w | queued w => some w
  | asked _ | direct _ | busy _ => none

/-- With the queue behind what the chip has kept, a write that leaves the queue changes nothing. -/
theorem Orderly.written {waiting waiting' : List RegisterWrite} {chip chip' : Recorder}
    {signals : List Signal} (h : Orderly waiting chip signals waiting' chip')
    (hrecording : chip.recording = true) :
    chip'.writes ++ waiting' = chip.writes ++ waiting ++ signals.filterMap Signal.added? ∧
      chip'.recording = true := by
  induction h with
  | nil => exact ⟨(List.append_nil _).symm, hrecording⟩
  | asked _ ih =>
    obtain ⟨hwrites, hkept, -⟩ := Recorder.of_ready (Prod.mk.eta (p := Recorder.ready _)).symm
    obtain ⟨hwritten, hstill⟩ := ih (hkept.trans hrecording)
    refine ⟨?_, hstill⟩
    rw [hwritten, hwrites]
    rfl
  | direct hready _ ih =>
    obtain ⟨-, hwrites, hkept⟩ := write_of_ready hready _
    obtain ⟨hwritten, hstill⟩ := ih (hkept.trans hrecording)
    refine ⟨?_, hstill⟩
    rw [hwritten, hwrites hrecording, ← List.append_cons]
    rfl
  | log hready _ ih =>
    obtain ⟨-, hwrites, hkept⟩ := write_of_ready hready _
    obtain ⟨hwritten, hstill⟩ := ih (hkept.trans hrecording)
    refine ⟨?_, hstill⟩
    rw [hwritten, hwrites hrecording, List.append_nil, List.append_nil]
    exact (List.append_cons _ _ _).symm
  | queued _ ih =>
    obtain ⟨hwritten, hstill⟩ := ih hrecording
    refine ⟨?_, hstill⟩
    rw [hwritten, ← List.append_assoc]
    exact (List.append_cons _ _ _).symm
  | busy _ ih => exact ih hrecording

/-! ## Writes that start or stop ADPCM -/

/-- The writes that start or stop ADPCM when it is silenced. -/
def Silence.keys : List RegisterWrite :=
  (Silence.adpcmA ++ Silence.adpcmB).filter RegisterWrite.isPcmKey

/-- They dump the ADPCM-A channels and reset ADPCM-B. -/
theorem Silence.of_mem_keys {w : RegisterWrite} (h : w ∈ Silence.keys) :
    (w.address = Register.adpcmAKey → w.data = 0xBF) ∧
      (w.address = Register.adpcmBControl → w.data = 0x80 ∨ w.data = 0x00) := by
  have hall : ∀ w ∈ Silence.keys, (w.address = Register.adpcmAKey → w.data = 0xBF) ∧
      (w.address = Register.adpcmBControl → w.data = 0x80 ∨ w.data = 0x00) := by
    decide
  exact hall w h

/-- No write of the list starts or stops ADPCM, even once it waits. -/
def Keyless (ws : List RegisterWrite) : Prop :=
  ∀ w ∈ ws.map RegisterWrite.masked, w.isPcmKey = false

theorem Keyless.nil : Keyless [] := fun _ hw => absurd hw List.not_mem_nil

theorem Keyless.append {a b : List RegisterWrite} (ha : Keyless a) (hb : Keyless b) :
    Keyless (a ++ b) := by
  intro w hw
  rw [List.map_append] at hw
  exact (List.mem_append.mp hw).elim (ha w) (hb w)

namespace Voices

/-- The FM key register is another one. -/
theorem keyless_fmKey (data : UInt8) : Keyless [⟨Register.fmKey, data⟩] := by
  have haddress : ChannelFilter.isPcmKey (Register.fmKey &&& 0x1FF) = false := by decide
  intro w hw
  obtain rfl := List.mem_singleton.mp hw
  exact haddress

/-- And so are the pitch registers. -/
theorem keyless_pitchWrites {slot : UInt8} (h : slot ∈ FmChannel.slots) (note : UInt8) :
    Keyless (pitchWrites slot note) := by
  have haddress : ∀ s ∈ FmChannel.slots,
      ChannelFilter.isPcmKey ((FmChannel.registerBase s + 0xA4) &&& 0x1FF) = false ∧
        ChannelFilter.isPcmKey ((FmChannel.registerBase s + 0xA0) &&& 0x1FF) = false := by
    decide +kernel
  obtain ⟨hhigh, hlow⟩ := haddress slot h
  intro w hw
  rcases List.mem_cons.mp hw with rfl | hw
  · exact hhigh
  · obtain rfl := List.mem_singleton.mp hw
    exact hlow

theorem keyless_release (channel : Nat) : Keyless (release channel) := by
  unfold release
  split
  · exact keyless_fmKey _
  · exact .nil

theorem keyless_key (v : Voices) (channel : Nat) (on : Bool) (note : UInt8) :
    Keyless (v.key channel on note).2 := by
  unfold key
  split
  · exact .nil
  · next slot hslot =>
    dsimp only
    split
    · exact (keyless_pitchWrites (FmChannel.mem_slots hslot) _).append (keyless_fmKey _)
    · split
      · exact keyless_fmKey _
      · exact .nil

theorem keyless_forEach {act : Voices → Nat → Voices × List RegisterWrite}
    (hact : ∀ v channel, Keyless (act v channel).2) (channels : List Nat) (v : Voices) :
    Keyless (v.forEach channels act).2 := by
  induction channels generalizing v with
  | nil => exact .nil
  | cons channel channels ih => exact (hact v channel).append (ih _)

theorem keyless_mute (v : Voices) (mask : ChannelSet) : Keyless (v.mute mask).2 :=
  keyless_forEach (fun _ channel => keyless_release channel) mask.toList v

theorem keyless_keyAll (v : Voices) (mask : ChannelSet) (on : Bool) (note : UInt8) :
    Keyless (v.keyAll mask on note).2 :=
  keyless_forEach (fun v channel => keyless_key v channel on note) mask.toList v

theorem keyless_releases (channels : List Nat) : Keyless (channels.flatMap release) := by
  induction channels with
  | nil => exact .nil
  | cons channel channels ih =>
    rw [List.flatMap_cons]
    exact (keyless_release channel).append ih

end Voices

namespace Device

variable {d d' d'' : Device} {e : Event} {events : List Event}

/-! ## The queue -/

/-- Writes join the queue from `d` to `d'`, and those that start or stop ADPCM come from sequences
that silence it. -/
def Silences (d d' : Device) : Prop :=
  ∃ ws n, d'.direct.toList = d.direct.toList ++ ws ∧
    ws.filter RegisterWrite.isPcmKey = (List.replicate n Silence.keys).flatten

namespace Silences

theorem of_eq (hdirect : d'.direct = d.direct) : d.Silences d' :=
  ⟨[], 0, by rw [hdirect, List.append_nil], rfl⟩

theorem trans (h : d.Silences d') (h' : d'.Silences d'') : d.Silences d'' := by
  obtain ⟨ws, n, hdirect, hkeys⟩ := h
  obtain ⟨ws', n', hdirect', hkeys'⟩ := h'
  refine ⟨ws ++ ws', n + n', ?_, ?_⟩
  · rw [hdirect', hdirect, List.append_assoc]
  · rw [List.filter_append, hkeys, hkeys', ← List.flatten_append, List.replicate_append_replicate]

/-- A sequence of writes is queued behind others that do not matter. -/
theorem queueWrites (quiet : List RegisterWrite) {ws : List RegisterWrite} {n : Nat}
    (hdirect : d'.direct = d.direct) (hquiet : Keyless quiet)
    (hkeys : (ws.map RegisterWrite.masked).filter RegisterWrite.isPcmKey =
      (List.replicate n Silence.keys).flatten) :
    d.Silences (d'.queueWrites (quiet ++ ws)) := by
  refine ⟨(quiet ++ ws).map .masked, n, ?_, ?_⟩
  · show (WriteQueue.addAll d'.direct (quiet ++ ws)).toList = _
    rw [WriteQueue.toList_addAll, hdirect]
  · have hnone : (quiet.map RegisterWrite.masked).filter RegisterWrite.isPcmKey = [] :=
      List.filter_eq_nil_iff.mpr fun w hw => Bool.eq_false_iff.mp (hquiet w hw)
    rw [List.map_append, List.filter_append, hnone, List.nil_append, hkeys]

theorem of_keyless {ws : List RegisterWrite} (hdirect : d'.direct = d.direct) (hws : Keyless ws) :
    d.Silences (d'.queueWrites ws) := by
  have hqueued : d.Silences (d'.queueWrites (ws ++ [])) := queueWrites ws (n := 0) hdirect hws rfl
  rwa [List.append_nil] at hqueued

theorem joined (h : d.Silences d') :
    ∃ n, (d.joined d').filter RegisterWrite.isPcmKey =
      (List.replicate n Silence.keys).flatten := by
  obtain ⟨ws, n, hdirect, hkeys⟩ := h
  have hjoined : d.joined d' = ws := by
    rw [Device.joined, hdirect, List.drop_left]
  exact ⟨n, by rw [hjoined, hkeys]⟩

end Silences

/-- An error silences ADPCM with everything else. -/
theorem silences_fail (d : Device) (e : PlayError) : d.Silences (d.fail e) := by
  have hsilent := d.voices.keyless_mute .all
  have hkeys : (Silence.all.map RegisterWrite.masked).filter RegisterWrite.isPcmKey =
      (List.replicate 1 Silence.keys).flatten := by
    decide
  exact .queueWrites _ rfl hsilent hkeys

theorem silences_step (d : Device) : d.Silences d.step := by
  unfold step
  dsimp only
  split
  · split
    · exact Silences.trans (.of_eq rfl) (silences_fail _ _)
    · exact .of_eq rfl
  · exact .of_eq rfl

theorem silences_startPlayback (d : Device) : d.Silences d.startPlayback := by
  unfold startPlayback
  rcases d.player.begin d.window with ⟨e | _, player⟩
  · exact Silences.trans (.of_eq rfl) (silences_fail _ e)
  · exact .of_eq rfl

theorem silences_startIfAsked (d : Device) : d.Silences d.startIfAsked := by
  have htaken : d.Silences { d with session := d.session.takeStart.2 } := .of_eq rfl
  unfold startIfAsked
  dsimp only
  split
  · exact htaken.trans (silences_startPlayback _)
  · exact htaken

theorem silences_setMask (d : Device) (mask : ChannelSet) : d.Silences (d.setMask mask) := by
  have hreturned := d.voices.keyless_mute (mask.diff d.player.filter.mask)
  exact .of_keyless rfl ((Voices.keyless_releases _).append hreturned)

/-- So does muting it, while giving it back only sets its level. -/
theorem silences_setPcmMuted (d : Device) (on : Bool) : d.Silences (d.setPcmMuted on) := by
  unfold setPcmMuted
  split
  · exact .of_eq rfl
  · cases on with
    | true =>
      have hkeys : ((Silence.adpcmA ++ Silence.adpcmB).map RegisterWrite.masked).filter
          RegisterWrite.isPcmKey = (List.replicate 1 Silence.keys).flatten := by
        decide
      exact .queueWrites [] rfl .nil hkeys
    | false =>
      have haddress : ChannelFilter.isPcmKey (Register.adpcmALevel &&& 0x1FF) = false := by decide
      refine .of_keyless rfl fun w hw => ?_
      obtain rfl := List.mem_singleton.mp hw
      exact haddress

theorem silences_playNote (d : Device) (on : Bool) (note : UInt8) :
    d.Silences (d.playNote on note) :=
  .of_keyless rfl (d.voices.keyless_keyAll _ on note)

theorem silences_midiByte (d : Device) (byte : UInt8) : d.Silences (d.midiByte byte) := by
  have hparsed (midi : MidiParser) : d.Silences { d with midi } := .of_eq rfl
  unfold midiByte
  rcases d.midi.push byte with ⟨_ | message, midi⟩
  · exact hparsed midi
  · cases message with
    | noteOn _ note => exact (hparsed midi).trans (silences_playNote _ true note)
    | noteOff _ note => exact (hparsed midi).trans (silences_playNote _ false note)
    | unsupported => exact hparsed midi

theorem silences_live (d : Device) (event : LiveEvent) : d.Silences (d.live event) := by
  cases event with
  | setMask mask => exact silences_setMask d mask
  | solo channel => exact silences_setMask d _
  | unmuteAll =>
    have hpitch : (d.setMask .all).Silences ((d.setMask .all).setPitchFilter false) := .of_eq rfl
    exact ((silences_setMask d .all).trans hpitch).trans (silences_setPcmMuted _ false)
  | setPitchFilter on => exact .of_eq rfl
  | setPcmMuted on => exact silences_setPcmMuted d on
  | midi byte => exact silences_midiByte d byte

/-! ## Events -/

/-- What the events add to the writes of the chip and of the queue. -/
def addedIn (d : Device) (events : List Event) : List RegisterWrite :=
  (d.signalsIn events).filterMap Signal.added?

/-- The event leaves alone whether the chip records. -/
def Event.KeepsRecording : Event → Prop
  | .chip change => ∀ chip, (change chip).recording = chip.recording
  | _ => True

theorem Event.KeepsWrites.keepsRecording (h : e.KeepsWrites) : e.KeepsRecording := by
  cases e with
  | chip change => exact fun chip => (h chip).2
  | configure | control | push | read | poll | live | time => exact trivial

theorem recording_react (h : d.chip.recording = true) (hkeeps : e.KeepsRecording) :
    (d.react e).chip.recording = true := by
  cases e with
  | poll => exact (d.orderly_poll.written h).2
  | live event => exact (congrArg _ (d.queues_live event).chip).trans h
  | chip change => exact (hkeeps d.chip).trans h
  | configure | control | push | read | time => exact h

theorem recording_run (h : d.chip.recording = true) (hkeep : ∀ e ∈ events, e.KeepsRecording) :
    (d.run events).chip.recording = true :=
  List.foldlRecOn events Device.react (motive := fun d => d.chip.recording = true) h
    fun _ hd e he => recording_react hd (hkeep e he)

/-- The writes of the chip and of the queue gain what an event adds. -/
theorem written_react (h : d.chip.recording = true) (hkeeps : e.KeepsWrites) :
    (d.react e).written = d.written ++ (d.signalsOf e).filterMap Signal.added? := by
  cases e with
  | poll => exact (d.orderly_poll.written h).1
  | live event => exact ((d.queues_live event).orderly.written h).1
  | chip change =>
    have hwrites : (change d.chip).writes = d.chip.writes :=
      congrArg List.reverse (hkeeps d.chip).1
    show (change d.chip).writes ++ _ = _
    rw [hwrites]
    exact (List.append_nil _).symm
  | configure | control | push | read | time => exact (List.append_nil _).symm

theorem written_run (h : d.chip.recording = true) (hkeep : ∀ e ∈ events, e.KeepsWrites) :
    (d.run events).written = d.written ++ d.addedIn events := by
  induction events generalizing d with
  | nil => exact (List.append_nil _).symm
  | cons e events ih =>
    obtain ⟨hfirst, hrest⟩ := List.forall_mem_cons.mp hkeep
    have hstill := recording_react h hfirst.keepsRecording
    show ((d.react e).run events).written = _
    rw [ih hstill hrest, written_react h hfirst, addedIn, addedIn, signalsIn, List.filterMap_append,
      List.append_assoc]

/-! ## While ADPCM is muted -/

theorem pcmMuted_ingested (d : Device) : d.ingested.pcmMuted = d.pcmMuted := by
  obtain ⟨active, window, samples, lastUploadError, stats, heq, -⟩ := d.ingested_eq
  rw [heq]

theorem pcmMuted_startPlayback (d : Device) : d.startPlayback.pcmMuted = d.pcmMuted := by
  rcases hresult : d.player.begin d.window with ⟨e | _, q⟩
  · obtain ⟨active, voices, direct, lastError, heq⟩ := startPlayback_of_error hresult
    rw [heq]
  · rw [startPlayback_of_ok hresult]

/-- A poll mutes nothing and gives nothing back, whatever fails in it. -/
theorem pcmMuted_poll (d : Device) : d.poll.pcmMuted = d.pcmMuted := by
  have hstepped : d.ingested.stepIfDue.pcmMuted = d.ingested.pcmMuted := by
    unfold stepIfDue
    split
    · obtain ⟨active, voices, direct, lastError, stats, heq⟩ := d.ingested.step_eq
      rw [heq]
    · rfl
  have hsent : d.ingested.stepIfDue.sendMessages.pcmMuted = d.ingested.stepIfDue.pcmMuted := by
    obtain ⟨session, endpoint, outbox, stats, heq⟩ := sendUpTo_eq 2 d.ingested.stepIfDue
    rw [sendMessages, heq]
  rw [poll_eq, ← d.pcmMuted_ingested, ← hstepped, ← hsent, startIfAsked]
  dsimp only
  split
  · rw [pcmMuted_startPlayback]
  · rfl

theorem pcmMuted_setPcmMuted (d : Device) (on : Bool) : (d.setPcmMuted on).pcmMuted = on := by
  unfold setPcmMuted
  split
  · next hsame => exact hsame.symm
  · rfl

theorem pcmMuted_midiByte (d : Device) (byte : UInt8) :
    (d.midiByte byte).pcmMuted = d.pcmMuted := by
  unfold midiByte
  rcases d.midi.push byte with ⟨_ | message, midi⟩
  · rfl
  · cases message <;> rfl

/-- ADPCM is muted and given back only by the user. -/
theorem eq_of_pcmMuted_ne (h : (d.react e).pcmMuted ≠ d.pcmMuted) :
    (e = .live (.setPcmMuted !d.pcmMuted)) ∨ e = .live .unmuteAll := by
  cases e with
  | poll => exact absurd d.pcmMuted_poll h
  | live event =>
    cases event with
    | setPcmMuted on =>
      have hon : on ≠ d.pcmMuted := fun hsame => h ((pcmMuted_setPcmMuted d on).trans hsame)
      exact .inl (by rw [Bool.eq_not_of_ne hon])
    | unmuteAll => exact .inr rfl
    | midi byte => exact absurd (pcmMuted_midiByte d byte) h
    | setMask | solo | setPitchFilter => exact absurd rfl h
  | configure | control | push | read | time | chip => exact absurd rfl h

/-- The signals of events after each of which ADPCM is muted. -/
structure Muted (signals : List Signal) : Prop where
  /-- The log starts and stops nothing. -/
  log : ∀ w, .log w ∈ signals → w.isPcmKey = false
  /-- What silences ADPCM comes as a whole. -/
  queued : ∃ n, (signals.filterMap Signal.added?).filter RegisterWrite.isPcmKey =
    (List.replicate n Silence.keys).flatten

namespace Muted

variable {signals signals' : List Signal}

theorem append (h : Muted signals) (h' : Muted signals') : Muted (signals ++ signals') where
  log w hw := (List.mem_append.mp hw).elim (h.log w) (h'.log w)
  queued := by
    obtain ⟨n, hkeys⟩ := h.queued
    obtain ⟨n', hkeys'⟩ := h'.queued
    refine ⟨n + n', ?_⟩
    rw [List.filterMap_append, List.filter_append, hkeys, hkeys', ← List.flatten_append,
      List.replicate_append_replicate]

theorem nil : Muted [] := ⟨fun _ hw => absurd hw List.not_mem_nil, 0, rfl⟩

/-- Nothing is added that starts or stops ADPCM. -/
theorem of_forall (h : ∀ s ∈ signals, ∀ w, s.added? = some w → w.isPcmKey = false) :
    Muted signals where
  log w hw := h _ hw w rfl
  queued := by
    refine ⟨0, List.filter_eq_nil_iff.mpr fun w hw => ?_⟩
    obtain ⟨s, hs, hadded⟩ := List.mem_filterMap.mp hw
    exact Bool.eq_false_iff.mp (h s hs w hadded)

theorem of_silences (h : d.Silences d') : Muted ((d.joined d').map .queued) where
  log w hw := by
    obtain ⟨_, -, hqueued⟩ := List.mem_map.mp hw
    cases hqueued
  queued := by
    have hadded : ((d.joined d').map Signal.queued).filterMap Signal.added? = d.joined d' := by
      rw [List.filterMap_map]
      exact List.filterMap_some
    rw [hadded]
    exact h.joined

end Muted

/-- Flushing adds nothing. -/
theorem muted_flush (q : WriteQueue) (chip : Recorder) :
    Muted (WriteQueue.flushSignals q chip) := by
  apply Muted.of_forall
  fun_induction WriteQueue.flushSignals q chip with
  | case1 => exact fun s hs => absurd hs List.not_mem_nil
  | case2 q chip w rest hpop chip' hready =>
    intro s hs w' hadded
    obtain rfl := List.mem_singleton.mp hs
    cases hadded
  | case3 q chip w rest hpop chip' hready ih =>
    intro s hs w' hadded
    rcases List.mem_cons.mp hs with rfl | hs
    · cases hadded
    · rcases List.mem_cons.mp hs with rfl | hs
      · cases hadded
      · exact ih s hs w' hadded

/-- An update adds what the filter allows, and that is no key of ADPCM if it blocks them. -/
theorem muted_signals (p : Player) (w : Window) (chip : Recorder)
    (hblocks : p.filter.blocksPcmKeys = true) : Muted (p.signals w chip) := by
  have hallowed : (p.signals w chip).filterMap Signal.write? =
      (registerWrites (p.commands w chip)).filter p.filter.allows := by
    unfold Player.signals Player.commands Player.visits
    split
    · exact p.filterMap_visitsUpTo w chip p.commandLimit
    · rfl
  apply Muted.of_forall
  intro s hs w' hadded
  have hwrite : s.write? = some w' := by
    obtain ⟨v, -, hturn⟩ := List.mem_flatMap.mp hs
    unfold Player.turnSignals at hturn
    split at hturn
    · rcases List.mem_cons.mp hturn with rfl | hlog
      · cases hadded
      · obtain ⟨_, -, rfl⟩ := List.mem_map.mp hlog
        exact hadded
    · exact absurd hturn List.not_mem_nil
  have hmem : w' ∈ (registerWrites (p.commands w chip)).filter p.filter.allows := by
    rw [← hallowed]
    exact List.mem_filterMap.mpr ⟨s, hs, hwrite⟩
  cases hkey : w'.isPcmKey with
  | false => rfl
  | true =>
    have hallows := (List.mem_filter.mp hmem).2
    exact hallows.symm.trans (ChannelFilter.not_allows_key hblocks hkey)

/-- That goes for any event after which ADPCM is muted, also for the one that mutes it. -/
theorem Coherent.muted_react (h : d.Coherent) (hmuted : (d.react e).pcmMuted = true) :
    Muted (d.signalsOf e) := by
  cases e with
  | poll =>
    -- nothing is muted or given back within a poll, so its update meets a filter that blocks
    have hblocks : d.ingested.player.filter.blocksPcmKeys = true := by
      rw [← h.ingested.muted, pcmMuted_ingested, ← pcmMuted_poll]
      exact hmuted
    have hstep : Muted d.ingested.stepSignals := by
      unfold stepSignals
      split
      · exact (muted_signals _ _ _ hblocks).append (.of_silences (silences_step _))
      · exact .nil
    exact ((muted_flush d.direct d.chip).append hstep).append
      (.of_silences (silences_startIfAsked _))
  | live event => exact .of_silences (silences_live d event)
  | chip change =>
    apply Muted.of_forall
    intro s hs w hadded
    obtain rfl := List.mem_singleton.mp hs
    cases hadded
  | configure | control | push | read | time => exact .nil

/-- And so for as many events as ADPCM stays muted. -/
theorem Coherent.muted_run (h : d.Coherent)
    (hmuted : ∀ seen, seen <+: events → seen ≠ [] → (d.run seen).pcmMuted = true) :
    Muted (d.signalsIn events) := by
  induction events generalizing d with
  | nil => exact .nil
  | cons e events ih =>
    have hfirst : (d.react e).pcmMuted = true :=
      hmuted [e] (List.cons_prefix_cons.mpr ⟨rfl, List.nil_prefix⟩) (List.cons_ne_nil e [])
    refine (h.muted_react hfirst).append (ih (h.react e) fun seen hseen _ => ?_)
    exact hmuted (e :: seen) (List.cons_prefix_cons.mpr ⟨rfl, hseen⟩) (List.cons_ne_nil e seen)

/-! ## The level -/

/-- What the log tries to write in an event. -/
def triedBy (d : Device) : Event → List RegisterWrite
  | .poll =>
    let d := d.ingested
    if d.active && d.timer.elapsed && d.direct.isEmpty then
      registerWrites (d.player.commands d.window d.chip)
    else []
  | _ => []

/-- What the log has tried to write since the last start, if it had tried `tried` before the
events. -/
def triedSinceStart (d : Device) (tried : List RegisterWrite) : List Event → List RegisterWrite
  | [] => tried
  | e :: events =>
    (d.react e).triedSinceStart
      (if (d.startedBy e).isSome then [] else tried ++ d.triedBy e) events

theorem level_startPlayback (d : Device) :
    d.startPlayback.player.filter.adpcmALevel = ChannelFilter.defaultLevel := by
  have hfilter := d.player.filter_begin d.window
  rcases hresult : d.player.begin d.window with ⟨e | _, q⟩
  · rw [hresult] at hfilter
    obtain ⟨active, voices, direct, lastError, heq⟩ := startPlayback_of_error hresult
    rw [heq]
    exact congrArg _ hfilter
  · rw [hresult] at hfilter
    rw [startPlayback_of_ok hresult]
    exact congrArg _ hfilter

/-- A start forgets the level, also one that fails. Up to then, it is the log's. -/
theorem level_poll (d : Device) :
    d.poll.player.filter.adpcmALevel =
      if (d.startedBy .poll).isSome then ChannelFilter.defaultLevel
      else lastLevel d.player.filter.adpcmALevel (d.triedBy .poll) := by
  -- the start is the last thing in a poll, so what the log tries in the same poll is forgotten
  cases hstarted : d.startedBy .poll with
  | some w =>
    obtain ⟨-, hpoll⟩ := poll_of_started hstarted
    rw [hpoll, level_startPlayback]
    rfl
  | none =>
    obtain ⟨session, endpoint, outbox, stats, hsent⟩ := sendUpTo_eq 2 d.ingested.stepIfDue
    have hplayer : d.poll.player = d.ingested.stepIfDue.player := by
      rw [poll_of_not_started hstarted, untilStart, sendMessages, hsent]
    have hingested : d.ingested.player = d.player := by
      obtain ⟨active, window, samples, lastUploadError, stats, heq, -⟩ := d.ingested_eq
      rw [heq]
    rw [hplayer, ← hingested, triedBy, stepIfDue]
    split
    · obtain ⟨active, voices, direct, lastError, stats, heq⟩ := d.ingested.step_eq
      rw [heq]
      exact d.ingested.player.level_update _ _ _
    · rfl

theorem level_setPcmMuted (d : Device) (on : Bool) :
    (d.setPcmMuted on).player.filter.adpcmALevel = d.player.filter.adpcmALevel := by
  unfold setPcmMuted
  split
  · rfl
  · rfl

/-- Whatever the user does, the level is the log's. -/
theorem level_live (d : Device) (event : LiveEvent) :
    (d.live event).player.filter.adpcmALevel = d.player.filter.adpcmALevel := by
  cases event with
  | setPcmMuted on => exact level_setPcmMuted d on
  | unmuteAll => exact level_setPcmMuted _ false
  | midi byte =>
    show (d.midiByte byte).player.filter.adpcmALevel = _
    unfold midiByte
    rcases d.midi.push byte with ⟨_ | message, midi⟩
    · rfl
    · cases message <;> rfl
  | setMask | solo | setPitchFilter => rfl

theorem level_react (d : Device) (e : Event) :
    (d.react e).player.filter.adpcmALevel =
      if (d.startedBy e).isSome then ChannelFilter.defaultLevel
      else lastLevel d.player.filter.adpcmALevel (d.triedBy e) := by
  cases e with
  | poll => exact d.level_poll
  | live event => exact d.level_live event
  | configure | control | push | read | time | chip => rfl

/-- The filter remembers the level that the log has set since the last start. -/
theorem level_run {tried : List RegisterWrite}
    (h : d.player.filter.adpcmALevel = lastLevel ChannelFilter.defaultLevel tried) :
    (d.run events).player.filter.adpcmALevel =
      lastLevel ChannelFilter.defaultLevel (d.triedSinceStart tried events) := by
  induction events generalizing d tried with
  | nil => exact h
  | cons e events ih =>
    apply ih (d := d.react e)
    rw [level_react]
    -- a start lets go of both, the level and what was tried before
    split
    · rfl
    · rw [h, lastLevel_append]

/-! ## Muting and giving back -/

/-- What is queued when ADPCM is muted or given back. -/
theorem direct_setPcmMuted {on : Bool} (h : on ≠ d.pcmMuted) :
    (d.setPcmMuted on).direct.toList = d.direct.toList ++
      if on then Silence.adpcmA ++ Silence.adpcmB
      else Silence.restoreAdpcmA d.player.filter.adpcmALevel := by
  unfold setPcmMuted
  rw [if_neg h]
  show (WriteQueue.addAll d.direct _).toList = _
  rw [WriteQueue.toList_addAll]
  cases on with
  | true => rfl
  | false =>
    have haddress : Register.adpcmALevel &&& 0x1FF = Register.adpcmALevel := by decide
    show _ ++ [(⟨Register.adpcmALevel &&& 0x1FF, _⟩ : RegisterWrite)] = _
    rw [haddress]
    rfl

theorem added_setPcmMuted (hmuted : d.pcmMuted = false) :
    d.addedIn [.live (.setPcmMuted true)] = Silence.adpcmA ++ Silence.adpcmB := by
  have hjoined : d.joined (d.setPcmMuted true) = Silence.adpcmA ++ Silence.adpcmB := by
    rw [joined, direct_setPcmMuted (by simp [hmuted]), if_pos rfl, List.drop_left]
  show (((d.joined (d.setPcmMuted true)).map Signal.queued) ++ []).filterMap Signal.added? = _
  rw [hjoined]
  rfl

/-- When ADPCM is given back, its level comes last. -/
theorem written_unmuted (hmuted : d.pcmMuted = true) (hback : (d.react e).pcmMuted = false) :
    ∃ ws, (d.react e).written =
      ws ++ [⟨Register.adpcmALevel, (d.react e).player.filter.adpcmALevel⟩] := by
  have hrestored (d : Device) (h : d.pcmMuted = true) : ∃ ws, (d.setPcmMuted false).written =
      ws ++ [⟨Register.adpcmALevel, (d.setPcmMuted false).player.filter.adpcmALevel⟩] := by
    refine ⟨d.written, ?_⟩
    unfold written
    rw [(queues_setPcmMuted d false).chip, direct_setPcmMuted (by simp [h]), if_neg (by simp),
      level_setPcmMuted, List.append_assoc]
    rfl
  have hchanged : (d.react e).pcmMuted ≠ d.pcmMuted := by simp [hmuted, hback]
  obtain rfl | rfl := eq_of_pcmMuted_ne hchanged
  · rw [hmuted]
    exact hrestored d hmuted
  · exact hrestored ((d.setMask .all).setPitchFilter false) hmuted

/-- Muting ADPCM silences that of the log, and giving it back restores its level, in whatever order
ADPCM is muted and given back, channels change hands, playbacks are started and fail, and the log
writes. Let a device with a recording chip have come somewhere by any events. Its writes are those
that the chip has kept followed by those that wait. Then, whatever happens next:

* the writes gain what the events add, unless they change what the chip has kept;
* if ADPCM is muted after each of the events, nothing of it is started or stopped by the log, and
  what they add there is a number of whole sequences that silence it: the ADPCM-A channels are
  dumped, and ADPCM-B is reset;
* the filter remembers the level that the log set last since the latest start, and the default level
  if it has set none since, muted or not;
* the event that mutes ADPCM adds such a sequence;
* after the event that gives it back, the last write of the level restores what is remembered. -/
theorem pcm_silenced (config : DeviceConfig) (accepts : Nat → Bool) (timer : Timer)
    (before during : List Event) (hkeep : ∀ e ∈ before, e.KeepsRecording) :
    let start := Device.new config (.fresh accepts true) timer
    let level events := lastLevel ChannelFilter.defaultLevel (start.triedSinceStart [] events)
    let d := start.run before
    ((∀ e ∈ during, e.KeepsWrites) → (d.run during).written = d.written ++ d.addedIn during) ∧
    ((∀ seen, seen <+: during → seen ≠ [] → (d.run seen).pcmMuted = true) →
      (∀ w, .log w ∈ d.signalsIn during → w.isPcmKey = false) ∧
      (∃ n, (d.addedIn during).filter RegisterWrite.isPcmKey =
        (List.replicate n Silence.keys).flatten) ∧
      ∀ w ∈ d.addedIn during, (w.address = Register.adpcmAKey → w.data = 0xBF) ∧
        (w.address = Register.adpcmBControl → w.data = 0x80 ∨ w.data = 0x00)) ∧
    d.player.filter.adpcmALevel = level before ∧
    ∀ e, (d.pcmMuted = false → (d.react e).pcmMuted = true →
        d.addedIn [e] = Silence.adpcmA ++ Silence.adpcmB) ∧
      (d.pcmMuted = true → (d.react e).pcmMuted = false →
        ((d.react e).written.filter (·.address == Register.adpcmALevel)).getLast? =
          some ⟨Register.adpcmALevel, level (before ++ [e])⟩) := by
  intro start level d
  have hrecording : d.chip.recording = true := recording_run (d := start) rfl hkeep
  have hcoherent : d.Coherent :=
    run_keeps (P := Coherent) (fun d e hd => hd.react e) (coherent_new config _ timer) before
  have hlevel (events : List Event) : (start.run events).player.filter.adpcmALevel = level events :=
    level_run rfl
  refine ⟨written_run hrecording, fun hmuted => ?_, hlevel before, fun e => ⟨?_, ?_⟩⟩
  · obtain ⟨hlog, n, hkeys⟩ := hcoherent.muted_run hmuted
    refine ⟨hlog, ⟨n, hkeys⟩, fun w hw => ?_⟩
    cases hkey : w.isPcmKey with
    | true =>
      have hmem : w ∈ (List.replicate n Silence.keys).flatten := by
        rw [← hkeys]
        exact List.mem_filter.mpr ⟨hw, hkey⟩
      obtain ⟨keys, hreplicated, hw⟩ := List.mem_flatten.mp hmem
      rw [List.eq_of_mem_replicate hreplicated] at hw
      exact Silence.of_mem_keys hw
    | false =>
      have hother : w.address ≠ Register.adpcmAKey ∧ w.address ≠ Register.adpcmBControl := by
        unfold RegisterWrite.isPcmKey ChannelFilter.isPcmKey at hkey
        simpa using hkey
      exact ⟨fun h => absurd h hother.1, fun h => absurd h hother.2⟩
  · intro hmuted hreacted
    have hchanged : (d.react e).pcmMuted ≠ d.pcmMuted := by simp [hmuted, hreacted]
    obtain rfl | rfl := eq_of_pcmMuted_ne hchanged
    · rw [hmuted]
      exact added_setPcmMuted hmuted
    · exact absurd ((pcmMuted_setPcmMuted _ false).symm.trans hreacted) (by decide)
  · intro hmuted hback
    obtain ⟨ws, hwritten⟩ := written_unmuted hmuted hback
    have hreacted : d.react e = start.run (before ++ [e]) := by
      rw [run_append]
      rfl
    rw [hwritten, hreacted, hlevel, List.filter_append]
    exact List.getLast?_concat

/-- ADPCM is muted, and a playback is asked for although nothing has been uploaded. -/
def failedStart : List Event :=
  [.live (.setPcmMuted true), .control Request.startPlayback.encode.1
    Request.startPlayback.encode.2, .poll]

/-- ADPCM stays muted, whatever the poll finds. -/
theorem pcmMuted_failedStart (d : Device) {seen : List Event} (hseen : seen <+: failedStart)
    (hne : seen ≠ []) : (d.run seen).pcmMuted = true := by
  have hmuted := pcmMuted_setPcmMuted d true
  have hpolled (d : Device) : (d.react .poll).pcmMuted = d.pcmMuted := d.pcmMuted_poll
  rcases List.prefix_cons_iff.mp hseen with rfl | ⟨_, rfl, hasked⟩
  · exact absurd rfl hne
  · rcases List.prefix_cons_iff.mp hasked with rfl | ⟨_, rfl, hpoll⟩
    · exact hmuted
    · rcases List.prefix_cons_iff.mp hpoll with rfl | ⟨_, rfl, hnone⟩
      · exact hmuted
      · obtain rfl := List.prefix_nil.mp hnone
        exact (hpolled _).trans hmuted

/-- The error silences everything again. When ADPCM is given back, the level is the default one. -/
theorem pcm_silenced_failedStart :
    let start := Device.new {} (.fresh (Recorder.refuseEvery 2) true) { manual := true }
    (∀ w ∈ (start.run failedStart).written, w.address = Register.adpcmAKey → w.data = 0xBF) ∧
      (((start.run failedStart).react (.live .unmuteAll)).written.filter
        (·.address == Register.adpcmALevel)).getLast? = some ⟨Register.adpcmALevel, 0x3F⟩ := by
  intro start
  have hkeeps : ∀ e ∈ failedStart, e.KeepsWrites := by
    simp [failedStart, Event.KeepsWrites]
  have hback (d : Device) : (d.react (.live .unmuteAll)).pcmMuted = false :=
    pcmMuted_setPcmMuted _ false
  have hasks : ((start.run (failedStart.take 2)).startedBy .poll).isSome = true := by
    decide +kernel
  have hlevel : start.triedSinceStart [] (failedStart ++ [.live .unmuteAll]) = [] := by
    show (if ((start.run (failedStart.take 2)).startedBy .poll).isSome then [] else _) ++ [] = _
    rw [hasks]
    rfl
  obtain ⟨hwritten, hsilent, -⟩ := pcm_silenced {} (Recorder.refuseEvery 2) { manual := true }
    [] failedStart (fun e he => absurd he List.not_mem_nil)
  obtain ⟨-, -, -, hchanges⟩ := pcm_silenced {} (Recorder.refuseEvery 2) { manual := true }
    failedStart [] (fun e he => (hkeeps e he).keepsRecording)
  have hadded : (start.run failedStart).written = start.addedIn failedStart := hwritten hkeeps
  refine ⟨fun w hw => ?_, ?_⟩
  · obtain ⟨-, -, hdata⟩ := hsilent fun _ hseen => pcmMuted_failedStart start hseen
    rw [hadded] at hw
    exact (hdata w hw).1
  · have hmuted := pcmMuted_failedStart start (List.prefix_refl _) (List.cons_ne_nil _ _)
    have hrestored := (hchanges (.live .unmuteAll)).2 hmuted (hback _)
    dsimp only at hrestored
    rw [hlevel] at hrestored
    exact hrestored

end Device
end ChipReplay
