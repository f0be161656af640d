import ChipReplay.Proofs.Device.Run
import ChipReplay.Proofs.Player.Writes
/-!
# Who plays which channel

The log plays the FM channels of the filter's mask, and the user the others. Both reach the chip in
the end: the log directly, but only while no other write waits, and everything else through the
queue. So the writes that count are those that the chip has kept followed by those that wait
(`Device.written`), and what every event keeps of them is that no note hangs (`Device.Owning`).
-/

namespace ChipReplay

theorem MidiMessage.note_of_decode {status first second channel note velocity : UInt8}
    (h : decode status first second = .noteOff channel note velocity) : note = first &&& 0x7F := by
  unfold decode at h
  grind

/-- The note of a message has seven bits. -/
theorem MidiParser.note_of_push {p : MidiParser} {byte channel note velocity : UInt8}
    (h : (p.push byte).1 = some (.noteOff channel note velocity)) : note &&& 0x7F = note := by
  have hmask (b : UInt8) : b &&& 0x7F &&& 0x7F = b &&& 0x7F := by
    rw [UInt8.and_assoc, UInt8.and_self]
  unfold push at h
  split at h
  · cases h
  · split at h
    · cases h
    · cases p with
      | waiting => cases h
      | status s => cases h
      | data s first =>
        have hnote := MidiMessage.note_of_decode (Option.some.inj h)
        rw [hnote, hmask]

namespace Device

variable {d d' : Device}

/-- The writes that the chip has kept, and then those that wait for it. -/
def written (d : Device) : List RegisterWrite := d.chip.writes ++ d.direct.toList

/-- The chip records, the log's channels have no notes, and the others are keyed exactly while they
have one. -/
structure Owning (d : Device) : Prop where
  recording : d.chip.recording = true
  owned : Owned d.player.filter.mask d.voices d.written

theorem written_queueWrites (d : Device) (ws : List RegisterWrite) :
    (d.queueWrites ws).written = d.written ++ ws.map .masked := by
  show d.chip.writes ++ (WriteQueue.addAll d.direct ws).toList = _
  rw [WriteQueue.toList_addAll, ← List.append_assoc]
  rfl

namespace Owning

theorem congr (h : d.Owning) (hmask : d'.player.filter.mask = d.player.filter.mask)
    (hvoices : d'.voices = d.voices) (hrecording : d'.chip.recording = d.chip.recording)
    (hwritten : d'.written = d.written) : d'.Owning where
  recording := hrecording.trans h.recording
  owned := by
    rw [hmask, hvoices, hwritten]
    exact h.owned

/-! ## The parts of a poll -/

/-- Direct writes leave their order when they go to the chip. -/
theorem ingested (h : d.Owning) : d.ingested.Owning := by
  obtain ⟨hwritten, hrecording⟩ := WriteQueue.writes_flush d.direct d.chip h.recording
  obtain ⟨active, window, samples, lastUploadError, stats, heq, -⟩ := d.ingested_eq
  rw [heq]
  exact h.congr rfl rfl (hrecording.trans h.recording.symm) hwritten

/-- An error releases every channel. -/
theorem fail (h : d.Owning) (e : PlayError) : (d.fail e).Owning := by
  have hmuted := h.owned.muteAll
  rcases hmute : d.voices.mute .all with ⟨voices, releases⟩
  rw [hmute] at hmuted
  have hfail : d.fail e =
      { d.stopPlayback with lastError := some e, voices }.queueWrites
        (releases ++ Silence.all) := by
    rw [Device.fail, hmute]
  have hwritten : (d.fail e).written =
      d.written ++ releases.map .masked ++ Silence.all.map .masked := by
    rw [hfail, written_queueWrites, List.map_append, ← List.append_assoc]
    rfl
  have hkeyless : ∀ w ∈ Silence.all.map RegisterWrite.masked, ∀ c, w.keys c = true →
      d.player.filter.mask.contains c = true := by
    intro w hw c hkeys
    rw [Silence.keys_all hw c] at hkeys
    cases hkeys
  have hsilenced := hmuted.append hkeyless
  refine ⟨?_, ?_⟩
  · rw [hfail]
    exact h.recording
  · rw [hwritten, hfail]
    exact hsilenced

/-- An update writes behind everything else, since no direct write waits. -/
theorem step (h : d.Owning) (hempty : d.direct.toList = []) : d.step.Owning := by
  obtain ⟨hmask, hrecording, ws, hwrites, hkeys⟩ :=
    d.player.logged_update d.window d.chip d.timer
  have hupdated (d₁ : Device)
      (hfilter : d₁.player.filter = (d.player.update d.window d.chip d.timer).player.filter)
      (hchip : d₁.chip = (d.player.update d.window d.chip d.timer).chip)
      (hvoices : d₁.voices = d.voices) (hdirect : d₁.direct = d.direct) : d₁.Owning := by
    have hwritten : d₁.written = d.written ++ ws := by
      unfold written
      rw [hchip, hdirect, hempty, hwrites, List.append_nil, List.append_nil]
    refine ⟨by rw [hchip, hrecording, h.recording], ?_⟩
    rw [hfilter, hmask, hvoices, hwritten]
    exact h.owned.append hkeys
  unfold Device.step
  dsimp only
  split
  · split
    · apply fail
      apply hupdated <;> rfl
    · apply hupdated <;> rfl
  · apply hupdated <;> rfl

theorem stepIfDue (h : d.Owning) : d.stepIfDue.Owning := by
  unfold Device.stepIfDue
  split
  · next hdue =>
    obtain ⟨-, hempty⟩ := Bool.and_eq_true_iff.mp hdue
    exact h.step ((Fifo.isEmpty_iff d.direct).mp hempty)
  · exact h

theorem sendMessages (h : d.Owning) : d.sendMessages.Owning := by
  obtain ⟨session, endpoint, outbox, stats, heq⟩ := sendUpTo_eq 2 d
  rw [Device.sendMessages, heq]
  exact h.congr rfl rfl rfl rfl

theorem startPlayback (h : d.Owning) : d.startPlayback.Owning := by
  have hmask := d.player.mask_begin d.window
  rcases hresult : d.player.begin d.window with ⟨e | _, q⟩
  · rw [hresult] at hmask
    have hbegun : (Device.Owning { d with
        player := q
        session := d.session.resetSequence
        outbox := Fifo.empty.push (.status Notification.playbackStarted) }) :=
      h.congr hmask rfl rfl rfl
    unfold Device.startPlayback
    rw [hresult]
    exact hbegun.fail e
  · rw [hresult] at hmask
    rw [startPlayback_of_ok hresult]
    exact h.congr hmask rfl rfl rfl

theorem startIfAsked (h : d.Owning) : d.startIfAsked.Owning := by
  unfold Device.startIfAsked
  dsimp only
  split
  · exact startPlayback (h.congr rfl rfl rfl rfl)
  · exact h.congr rfl rfl rfl rfl

theorem poll (h : d.Owning) : d.poll.Owning :=
  h.ingested.stepIfDue.sendMessages.startIfAsked

/-! ## Live control -/

/-- A change of the mask hands channels over. -/
theorem setMask (h : d.Owning) (mask : ChannelSet) : (d.setMask mask).Owning := by
  have howned := h.owned.setMask mask
  rcases hmute : d.voices.mute (mask.diff d.player.filter.mask) with ⟨voices, returned⟩
  rw [hmute] at howned
  have hset : d.setMask mask =
      { d.updateFilter (fun f => { f with mask }) with voices }.queueWrites
        ((d.player.filter.mask.diff mask).toList.flatMap Voices.release ++ returned) := by
    unfold Device.setMask
    dsimp only
    rw [show (d.updateFilter fun f => { f with mask }).voices = d.voices from rfl, hmute]
  refine ⟨?_, ?_⟩
  · rw [hset]
    exact h.recording
  · rw [hset, written_queueWrites]
    exact howned

/-- Writes that key nothing may always be queued. -/
theorem queueWrites (h : d.Owning) {ws : List RegisterWrite}
    (hws : ∀ w ∈ ws.map RegisterWrite.masked, ∀ c, w.keys c = false) :
    (d.queueWrites ws).Owning := by
  refine ⟨h.recording, ?_⟩
  rw [written_queueWrites]
  exact h.owned.append fun w hw c hkeys => absurd hkeys (by simp [hws w hw c])

theorem setPcmMuted (h : d.Owning) (on : Bool) : (d.setPcmMuted on).Owning := by
  have hupdated : ({ d with pcmMuted := on }.updateFilter
      fun f => { f with blocksPcmKeys := on }).Owning := h.congr rfl rfl rfl rfl
  unfold Device.setPcmMuted
  split
  · exact h
  · cases on with
    | true =>
      refine hupdated.queueWrites fun w hw c => Silence.keys_all ?_ c
      exact List.mem_of_mem_tail hw
    | false =>
      refine hupdated.queueWrites fun w hw c => ?_
      have haddress : Register.adpcmALevel &&& 0x1FF ≠ Register.fmKey := by decide
      obtain rfl := List.mem_singleton.mp hw
      exact RegisterWrite.keys_of_ne haddress c

theorem playNote (h : d.Owning) (on : Bool) (note : UInt8) : (d.playNote on note).Owning := by
  have howned := h.owned.keyAll on note
  rcases hkey : d.voices.keyAll d.player.filter.mask.complement on note with ⟨voices, writes⟩
  rw [hkey] at howned
  have hplay : d.playNote on note = { d with voices }.queueWrites writes := by
    rw [Device.playNote, hkey]
  refine ⟨?_, ?_⟩
  · rw [hplay]
    exact h.recording
  · rw [hplay, written_queueWrites]
    exact howned

theorem midiByte (h : d.Owning) (byte : UInt8) : (d.midiByte byte).Owning := by
  unfold Device.midiByte
  rcases d.midi.push byte with ⟨_ | message, midi⟩
  · exact h.congr rfl rfl rfl rfl
  · have hparsed : Device.Owning { d with midi } := h.congr rfl rfl rfl rfl
    cases message with
    | noteOn => exact hparsed.playNote true _
    | noteOff => exact hparsed.playNote false _
    | unsupported => exact hparsed

theorem live (h : d.Owning) (event : LiveEvent) : (d.live event).Owning := by
  cases event with
  | setMask mask => exact h.setMask mask
  | solo channel => exact h.setMask (.single channel)
  | unmuteAll =>
    have hall := h.setMask .all
    have hpitch : ((d.setMask .all).setPitchFilter false).Owning := hall.congr rfl rfl rfl rfl
    exact hpitch.setPcmMuted false
  | setPitchFilter on => exact h.congr rfl rfl rfl rfl
  | setPcmMuted on => exact h.setPcmMuted on
  | midi byte => exact h.midiByte byte

end Owning

/-! ## Runs -/

/-- The event leaves what the chip has kept alone. -/
def Event.KeepsWrites : Event → Prop
  | .chip change => ∀ chip, (change chip).kept = chip.kept ∧
    (change chip).recording = chip.recording
  | _ => True

theorem Owning.react (h : d.Owning) {e : Event} (hkeeps : e.KeepsWrites) : (d.react e).Owning := by
  cases e with
  | poll => exact h.poll
  | live event => exact h.live event
  | chip change =>
    obtain ⟨hkept, hrecording⟩ := hkeeps d.chip
    refine h.congr rfl rfl hrecording ?_
    show (change d.chip).kept.reverse ++ d.direct.toList = _
    rw [hkept]
    rfl
  | configure | control | push | read | time => exact h.congr rfl rfl rfl rfl

theorem Owning.run (h : d.Owning) {events : List Event} (hkeep : ∀ e ∈ events, e.KeepsWrites) :
    (d.run events).Owning :=
  List.foldlRecOn events Device.react h fun _ hd e he => hd.react (hkeep e he)

/-- At power-on nothing is written and no note sounds. -/
theorem owning_new (config : DeviceConfig) (accepts : Nat → Bool) (timer : Timer) :
    (Device.new config (.fresh accepts true) timer).Owning where
  recording := rfl
  owned := by
    have hsilent : ∀ c, Voices.silent.sounding c = none := by
      intro c
      by_cases hc : c < fmChannelCount
      · have hall : ∀ c < fmChannelCount, Voices.silent.sounding c = none := by decide
        exact hall c hc
      · exact Voices.sounding_eq_none _ (by omega)
    refine ⟨fun c _ => hsilent c, fun c _ => ?_⟩
    have hunkeyed : keyed [] c = false := rfl
    have hvoices : (Device.new config (.fresh accepts true) timer).voices = .silent := rfl
    rw [hvoices, hsilent c]
    exact hunkeyed

/-- Right after a note off, its note sounds nowhere. -/
theorem Owning.noteOff (h : d.Owning) {byte channel note velocity : UInt8}
    (hpush : (d.midi.push byte).1 = some (.noteOff channel note velocity)) (c : Nat) :
    (d.midiByte byte).voices.sounding c ≠ some note := by
  have hnote := MidiParser.note_of_push hpush
  have hvoices : (d.midiByte byte).voices =
      (d.voices.keyAll d.player.filter.mask.complement false note).1 := by
    unfold Device.midiByte
    rcases hparsed : d.midi.push byte with ⟨message, midi⟩
    rw [hparsed] at hpush
    replace hpush : message = some (.noteOff channel note velocity) := hpush
    rw [hpush]
    rfl
  rw [hvoices]
  intro hsounds
  refine Voices.sounding_keyOff d.voices d.player.filter.mask.complement note (c := c) ?_
    (by rw [hnote]; exact hsounds)
  intro hoff hsounds
  by_cases hc : c < fmChannelCount
  · -- a channel that is not free is the log's
    rw [ChannelSet.contains_complement hc, Bool.not_eq_false'] at hoff
    rw [h.owned.silent c hoff] at hsounds
    cases hsounds
  · rw [Voices.sounding_eq_none d.voices (by omega)] at hsounds
    cases hsounds

/-- The log and the keyboard share the FM channels by the mask, whatever the user plays, the host
sends and the chip refuses. After any run, whose writes are those that the chip has kept followed by
those that wait:

* no note is recorded for a channel of the mask;
* a channel outside the mask is keyed by the last write for it exactly if a note is recorded for it;
* when the next byte of the keyboard completes a note off, its note is recorded for no channel
  afterwards. -/
theorem channels_owned (config : DeviceConfig) (accepts : Nat → Bool) (timer : Timer)
    (events : List Event) (hkeep : ∀ e ∈ events, e.KeepsWrites) :
    let d := (Device.new config (.fresh accepts true) timer).run events
    (∀ c, d.player.filter.mask.contains c = true → d.voices.sounding c = none) ∧
    (∀ c, d.player.filter.mask.contains c = false →
      (keyed d.written c = true ↔ ∃ note, d.voices.sounding c = some note)) ∧
    ∀ byte channel note velocity,
      (d.midi.push byte).1 = some (.noteOff channel note velocity) →
      ∀ c, (d.react (.live (.midi byte))).voices.sounding c ≠ some note := by
  intro d
  have howning : d.Owning := (owning_new config accepts timer).run hkeep
  refine ⟨howning.owned.silent, fun c hc => ?_, fun byte channel note velocity hpush => ?_⟩
  · rw [howning.owned.keyed c hc]
    exact Option.isSome_iff_exists
  · exact howning.noteOff hpush

/-- Note 60 is played on all channels but the first. While the chip is busy the log gets the second
instead, and the note off lacks its last byte. -/
def handedOver : List Event :=
  [.live (.setMask (.single 0)), .live (.midi 0x90), .live (.midi 60), .live (.midi 100),
    .chip (·.setBusy true), .poll, .live (.solo 1), .live (.midi 0x80), .live (.midi 60)]

theorem channels_owned_handedOver :
    let d := (Device.new {} (.fresh (fun _ => true) true) { manual := true }).run handedOver
    d.voices.sounding 1 = none ∧ keyed d.written 2 = true ∧ ¬ keyed d.written 0 = true ∧
      ∀ c, (d.react (.live (.midi 0))).voices.sounding c ≠ some 60 := by
  intro d
  have hkeep : ∀ e ∈ handedOver, e.KeepsWrites := by
    simp [handedOver, Event.KeepsWrites, Recorder.setBusy]
  obtain ⟨hsilent, hkeyed, hoff⟩ :=
    channels_owned {} (fun _ => true) { manual := true } handedOver hkeep
  have hmask : d.player.filter.mask = .single 1 := rfl
  have hlog : (ChannelSet.single 1).contains 1 = true := by decide
  have hfree :
      (ChannelSet.single 1).contains 2 = false ∧ (ChannelSet.single 1).contains 0 = false := by
    decide
  have hsounds : d.voices.sounding 2 = some 60 ∧ d.voices.sounding 0 = none := ⟨rfl, rfl⟩
  have hpush : (d.midi.push 0).1 = some (.noteOff 0 60 0) := rfl
  refine ⟨hsilent 1 hlog, (hkeyed 2 hfree.1).mpr ⟨60, hsounds.1⟩, fun hkeyed₀ => ?_,
    hoff 0 0 60 0 hpush⟩
  obtain ⟨note, hnote⟩ := (hkeyed 0 hfree.2).mp hkeyed₀
  exact absurd (hsounds.2.symm.trans hnote) (Option.some_ne_none note ∘ Eq.symm)

end Device
end ChipReplay
