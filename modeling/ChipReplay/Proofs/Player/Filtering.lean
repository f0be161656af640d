import ChipReplay.Proofs.Player.Signals
/-!
# The filter does not steer the log

Muting by hand decides which writes of the log reach the chip, and nothing else. Two players that
differ in their filters only (`Player.SameLog`), in front of chips that answer alike
(`Recorder.SameAnswers`), deal with a command alike (`same_turn`), and stay so through updates
(`same_update`) and through whatever happens between them, other changes of the filters included
(`Playback.filter_keeps_progress`).
-/

namespace ChipReplay

/-! ## Chips and players that are alike -/

/-- Both chips were asked as often, and go on to answer alike. What they have kept may differ. -/
structure Recorder.SameAnswers (chip chip' : Recorder) : Prop where
  accepts : chip'.accepts = chip.accepts
  checks : chip'.checks = chip.checks
  busy : chip'.busy = chip.busy

/-- The players differ in their filters only. -/
def Player.SameLog (p p' : Player) : Prop := p' = { p with filter := p'.filter }

namespace Recorder.SameAnswers

variable {chip chip' : Recorder}

theorem ready (h : chip.SameAnswers chip') :
    chip'.ready.1 = chip.ready.1 ∧ chip.ready.2.SameAnswers chip'.ready.2 := by
  unfold Recorder.ready
  rw [h.busy]
  split
  · exact ⟨rfl, h⟩
  · dsimp only
    rw [h.accepts, h.checks]
    exact ⟨rfl, rfl, rfl, rfl⟩

theorem of_write (chip : Recorder) (w : RegisterWrite) : chip.SameAnswers (chip.write w) := by
  unfold Recorder.write
  split <;> exact ⟨rfl, rfl, rfl⟩

theorem symm (h : chip.SameAnswers chip') : chip'.SameAnswers chip :=
  ⟨h.accepts.symm, h.checks.symm, h.busy.symm⟩

theorem trans {chip'' : Recorder} (h : chip.SameAnswers chip') (h' : chip'.SameAnswers chip'') :
    chip.SameAnswers chip'' :=
  ⟨h'.accepts.trans h.accepts, h'.checks.trans h.checks, h'.busy.trans h.busy⟩

end Recorder.SameAnswers

namespace Player

variable {p p' : Player} {w : Window} {chip chip' : Recorder}

/-- Emitting a write asks a chip nothing. -/
theorem sameAnswers_emit (p : Player) (chip : Recorder) (port : Port) (register data : UInt8) :
    chip.SameAnswers (p.emit chip port register data).2 := by
  rw [emit_snd]
  split
  · exact .of_write chip _
  · exact ⟨rfl, rfl, rfl⟩

namespace SameLog

theorem past (h : p.SameLog p') : p.past.SameLog p'.past := by
  rw [h]
  unfold SameLog
  rw [past_eq, past_eq]
  rfl

theorem endStream (h : p.SameLog p') : p.endStream.SameLog p'.endStream := by
  rw [h]
  unfold SameLog
  rw [endStream_eq, endStream_eq]
  dsimp only
  split <;> rfl

theorem retune (h : p.SameLog p') (f g : ChannelFilter) :
    SameLog { p with filter := f } { p' with filter := g } := by
  rw [h]
  rfl

theorem fail (h : p.SameLog p') : p.fail.SameLog p'.fail := by
  rw [h]
  rfl

theorem position (h : p.SameLog p') : p'.position = p.position := by rw [h]

theorem peek (h : p.SameLog p') : p'.peek w = p.peek w := by
  rw [h]
  rfl

theorem takeRequest (h : p.SameLog p') :
    p'.takeRequest.1 = p.takeRequest.1 ∧ p.takeRequest.2.SameLog p'.takeRequest.2 := by
  rw [h]
  unfold Player.takeRequest
  dsimp only
  split <;> exact ⟨rfl, rfl⟩

end SameLog

/-! ## Turns and updates -/

/-- Whatever the filters let through, emitting a write keeps what both share. -/
theorem same_emit (h : p.SameLog p') (hchip : chip.SameAnswers chip') (port : Port)
    (register data : UInt8) :
    (p.emit chip port register data).1.SameLog (p'.emit chip' port register data).1 ∧
      (p.emit chip port register data).2.SameAnswers (p'.emit chip' port register data).2 := by
  refine ⟨?_, ?_⟩
  · rw [emit_fst, emit_fst]
    exact h.retune _ _
  · exact (sameAnswers_emit p chip port register data).symm.trans
      (hchip.trans (sameAnswers_emit p' chip' port register data))

/-- Both players play the command that they look at alike. -/
theorem same_step (h : p.SameLog p') (hchip : chip.SameAnswers chip') :
    (p'.step w chip').1 = (p.step w chip).1 ∧
      (p.step w chip).2.1.SameLog (p'.step w chip').2.1 ∧
      (p.step w chip).2.2.SameAnswers (p'.step w chip').2.2 := by
  have hop : p'.opcode w = p.opcode w := congrArg Opcode.ofByte h.peek
  have hoffset : p'.streamOffset = p.streamOffset := by rw [h]; rfl
  rw [step_eq, step_eq, hop, h.peek, h.past.peek, h.past.past.peek, hoffset]
  cases p.opcode w with
  | write port =>
    dsimp only
    exact ⟨rfl, same_emit h.past.past.past hchip port _ _⟩
  | wait => exact ⟨rfl, h.past.past.past, hchip⟩
  | endOfStream => exact ⟨rfl, h.past.endStream, hchip⟩
  | pause | dataBlock | unknown => exact ⟨rfl, h.past, hchip⟩

theorem same_askChip (h : p.SameLog p') (hchip : chip.SameAnswers chip') :
    (p'.askChip w chip').1 = (p.askChip w chip).1 ∧
      (p.askChip w chip).2.SameAnswers (p'.askChip w chip').2 := by
  have hop : p'.opcode w = p.opcode w := congrArg Opcode.ofByte h.peek
  unfold askChip
  rw [hop]
  split
  · exact hchip.ready
  · exact ⟨rfl, hchip⟩

/-- Both players deal with the command that they look at alike. -/
theorem same_turn (h : p.SameLog p') (hchip : chip.SameAnswers chip') :
    (p'.turn w chip').1 = (p.turn w chip).1 ∧
      (p.turn w chip).2.1.SameLog (p'.turn w chip').2.1 ∧
      (p.turn w chip).2.2.SameAnswers (p'.turn w chip').2.2 := by
  have hop : p'.opcode w = p.opcode w := congrArg Opcode.ofByte h.peek
  have hregion : p'.position.region = p.position.region := by rw [h.position]
  have hask := same_askChip (w := w) h hchip
  unfold turn
  rw [hop, hregion]
  generalize p.askChip w chip = asked, p'.askChip w chip' = asked' at hask ⊢
  obtain ⟨answer, chip₁⟩ := asked
  obtain ⟨answer', chip₁'⟩ := asked'
  obtain ⟨rfl, hchip₁⟩ : answer' = answer ∧ chip₁.SameAnswers chip₁' := hask
  cases answer' with
  | false => exact ⟨rfl, h, hchip₁⟩
  | true =>
    have hstep := same_step (w := w) h hchip₁
    dsimp only
    generalize p.step w chip₁ = stepped, p'.step w chip₁' = stepped' at hstep ⊢
    obtain ⟨result, q, chip₂⟩ := stepped
    obtain ⟨result', q', chip₂'⟩ := stepped'
    obtain ⟨rfl, hplayer, hchip₂⟩ : result' = result ∧ q.SameLog q' ∧ chip₂.SameAnswers chip₂' :=
      hstep
    have hposition := hplayer.position
    cases result' with
    | error e => exact ⟨rfl, hplayer.fail, hchip₂⟩
    | ok delay =>
      dsimp only
      rw [hposition]
      exact ⟨rfl, hplayer, hchip₂⟩

/-- What the log tries does not depend on the filter. -/
theorem same_played (h : p.SameLog p') (hchip : chip.SameAnswers chip') :
    played? w (p', chip') = played? w (p, chip) := by
  have hop : p'.opcode w = p.opcode w := congrArg Opcode.ofByte h.peek
  have hoffset : p'.streamOffset = p.streamOffset := by rw [h]; rfl
  unfold played? command?
  rw [hop, hoffset, h.peek, h.past.peek, h.past.past.peek, (same_askChip h hchip).1]

theorem same_playUpTo (limit : Nat) (timer : Timer) (h : p.SameLog p')
    (hchip : chip.SameAnswers chip') :
    let r := playUpTo w limit p chip timer
    let r' := playUpTo w limit p' chip' timer
    r'.1 = r.1 ∧ r.2.1.SameLog r'.2.1 ∧ r.2.2.1.SameAnswers r'.2.2.1 ∧ r'.2.2.2 = r.2.2.2 ∧
      commandsUpTo w limit p' chip' = commandsUpTo w limit p chip := by
  induction limit generalizing p p' chip chip' with
  | zero => exact ⟨rfl, h, hchip, rfl, rfl⟩
  | succ limit ih =>
    have hturn := same_turn (w := w) h hchip
    dsimp only
    rw [playUpTo_succ, playUpTo_succ, commandsUpTo_succ, commandsUpTo_succ, same_played h hchip]
    generalize p.turn w chip = t, p'.turn w chip' = t' at hturn ⊢
    obtain ⟨ending, q, chip₁⟩ := t
    obtain ⟨ending', q', chip₁'⟩ := t'
    obtain ⟨rfl, hplayer, hchip₁⟩ : ending' = ending ∧ q.SameLog q' ∧ chip₁.SameAnswers chip₁' :=
      hturn
    cases ending' with
    | proceeds =>
      obtain ⟨houtcome, hplayer', hchip', htimer, hcommands⟩ := ih hplayer hchip₁
      exact ⟨houtcome, hplayer', hchip', htimer, congrArg _ hcommands⟩
    | busy | waits | yields | fails => exact ⟨rfl, hplayer, hchip₁, rfl, rfl⟩

/-- Both players are updated alike, and the log tries the same commands. -/
theorem same_update (timer : Timer) (h : p.SameLog p') (hchip : chip.SameAnswers chip') :
    let u := p.update w chip timer
    let u' := p'.update w chip' timer
    u'.outcome = u.outcome ∧ u'.request = u.request ∧ u.player.SameLog u'.player ∧
      u.chip.SameAnswers u'.chip ∧ u'.timer = u.timer ∧
      p'.commands w chip' = p.commands w chip := by
  have hphase : p'.phase = p.phase ∧ p'.started = p.started := by rw [h]; exact ⟨rfl, rfl⟩
  have hlimit : p'.commandLimit = p.commandLimit := by rw [h]; rfl
  have hplay := same_playUpTo p.commandLimit timer h hchip (w := w)
  unfold update commands visits
  rw [hphase.1, hphase.2, hlimit]
  split
  · obtain ⟨houtcome, hplayer, hchip', htimer, hcommands⟩ := hplay
    obtain ⟨hrequest, hrest⟩ := hplayer.takeRequest
    exact ⟨houtcome, hrequest, hrest, hchip', htimer, hcommands⟩
  · exact ⟨rfl, rfl, h, hchip, rfl, rfl⟩

end Player

/-! ## Runs -/

namespace Playback

/-- What may happen to a player with its window and its chip. -/
inductive Action where
  /-- The player is updated. -/
  | update
  /-- The window becomes another one. -/
  | buffer (w : Window)
  /-- The oldest refill that was asked for is picked up. -/
  | take
  /-- The filter is changed. -/
  | retune (change : ChannelFilter → ChannelFilter)

/-- Both actions are the same, or each changes the filter in its own way. -/
inductive Action.Matches : Action → Action → Prop
  | same (a : Action) : Matches a a
  | retune (change change' : ChannelFilter → ChannelFilter) :
    Matches (.retune change) (.retune change')

/-- The playback after an action. -/
def act (g : Playback) : Action → Playback
  | .update => g.update.2.2
  | .buffer window => { g with window }
  | .take => { g with player := g.player.takeRequest.2 }
  | .retune change => { g with player := { g.player with filter := change g.player.filter } }

/-- The playback after the actions, one after the other. -/
def acts (g : Playback) (actions : List Action) : Playback := actions.foldl act g

/-- What an action reports: how an update ended, and the refill that is handed out. -/
def reported (g : Playback) : Action → Option Player.Outcome × Option Refill
  | .update => (some g.update.1, g.update.2.1)
  | .take => (none, g.player.takeRequest.1)
  | .buffer _ | .retune _ => (none, none)

/-- The register writes that the log tries in an action, in order. -/
def tried (g : Playback) : Action → List RegisterWrite
  | .update => registerWrites g.commands
  | .buffer _ | .take | .retune _ => []

/-- Those of them that the filter allows. -/
def allowed (g : Playback) (a : Action) : List RegisterWrite :=
  (g.tried a).filter g.player.filter.allows

/-- `view` of each of the actions, in order. -/
def along {α : Type} (view : Playback → Action → α) (g : Playback) : List Action → List α
  | [] => []
  | a :: actions => view g a :: (g.act a).along view actions

/-- The playbacks differ in their filters, and in what their chips have kept. -/
structure Twins (g h : Playback) : Prop where
  player : g.player.SameLog h.player
  window : h.window = g.window
  chip : g.chip.SameAnswers h.chip
  timer : h.timer = g.timer

variable {g h : Playback} {a b : Action} {as bs : List Action}

/-- Both go on alike. -/
theorem Twins.act (htwins : g.Twins h) (hmatch : a.Matches b) :
    (g.act a).Twins (h.act b) ∧ h.reported b = g.reported a ∧ h.tried b = g.tried a := by
  cases hmatch with
  | retune change change' =>
    exact ⟨⟨htwins.player.retune _ _, htwins.window, htwins.chip, htwins.timer⟩, rfl, rfl⟩
  | same =>
    cases a with
    | update =>
      obtain ⟨houtcome, hrequest, hplayer, hchip, htimer, hcommands⟩ :=
        Player.same_update g.timer htwins.player htwins.chip (w := g.window)
      unfold Playback.act reported tried Playback.update Playback.commands
      rw [htwins.window, htwins.timer]
      exact ⟨⟨hplayer, rfl, hchip, htimer⟩, Prod.ext (congrArg some houtcome) hrequest,
        congrArg registerWrites hcommands⟩
    | buffer window =>
      exact ⟨⟨htwins.player, rfl, htwins.chip, htwins.timer⟩, rfl, rfl⟩
    | take =>
      obtain ⟨hrequest, hplayer⟩ := htwins.player.takeRequest
      exact ⟨⟨hplayer, htwins.window, htwins.chip, htwins.timer⟩, congrArg _ hrequest, rfl⟩
    | retune change =>
      exact ⟨⟨htwins.player.retune _ _, htwins.window, htwins.chip, htwins.timer⟩, rfl, rfl⟩

theorem Twins.acts (htwins : g.Twins h) (hmatch : List.Forall₂ Action.Matches as bs) :
    (g.acts as).Twins (h.acts bs) ∧ h.along reported bs = g.along reported as ∧
      h.along tried bs = g.along tried as := by
  induction hmatch generalizing g h with
  | nil => exact ⟨htwins, rfl, rfl⟩
  | cons hfirst _ ih =>
    obtain ⟨hnext, hreported, htried⟩ := htwins.act hfirst
    obtain ⟨hlast, hreports, htries⟩ := ih hnext
    refine ⟨hlast, ?_, ?_⟩
    · rw [along, along, hreported, hreports]
    · rw [along, along, htried, htries]

/-- A chip that records keeps what its filter allows. -/
theorem writes_act (hrecording : g.chip.recording = true) (a : Action) :
    (g.act a).chip.writes = g.chip.writes ++ g.allowed a ∧ (g.act a).chip.recording = true := by
  cases a with
  | update =>
    have hlogged := g.player.logged_update g.window g.chip g.timer
    exact ⟨g.player.writes_update g.window g.chip g.timer hrecording,
      hlogged.recording.trans hrecording⟩
  | buffer | take | retune => exact ⟨(List.append_nil _).symm, hrecording⟩

theorem writes_acts (hrecording : g.chip.recording = true) (as : List Action) :
    (g.acts as).chip.writes = g.chip.writes ++ (g.along allowed as).flatten := by
  induction as generalizing g with
  | nil => exact (List.append_nil _).symm
  | cons a as ih =>
    obtain ⟨hwrites, hkept⟩ := writes_act hrecording a
    show ((g.act a).acts as).chip.writes = _
    rw [ih hkept, hwrites, List.append_assoc]
    rfl

/-- Filtering by hand never alters the progress of the log. Let two players differ in their filters
only, and let their chips, which record, answer readiness checks alike. Let both be updated, have
their windows changed and their refills picked up alike, while each filter is changed in its own way
at any time. Then:

* both report the same: how each update ends, and which refills are handed out;
* both are where they were together: only their filters differ;
* the log tries the same writes in each update, and each chip has kept, behind what it had, those of
  them that its own filter allowed at the time. -/
theorem filter_keeps_progress (htwins : g.Twins h) (hrecording : g.chip.recording = true)
    (hrecording' : h.chip.recording = true) (hmatch : List.Forall₂ Action.Matches as bs) :
    h.along reported bs = g.along reported as ∧
    (h.acts bs).player = { (g.acts as).player with filter := (h.acts bs).player.filter } ∧
    (h.acts bs).timer = (g.acts as).timer ∧
    h.along tried bs = g.along tried as ∧
    (g.acts as).chip.writes = g.chip.writes ++ (g.along allowed as).flatten ∧
    (h.acts bs).chip.writes = h.chip.writes ++ (h.along allowed bs).flatten := by
  obtain ⟨hlast, hreported, htried⟩ := htwins.acts hmatch
  exact ⟨hreported, hlast.player, hlast.timer, htried, writes_acts hrecording as,
    writes_acts hrecording' bs⟩

/-- A short stream that is played, with a filter of its own. -/
def framePlayback (filter : ChannelFilter) : Playback where
  stream := frameStream
  window := frameWindow
  player := { framePlayer with filter }
  chip := (Recorder.fresh (Recorder.refuseEvery 3) true).setReset false
  timer := { manual := true }

/-- One player has all channels and loses them, the other has none and gets them. -/
theorem filter_keeps_progress_frame :
    let nothing : ChannelFilter := { ChannelFilter.initial with mask := ChannelSet.all.complement }
    let g := framePlayback .initial
    let h := framePlayback nothing
    let as := [.update, .retune fun _ => nothing, .take, .update]
    let bs := [.update, .retune fun _ => .initial, .take, .update]
    h.along reported bs = g.along reported as ∧
      (h.acts bs).player.position = (g.acts as).player.position := by
  intro nothing g h as bs
  have htwins : g.Twins h := ⟨rfl, rfl, ⟨rfl, rfl, rfl⟩, rfl⟩
  have hmatch : List.Forall₂ Action.Matches as bs :=
    .cons (.same _) (.cons (.retune _ _) (.cons (.same _) (.cons (.same _) .nil)))
  obtain ⟨hreported, hplayer, -⟩ := filter_keeps_progress htwins rfl rfl hmatch
  exact ⟨hreported, Player.SameLog.position hplayer⟩

end Playback
end ChipReplay
