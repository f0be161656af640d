import ChipReplay.Proofs.Upload.Delivery
/-!
# A playback start waits for its upload

The host asks for a playback on another pipe than the one that the stream comes in by, so the
request may be ahead of the packets. The session holds it back while an upload is active. A start
that is asked for either waits or has come (`Device.startPending_run`), and it comes at the first
poll that finds it waiting and the upload complete: that poll ends with `startPlayback`, and every
other one without (`Device.run_poll`). With `Receiving` on the other side, the window that the
player then begins with holds the whole upload (`Device.start_follows_upload`).
-/

namespace ChipReplay
namespace Device

/-! ## Starts -/

/-- Whether the host asks for a playback in an event. -/
def Event.asksStart : Event → Bool
  | .control setup data =>
    match Request.decode setup data with
    | .ok (some .startPlayback) => true
    | _ => false
  | _ => false

theorem Event.asksStart_control (setup : Setup) (data : ByteArray) :
    (Event.control setup data).asksStart = true ↔
      Request.decode setup data = .ok (some .startPlayback) := by
  show (match Request.decode setup data with
    | .ok (some .startPlayback) => true
    | _ => false) = true ↔ _
  split
  · next hasks => exact iff_of_true rfl hasks
  · next hother => exact iff_of_false Bool.false_ne_true hother

/-- The window that a playback begins with, if one is started in an event. -/
def startedBy (d : Device) : Event → Option Window
  | .poll =>
    let sent := d.ingested.stepIfDue.sendMessages
    if sent.session.takeStart.1 then some sent.window else none
  | _ => none

/-- The windows that playbacks begin with during the events, one for each start. -/
def startsIn (d : Device) : List Event → List Window
  | [] => []
  | e :: events => (d.startedBy e).toList ++ (d.react e).startsIn events

/-- A poll up to the place where it would start a playback. A request that does not wait for an
upload has been taken. -/
def untilStart (d : Device) : Device :=
  let sent := d.ingested.stepIfDue.sendMessages
  { sent with session := sent.session.takeStart.2 }

/-- The poll after the events `first` ends with the start of a playback: the player is told to
begin with `w`, which is the window at that time, and the refills that it asks for go out after the
status report. -/
def StartsAfter (d : Device) (first : List Event) (w : Window) : Prop :=
  let sent := (d.run first).untilStart
  let polled := d.run (first ++ [.poll])
  sent.window = w ∧ polled = sent.startPlayback ∧
    polled.player = { (sent.player.begin w).2 with requests := .empty } ∧
    polled.outbox.toList = .status Notification.playbackStarted ::
      (sent.player.begin w).2.requests.toList.map .refill

variable {d : Device} {e : Event} {events : List Event} {w : Window}

/-- A poll that starts a playback ends with the start. -/
theorem poll_of_started (h : d.startedBy .poll = some w) :
    d.untilStart.window = w ∧ d.poll = d.untilStart.startPlayback := by
  unfold startedBy at h
  dsimp only at h
  split at h
  · next hasked =>
    refine ⟨Option.some.inj h, ?_⟩
    rw [poll_eq, startIfAsked]
    dsimp only
    rw [if_pos hasked]
    rfl
  · exact absurd h (by simp)

/-- A poll that starts none ends with the messages. -/
theorem poll_of_not_started (h : d.startedBy .poll = none) : d.poll = d.untilStart := by
  unfold startedBy at h
  dsimp only at h
  split at h
  · exact absurd h (by simp)
  · next hasked =>
    rw [poll_eq, startIfAsked]
    dsimp only
    rw [if_neg hasked]
    rfl

/-- A player that cannot begin asks for nothing. -/
theorem requests_of_begin_error {p q : Player} {e : PlayError} (h : p.begin w = (.error e, q)) :
    q.requests = .empty := by
  unfold Player.begin at h
  dsimp only at h
  split at h
  · exact (congrArg (·.2.requests) h).symm
  · exact absurd (congrArg Prod.fst h) (by simp)

theorem startRefills_eq (d : Device) :
    d.startRefills = (d.player.begin d.window).2.requests.toList := by
  unfold startRefills
  rcases hresult : d.player.begin d.window with ⟨e | _, q⟩
  · dsimp only
    rw [requests_of_begin_error hresult]
    rfl
  · rfl

/-- A start is the player's own, with the window: what it asks for is in the outbox behind the
status report, also if it asks for nothing because the header is refused. -/
theorem startPlayback_begins (d : Device) :
    d.startPlayback.player = { (d.player.begin d.window).2 with requests := .empty } ∧
    d.startPlayback.outbox.toList = .status Notification.playbackStarted ::
      (d.player.begin d.window).2.requests.toList.map .refill := by
  refine ⟨?_, by rw [d.startPlayback_outbox.1, startRefills_eq]⟩
  rcases hresult : d.player.begin d.window with ⟨e | _, q⟩
  · obtain ⟨active, voices, direct, lastError, heq⟩ := startPlayback_of_error hresult
    rw [heq, ← requests_of_begin_error hresult]
  · rw [startPlayback_of_ok hresult]

theorem startsIn_append (d : Device) (first later : List Event) :
    d.startsIn (first ++ later) = d.startsIn first ++ (d.run first).startsIn later := by
  induction first generalizing d with
  | nil => rfl
  | cons e first ih =>
    show _ ++ (d.react e).startsIn (first ++ later) = _
    rw [ih, ← List.append_assoc]
    rfl

/-- What a poll that starts a playback leaves. -/
theorem startsAfter_of_started {first : List Event}
    (h : (d.run first).startedBy .poll = some w) : d.StartsAfter first w := by
  obtain ⟨rfl, hpoll⟩ := poll_of_started h
  have hrun : d.run (first ++ [.poll]) = (d.run first).untilStart.startPlayback :=
    (run_append d first [.poll]).trans hpoll
  obtain ⟨hplayer, houtbox⟩ := (d.run first).untilStart.startPlayback_begins
  exact ⟨rfl, hrun, hrun ▸ hplayer, hrun ▸ houtbox⟩

/-- A poll ends with the start of a playback if there is one more, and otherwise without. -/
theorem run_poll (d : Device) (first : List Event) :
    (∃ w, d.startsIn (first ++ [.poll]) = d.startsIn first ++ [w] ∧ d.StartsAfter first w) ∨
    (d.startsIn (first ++ [.poll]) = d.startsIn first ∧
      d.run (first ++ [.poll]) = (d.run first).untilStart) := by
  rw [startsIn_append]
  show (∃ w, _ ++ (((d.run first).startedBy .poll).toList ++ []) = _ ∧ _) ∨
    _ ++ (((d.run first).startedBy .poll).toList ++ []) = _ ∧ _
  cases hstarted : (d.run first).startedBy .poll with
  | some w => exact .inl ⟨w, rfl, startsAfter_of_started hstarted⟩
  | none =>
    exact .inr ⟨List.append_nil _, (run_append d first _).trans (poll_of_not_started hstarted)⟩

/-- Each start is that of a poll. -/
theorem exists_of_mem_startsIn (h : w ∈ d.startsIn events) :
    ∃ first later, events = first ++ .poll :: later ∧ (d.run first).startedBy .poll = some w := by
  induction events generalizing d with
  | nil => exact absurd h List.not_mem_nil
  | cons e events ih =>
    rcases List.mem_append.mp h with hnow | hlater
    · have hstarted : d.startedBy e = some w := Option.mem_toList.mp hnow
      cases e with
      | poll => exact ⟨[], events, rfl, hstarted⟩
      | configure | control | push | read | live | time | chip =>
        exact absurd hstarted (by simp [startedBy])
    · obtain ⟨first, later, rfl, hstarted⟩ := ih hlater
      exact ⟨e :: first, later, rfl, hstarted⟩

/-! ## A start that waits -/

theorem startPending_sent (d : Device) :
    d.ingested.stepIfDue.sendMessages.session.startPending = d.session.startPending := by
  obtain ⟨-, hsession, -⟩ := d.ingested.stepIfDue_outbox
  obtain ⟨-, -, hsent⟩ := d.ingested.stepIfDue.sendMessages_upcoming
  rw [hsent, hsession, d.quiet_ingested.startPending]

theorem active_startIfAsked (d : Device) : d.startIfAsked.session.active = d.session.active :=
  (sameUpload_startIfAsked d).session.active

/-- Whether a start waits after a poll: it does as long as the upload is active. -/
theorem startPending_startIfAsked (d : Device) :
    d.startIfAsked.session.startPending = (d.session.active && d.session.startPending) := by
  have hstart : d.startIfAsked.session.startPending = d.session.takeStart.2.startPending := by
    unfold startIfAsked
    dsimp only
    split
    · obtain ⟨-, hsession, -⟩ := startPlayback_outbox { d with session := d.session.takeStart.2 }
      rw [hsession]
      rfl
    · rfl
  rw [hstart, Session.takeStart]
  cases d.session.active <;> rfl

/-- After a poll that leaves no upload active, no start waits. -/
theorem startPending_poll (h : d.poll.session.active = false) :
    d.poll.session.startPending = false := by
  rw [poll_eq, active_startIfAsked] at h
  rw [poll_eq, startPending_startIfAsked, h]
  rfl

/-- A playback starts when no upload is active, with the window that the poll leaves. -/
theorem started_poll (h : d.startedBy .poll = some w) :
    d.poll.session.active = false ∧ d.poll.window = w := by
  unfold startedBy at h
  dsimp only at h
  split at h
  · next hasked =>
    rw [poll_eq, active_startIfAsked, (startIfAsked_stores _).1]
    refine ⟨?_, Option.some.inj h⟩
    unfold Session.takeStart at hasked
    split at hasked
    · exact absurd hasked Bool.false_ne_true
    · next hinactive => exact eq_false_of_ne_true hinactive
  · exact absurd h (by simp)

/-- A start that waited before an event, or is asked for in it, has come or waits. -/
theorem startPending_react (hkeeps : e.KeepsUpload) :
    (d.react e).session.startPending.toNat + (d.startedBy e).toList.length =
      if e.asksStart then 1 else d.session.startPending.toNat := by
  cases e with
  | configure => exact hkeeps.elim
  | control setup data =>
    have hasks := Event.asksStart_control setup data
    show (d.session.control d.endpoint setup data).2.1.startPending.toNat + 0 = _
    by_cases hstart : Request.decode setup data = .ok (some .startPlayback)
    · rw [if_pos (hasks.mpr hstart), Session.control, hstart]
      rfl
    · rw [if_neg (hstart ∘ hasks.mp), (d.session.uploads_control d.endpoint hstart).startPending]
      rfl
  | poll =>
    show d.poll.session.startPending.toNat + (d.startedBy .poll).toList.length = _
    rw [poll_eq, startPending_startIfAsked, startPending_sent]
    unfold startedBy Session.takeStart
    dsimp only
    rw [startPending_sent]
    -- with an upload active what waits goes on waiting, without one it comes
    cases d.ingested.stepIfDue.sendMessages.session.active with
    | true => rfl
    | false => cases d.session.startPending <;> rfl
  | live event => rw [react, (d.quiet_live event).startPending]; rfl
  | push | read | time | chip => rfl

/-- What waited and what is asked for has come or waits, as long as it is one start at most. -/
theorem startPending_run (hkeep : ∀ e ∈ events, e.KeepsUpload)
    (honce : d.session.startPending.toNat + events.countP Event.asksStart ≤ 1) :
    (d.run events).session.startPending.toNat + (d.startsIn events).length =
      d.session.startPending.toNat + events.countP Event.asksStart := by
  induction events generalizing d with
  | nil => rfl
  | cons e events ih =>
    obtain ⟨hkeeps, hkeep⟩ := List.forall_mem_cons.mp hkeep
    have hreact := startPending_react (d := d) hkeeps
    rw [List.countP_cons] at honce ⊢
    have hrun : (d.react e).session.startPending.toNat + events.countP Event.asksStart ≤ 1 → _ :=
      ih hkeep
    show ((d.react e).run events).session.startPending.toNat +
      ((d.startedBy e).toList ++ (d.react e).startsIn events).length = _
    rw [List.length_append]
    cases hasks : e.asksStart with
    | true =>
      rw [hasks, if_pos rfl] at hreact honce
      rw [if_pos rfl]
      have hlater := hrun (by omega)
      omega
    | false =>
      rw [hasks, if_neg Bool.false_ne_true] at hreact honce
      rw [if_neg Bool.false_ne_true]
      have hlater := hrun (by omega)
      omega

/-- A start waits only while an upload is active. -/
def Held (d : Device) : Prop := d.session.active = false → d.session.startPending = false

/-- Polls leave no other start waiting, and nothing else but the request adds one. -/
theorem Held.react (h : d.Held) (hkeeps : e.KeepsUpload) (hasks : e.asksStart = false) :
    (d.react e).Held := by
  have hsame (hpoll : e.isPoll = false) (hactive : (d.react e).session.active = d.session.active) :
      (d.react e).Held := by
    have hnone : d.startedBy e = none := by
      cases e <;> first | rfl | exact absurd hpoll (by simp [Event.isPoll])
    have hpending := startPending_react (d := d) hkeeps
    rw [hnone, hasks, if_neg Bool.false_ne_true] at hpending
    intro hinactive
    rw [h (hactive.symm.trans hinactive)] at hpending
    exact Bool.toNat_eq_zero.mp hpending
  cases e with
  | poll => exact startPending_poll
  | push p => exact hsame rfl rfl
  | configure | control | read | live | time | chip =>
    exact hsame rfl (sameUpload_react hkeeps rfl rfl).1.session.active

theorem Held.run (h : d.Held) (hkeep : ∀ e ∈ events, e.KeepsUpload)
    (hasks : ∀ e ∈ events, e.asksStart = false) : (d.run events).Held :=
  List.foldlRecOn events Device.react h fun _ hd e he => hd.react (hkeep e he) (hasks e he)

/-- A poll sees to that, if no start is asked for from then on. -/
theorem held_of_polled (hkeep : ∀ e ∈ events, e.KeepsUpload)
    (hasks : ∀ e ∈ events, e.asksStart = false) (hpolled : 1 ≤ events.countP Event.isPoll) :
    (d.run events).Held := by
  obtain ⟨e, he, hpoll⟩ := List.countP_pos_iff.mp hpolled
  obtain rfl : e = .poll := by
    cases e <;> first | rfl | exact absurd hpoll (by simp [Event.isPoll])
  obtain ⟨first, last, rfl⟩ := List.append_of_mem he
  have hlast : ∀ e ∈ last, e ∈ first ++ .poll :: last := fun e he =>
    List.mem_append_right _ (List.mem_cons_of_mem _ he)
  rw [run_append]
  show ((d.run first).poll.run last).Held
  exact Held.run startPending_poll (fun e he => hkeep e (hlast e he)) fun e he =>
    hasks e (hlast e he)

/-! ## Starts and the upload -/

theorem receivedIn_append (d : Device) (first later : List Event) :
    d.receivedIn (first ++ later) = d.receivedIn first + (d.run first).receivedIn later := by
  induction first generalizing d with
  | nil => exact (Nat.zero_add _).symm
  | cons e first ih =>
    show _ + (d.react e).receivedIn (first ++ later) = _
    rw [ih, ← Nat.add_assoc]
    rfl

theorem keepsUpload_poll {first : List Event} (hkeep : ∀ e ∈ first, e.KeepsUpload) :
    ∀ e ∈ first ++ [.poll], e.KeepsUpload := by
  intro e he
  rcases List.mem_append.mp he with he | he
  · exact hkeep e he
  · rw [List.mem_singleton.mp he]
    exact True.intro

namespace Receiving

variable {old : Device} {u : Upload} {first later : List Event}

/-- How far the upload is in the middle of a run. -/
theorem between (h : Receiving old u .empty u.data [] (pushedIn (first ++ later)) d)
    (hfits : u.offset.toNat + u.data.size ≤ u.destination.capacity)
    (hkeep : ∀ e ∈ first, e.KeepsUpload) :
    ∃ done rest, Receiving old u done rest (waitingAfter [] first) (pushedIn later)
      (d.run first) ∧ done.size = d.receivedIn first := by
  rw [pushedIn, List.filterMap_append] at h
  obtain ⟨done, rest, hreceiving, hsize⟩ := h.run hfits hkeep
  exact ⟨done, rest, hreceiving, hsize.trans (Nat.zero_add _)⟩

/-- The session is active until all of the upload has been received. -/
theorem active_run (h : Receiving old u .empty u.data [] (pushedIn (first ++ later)) d)
    (hfits : u.offset.toNat + u.data.size ≤ u.destination.capacity)
    (hkeep : ∀ e ∈ first, e.KeepsUpload) :
    (d.run first).session.active = false ↔ d.receivedIn first = u.data.size := by
  obtain ⟨done, rest, hreceiving, hsize⟩ := h.between hfits hkeep
  have htotal := hreceiving.size_data
  rw [hreceiving.active_eq, decide_eq_false_iff_not, ← hsize]
  omega

/-- When as many more polls have come as packets wait, the upload is over. -/
theorem inactive_run (h : Receiving old u .empty u.data [] (pushedIn first) d)
    (hfits : u.offset.toNat + u.data.size ≤ u.destination.capacity)
    (hkeep : ∀ e ∈ first ++ later, e.KeepsUpload) (hnone : pushedIn later = [])
    (hpolls : (d.run first).endpoint.waiting ≤ later.countP Event.isPoll) :
    (d.run (first ++ later)).session.active = false := by
  have hfirst : pushedIn first = pushedIn (first ++ []) := by rw [List.append_nil]
  have hall : pushedIn first = pushedIn (first ++ later ++ []) := by
    rw [List.append_nil, pushedIn, pushedIn, List.filterMap_append, ← pushedIn, ← pushedIn, hnone,
      List.append_nil]
  obtain ⟨_, _, hsent, -⟩ :=
    (hfirst ▸ h).between hfits fun e he => hkeep e (List.mem_append_left _ he)
  obtain ⟨done, rest, hreceiving, -⟩ := (hall ▸ h).between hfits hkeep
  have hempty : waitingAfter [] (first ++ later) = [] := by
    rw [waitingAfter, List.foldl_append]
    exact (waitingAfter_of_no_push hnone _).trans
      (List.drop_eq_nil_of_le (hsent.holds.waiting ▸ hpolls))
  rw [hempty] at hreceiving
  rw [hreceiving.active]
  rcases hreceiving.carry with hcarry | ⟨-, hrest⟩
  · exact absurd rfl hcarry.ne_nil
  · exact decide_eq_false (by omega)

/-- A playback that starts finds the upload complete. -/
theorem of_started (h : Receiving old u .empty u.data [] (pushedIn (first ++ .poll :: later)) d)
    (hfits : u.offset.toNat + u.data.size ≤ u.destination.capacity)
    (hkeep : ∀ e ∈ first, e.KeepsUpload)
    (hstarted : (d.run first).startedBy .poll = some w) :
    d.receivedIn (first ++ [.poll]) = u.data.size ∧
      ∀ i < u.data.size, u.destination = .window →
        w.byte (u.offset.toNat + i) = Bytes.peek u.data i := by
  obtain ⟨hinactive, hwindow⟩ := started_poll hstarted
  have hrun : (d.run first).poll = d.run (first ++ [.poll]) := (run_append d first [.poll]).symm
  have hkeep' := keepsUpload_poll hkeep
  rw [List.append_cons first] at h
  rw [hrun] at hinactive hwindow
  have hall := (h.active_run hfits hkeep').mp hinactive
  obtain ⟨done, rest, hreceiving, hsize⟩ := h.between hfits hkeep'
  obtain ⟨-, hstored⟩ := hreceiving.complete (hsize.trans hall)
  refine ⟨hall, ?_⟩
  intro i hi hdestination
  have hbyte := hstored .window (u.offset.toNat + i)
  rw [if_pos ⟨by rw [hdestination], by omega, by omega⟩, hdestination,
    Nat.add_sub_cancel_left] at hbyte
  rw [← hwindow]
  exact hbyte

/-- While an upload is received after which a start is asked for once, the playback starts at the
first poll that comes after the request and leaves nothing of the upload missing. -/
theorem startsIn_poll (h : Receiving old u .empty u.data [] (pushedIn (first ++ .poll :: later)) d)
    (hfits : u.offset.toNat + u.data.size ≤ u.destination.capacity)
    (hkeep : ∀ e ∈ first, e.KeepsUpload) (hidle : d.session.startPending = false)
    (honce : first.countP Event.asksStart ≤ 1) :
    (d.startsIn (first ++ [.poll])).length =
      if first.countP Event.asksStart = 1 ∧ d.receivedIn (first ++ [.poll]) = u.data.size
      then 1 else 0 := by
  have hkeep' := keepsUpload_poll hkeep
  have hcount : (first ++ [Event.poll]).countP Event.asksStart = first.countP Event.asksStart := by
    rw [List.countP_append]
    rfl
  have hpending := startPending_run (d := d) hkeep' (by rw [hidle, hcount]; simpa using honce)
  rw [hidle, hcount, Bool.toNat_false, Nat.zero_add] at hpending
  have hassoc : first ++ Event.poll :: later = first ++ [Event.poll] ++ later :=
    (List.append_cons first _ later)
  split
  -- the request has been made and the upload is complete: nothing waits after the poll
  · next hready =>
    have hinactive := ((hassoc ▸ h).active_run hfits hkeep').mpr hready.2
    rw [run_append] at hinactive
    have hnone : (d.run (first ++ [.poll])).session.startPending = false := by
      rw [run_append]
      exact startPending_poll hinactive
    rw [hnone, Bool.toNat_false, Nat.zero_add] at hpending
    rw [hpending, hready.1]
  · next hearly =>
    rw [List.length_eq_zero_iff, List.eq_nil_iff_forall_not_mem]
    intro w hw
    -- a start needs a request, and an upload that was complete stays so
    have hasked : first.countP Event.asksStart = 1 := by
      have hpos := List.length_pos_of_mem hw
      omega
    obtain ⟨before, between, hsplit, hstarted⟩ := exists_of_mem_startsIn hw
    have hbefore : ∀ e ∈ before, e.KeepsUpload := fun e he =>
      hkeep' e (hsplit ▸ List.mem_append_left _ he)
    have hopened := hassoc ▸ h
    rw [hsplit, List.append_assoc, List.cons_append] at hopened
    obtain ⟨hall, -⟩ := hopened.of_started hfits hbefore hstarted
    obtain ⟨done, rest, hreceiving, hsize⟩ := (hassoc ▸ h).between hfits hkeep'
    have htotal := hreceiving.size_data
    have hmore : d.receivedIn (before ++ [.poll]) ≤ d.receivedIn (first ++ [.poll]) := by
      rw [hsplit, List.append_cons before .poll between, receivedIn_append _ _ between]
      exact Nat.le_add_right _ _
    exact hearly ⟨hasked, by omega⟩

/-- The first poll at which a playback has been started is the one that starts it. -/
theorem ends_poll (h : Receiving old u .empty u.data [] (pushedIn (first ++ .poll :: later)) d)
    (hfits : u.offset.toNat + u.data.size ≤ u.destination.capacity)
    (hkeep : ∀ e ∈ first, e.KeepsUpload) (hidle : d.session.startPending = false)
    (honce : first.countP Event.asksStart ≤ 1) :
    (d.startsIn (first ++ [.poll])).length =
      (if first.countP Event.asksStart = 1 ∧ d.receivedIn (first ++ [.poll]) = u.data.size
      then 1 else 0) ∧
    if first.countP Event.asksStart = 1 ∧ d.receivedIn (first ++ [.poll]) = u.data.size ∧
      d.startsIn first = []
    then ∃ w, d.startsIn (first ++ [.poll]) = [w] ∧ d.StartsAfter first w
    else d.startsIn (first ++ [.poll]) = d.startsIn first ∧
      d.run (first ++ [.poll]) = (d.run first).untilStart := by
  have hlength := h.startsIn_poll hfits hkeep hidle honce
  refine ⟨hlength, ?_⟩
  rcases d.run_poll first with ⟨w, hmore, hstarts⟩ | ⟨hsame, hpoll⟩
  · rw [hmore, List.length_append, List.length_singleton] at hlength
    split at hlength
    · next hready =>
      have hfirst : d.startsIn first = [] := List.length_eq_zero_iff.mp (by omega)
      rw [if_pos ⟨hready.1, hready.2, hfirst⟩]
      exact ⟨w, by rw [hmore, hfirst]; rfl, hstarts⟩
    · omega
  · rw [if_neg]
    · exact ⟨hsame, hpoll⟩
    · rintro ⟨hasked, hall, hfirst⟩
      rw [if_pos ⟨hasked, hall⟩, hsame, hfirst] at hlength
      exact absurd hlength (by decide)

end Receiving

/-- A playback start cannot overtake its upload. Let the endpoint of a device be drained at some
point of a run while no start waits, and let the host open an upload of `data` for the window. Let
it send the packets of the upload and ask for a playback once, before, between or after them, while
polls and anything else but a configuration or another upload happen in between; and `later`, when
all has been sent and asked for, let the same go on. Then the upload is accepted, and:

* at each poll, a playback has been started if the request has been made and the polls have taken
  all bytes of the upload, and otherwise none has;
* the first such poll ends with the start, in which the player begins with the window as it is
  then, and every other poll ends without one;
* the window that the player begins with holds `data` at its beginning;
* there is such a poll if there are as many polls `later` as packets wait when all has been sent,
  and at least one. -/
theorem start_follows_upload (config : DeviceConfig) (chip : Recorder) (timer : Timer)
    (before : List Event) {data : ByteArray} {setup : Setup} {payload : ByteArray}
    {packets : List Packet} {events : List Event}
    (hdrained : ((Device.new config chip timer).run before).endpoint.Drained)
    (hidle : ((Device.new config chip timer).run before).session.startPending = false)
    (hrequest : Request.decode setup payload =
      .ok (some (.openUpload .window 0 (UInt32.ofNat data.size))))
    (hfits : data.size ≤ windowSize) (hcarry : Carry .window packets data)
    (hkeep : ∀ e ∈ events, e.KeepsUpload) (hpushed : pushedIn events = packets)
    (hasked : events.countP Event.asksStart = 1) :
    let old := (Device.new config chip timer).run before
    let d := old.react (.control setup payload)
    (old.control setup payload).1 = .ok .acknowledge ∧
    ∀ later, (∀ e ∈ later, e.KeepsUpload) → (∀ e ∈ later, e.asksStart = false) →
      pushedIn later = [] →
      (∀ first rest, events ++ later = first ++ .poll :: rest →
        (d.startsIn (first ++ [.poll])).length =
          (if first.countP Event.asksStart = 1 ∧ d.receivedIn (first ++ [.poll]) = data.size
          then 1 else 0) ∧
        if first.countP Event.asksStart = 1 ∧ d.receivedIn (first ++ [.poll]) = data.size ∧
          d.startsIn first = []
        then ∃ w, d.startsIn (first ++ [.poll]) = [w] ∧ d.StartsAfter first w
        else d.startsIn (first ++ [.poll]) = d.startsIn first ∧
          d.run (first ++ [.poll]) = (d.run first).untilStart) ∧
      (∀ w ∈ d.startsIn (events ++ later), ∀ i < data.size, w.byte i = Bytes.peek data i) ∧
      (1 ≤ later.countP Event.isPoll →
        (d.run events).endpoint.waiting ≤ later.countP Event.isPoll →
        ∃ first w rest, events ++ later = first ++ .poll :: rest ∧ d.StartsAfter first w ∧
          d.startsIn (events ++ later) = [w] ∧ ∀ i < data.size, w.byte i = Bytes.peek data i) := by
  intro old d
  subst hpushed
  have hroom : (⟨.window, 0, data⟩ : Upload).offset.toNat + data.size ≤
      (⟨.window, 0, data⟩ : Upload).destination.capacity := by
    show 0 + data.size ≤ windowSize
    omega
  obtain ⟨hresponse, hopened⟩ := receiving_control (u := ⟨.window, 0, data⟩)
    (inStep_run config chip timer before) hdrained hrequest hroom hcarry
  have hnone : d.session.startPending = false := by
    have hopens : Request.decode setup payload ≠ .ok (some .startPlayback) := by simp [hrequest]
    exact (old.session.uploads_control old.endpoint hopens).startPending.trans hidle
  refine ⟨hresponse, ?_⟩
  intro later hlater hquiet hsent
  have hall : ∀ e ∈ events ++ later, e.KeepsUpload := fun e he =>
    (List.mem_append.mp he).elim (hkeep e) (hlater e)
  have hpushed : pushedIn (events ++ later) = pushedIn events := by
    rw [pushedIn, List.filterMap_append, ← pushedIn, ← pushedIn, hsent, List.append_nil]
  have hcount : (events ++ later).countP Event.asksStart = 1 := by
    rw [List.countP_append, hasked, List.countP_eq_zero.mpr fun e he => by simp [hquiet e he]]
  have hrun := hpushed ▸ hopened
  have hholds : ∀ w ∈ d.startsIn (events ++ later), ∀ i < data.size,
      w.byte i = Bytes.peek data i := by
    intro w hw i hi
    obtain ⟨first, rest, hsplit, hstarted⟩ := exists_of_mem_startsIn hw
    rw [hsplit] at hrun hall
    obtain ⟨-, hbytes⟩ := hrun.of_started hroom
      (fun e he => hall e (List.mem_append_left _ he)) hstarted
    have hbyte := hbytes i hi rfl
    rwa [show (0 : UInt32).toNat + i = i from Nat.zero_add i] at hbyte
  refine ⟨?_, hholds, ?_⟩
  · intro first rest hsplit
    rw [hsplit] at hrun hall hcount
    have honce : first.countP Event.asksStart ≤ 1 := by
      rw [List.countP_append] at hcount
      omega
    exact hrun.ends_poll hroom (fun e he => hall e (List.mem_append_left _ he)) hnone honce
  · intro hpolled hpolls
    have hover := hopened.inactive_run hroom hall hsent hpolls
    have hheld : (d.run (events ++ later)).Held := by
      rw [run_append]
      exact held_of_polled hlater hquiet hpolled
    have hpending := startPending_run (d := d) hall (by rw [hnone, hcount]; exact Nat.le_refl 1)
    rw [hheld hover, hnone, hcount, Bool.toNat_false, Nat.zero_add, Nat.zero_add] at hpending
    obtain ⟨w, hw⟩ := List.length_eq_one_iff.mp hpending
    have hmem : w ∈ d.startsIn (events ++ later) := hw ▸ List.mem_singleton_self w
    obtain ⟨first, rest, hsplit, hstarted⟩ := exists_of_mem_startsIn hmem
    exact ⟨first, w, rest, hsplit, startsAfter_of_started hstarted, hw, hholds w hmem⟩

/-- The host opens an upload of three bytes for the window. -/
def threeBytes : Event :=
  .control (Request.openUpload .window 0 3).encode.1 (Request.openUpload .window 0 3).encode.2

/-- It sends them in two packets, and asks for a playback between them. -/
def threeBytesSent : List Event :=
  [.push (.data ⟨#[7, 8]⟩), .poll,
    .control Request.startPlayback.encode.1 Request.startPlayback.encode.2, .poll,
    .push (.data ⟨#[9]⟩)]

/-- The two polls on the way start nothing. The one after them ends with the start, in which the
player begins with a window that holds the three bytes. -/
theorem start_follows_upload_three :
    let old := (Device.new {} (.fresh (fun _ => true) true) { manual := true }).run [.configure]
    let d := old.react threeBytes
    d.startsIn threeBytesSent = [] ∧
      d.run (threeBytesSent.take 4) = (d.run (threeBytesSent.take 3)).untilStart ∧
      ∃ w, d.startsIn (threeBytesSent ++ [.poll]) = [w] ∧ d.StartsAfter threeBytesSent w ∧
        (List.range 3).map w.byte = [7, 8, 9] := by
  intro old d
  have hrequest : Request.decode (Request.openUpload .window 0 3).encode.1
      (Request.openUpload .window 0 3).encode.2 = .ok (some (.openUpload .window 0 3)) := by rfl
  have hcarry : Carry .window (pushedIn threeBytesSent) ⟨#[7, 8, 9]⟩ :=
    show Carry .window [.data ⟨#[7, 8]⟩, .data ⟨#[9]⟩] (⟨#[7, 8]⟩ ++ ⟨#[9]⟩) from
      .piece (by decide) (by decide) (by decide) (.last (by decide) (by decide))
  have hasks : Request.decode Request.startPlayback.encode.1 Request.startPlayback.encode.2 =
      .ok (some .startPlayback) := by rfl
  have hkeep : ∀ e ∈ threeBytesSent, e.KeepsUpload := by
    simp [threeBytesSent, Event.KeepsUpload, hasks]
  have hdrained : old.endpoint.Drained := ⟨rfl, rfl, rfl, rfl⟩
  have hfits : (⟨#[7, 8, 9]⟩ : ByteArray).size ≤ windowSize := by decide
  obtain ⟨-, hruns⟩ := start_follows_upload {} (.fresh (fun _ => true) true)
    { manual := true } [.configure] hdrained rfl hrequest hfits hcarry hkeep rfl
    (by decide +kernel)
  obtain ⟨hpolls, hholds, -⟩ := hruns [.poll] (by simp [Event.KeepsUpload])
    (by simp [Event.asksStart]) rfl
  have hnone : d.startsIn threeBytesSent = [] := by decide +kernel
  -- the poll after the request finds one byte missing, the last one finds none
  have hearly := (hpolls (threeBytesSent.take 3) [.push (.data ⟨#[9]⟩), .poll] rfl).2
  rw [if_neg (by decide +kernel)] at hearly
  have hlast := (hpolls threeBytesSent [] rfl).2
  rw [if_pos ⟨by decide +kernel, by decide +kernel, hnone⟩] at hlast
  obtain ⟨w, hw, hstarts⟩ := hlast
  have hbytes := hholds w (hw ▸ List.mem_singleton_self w)
  exact ⟨hnone, hearly.2, w, hw, hstarts,
    List.map_congr_left fun i hi => hbytes i (List.mem_range.mp hi)⟩

end Device
end ChipReplay
