import ChipReplay.Proofs.Device.Messages
import ChipReplay.Proofs.Stream.Refinement
/-!
# A device and its host

A `Link` is a device and a host that answers what it reads, with a record of what the player has
handed over, of what the host has read and of what it has accepted. From the moment that a start is
asked for, the three agree: nothing is lost, doubled or reordered on the way
(`Link.no_refill_lost`).

The proof follows the two halves of the way. On the device's side, what has been read and what is
upcoming are together the messages of the playback, numbered from zero (`Link.Running`). On the
host's side, what has been read is then the beginning of such a list, and a host that expects zero
accepts all of it.
-/

namespace ChipReplay

/-- A device with its host. -/
structure Link where
  device : Device
  host : Host
  /-- The refills that the player has handed to the outbox, oldest first. -/
  handed : List Refill := []
  /-- The messages that the host has read, oldest first. -/
  read : List ByteArray := []
  /-- The refills that the host has accepted, oldest first. -/
  accepted : List Refill := []

namespace Link

/-- The messages of a playback: the status report, and then a request for each refill. -/
def messages (rs : List Refill) : List Outgoing :=
  .status Notification.playbackStarted :: rs.map .refill

/-- The host asks for a start, and expects the first refill request next. -/
def start (d : Device) (h : Host) : Link where
  device := (d.request .startPlayback).2
  host := h.resetSequence

/-- The link after an event. The host answers what it reads. -/
def react (l : Link) (e : Device.Event) : Link :=
  let read := l.device.readIn e
  let (host, accepted) := read.foldl Host.hear (l.host, l.accepted)
  { device := l.device.react e
    host
    handed := l.handed ++ l.device.refillsOf e
    read := l.read ++ read
    accepted }

/-- The link after the events, one after the other. -/
def run (l : Link) (events : List Device.Event) : Link := events.foldl react l

theorem run_append (l : Link) (first later : List Device.Event) :
    l.run (first ++ later) = (l.run first).run later := List.foldl_append

/-- What has left the outbox: what the host has read, and the message in the slot. -/
def sent (l : Link) : List ByteArray := l.read ++ l.device.endpoint.inSlot.toList

/-- The refill that the message in the slot asks for, if it asks for one. -/
def inSlot (l : Link) : Option Refill := l.device.endpoint.inSlot.bind Notification.refillIn

/-- The refills that wait in the outbox, oldest first. -/
def waiting (l : Link) : List Refill := l.device.outbox.toList.filterMap Outgoing.refill?

/-! ## The device's side -/

/-- Nothing is under way, and nothing is played. -/
structure Idle (d : Device) : Prop where
  inactive : d.active = false
  outbox : d.outbox.toList = []
  inSlot : d.endpoint.inSlot = none

theorem Idle.of_quiet {d d' : Device} (h : Idle d) (hquiet : d.Quiet d') : Idle d' := by
  have hinactive : d'.active = false := by
    cases hactive : d'.active with
    | false => rfl
    | true => exact absurd (hquiet.active hactive) (by simp [h.inactive])
  refine ⟨hinactive, ?_, ?_⟩
  · rw [hquiet.outbox, h.outbox]
  · rw [hquiet.inSlot, h.inSlot]

/-- A poll takes a packet and then starts a playback or not. -/
theorem Idle.poll_eq {d : Device} (h : Idle d) :
    d.ingested.stepIfDue.sendMessages = d.ingested ∧ d.poll = d.ingested.startIfAsked := by
  have hidle := h.of_quiet d.quiet_ingested
  have hsent : d.ingested.stepIfDue.sendMessages = d.ingested := by
    rw [Device.stepIfDue_of_inactive hidle.inactive, Device.sendMessages_of_empty hidle.outbox]
  exact ⟨hsent, by rw [Device.poll_eq, hsent]⟩

/-- The start has not come yet. -/
structure Asked (l : Link) : Prop where
  idle : Idle l.device
  handed : l.handed = []
  read : l.read = []

/-- The start has come: what has been read and what is upcoming are the messages of the playback,
numbered from zero. -/
structure Running (l : Link) : Prop where
  pending : l.device.session.startPending = false
  upcoming : l.read ++ l.device.upcoming = Outgoing.wire 0 (messages l.handed)
  nextNumber : l.device.nextNumber = Outgoing.numberAfterAll 0 (messages l.handed)

variable {l : Link} {e : Device.Event}

theorem messages_append (rs ss : List Refill) :
    messages (rs ++ ss) = messages rs ++ ss.map Outgoing.refill := by
  rw [messages, List.map_append]
  rfl

/-- What the player asks for comes last on both sides, with the same numbers. -/
theorem Running.react (h : l.Running) (hcontinues : e.Continues) : (l.react e).Running := by
  obtain ⟨hupcoming, hnext, hpending⟩ := Device.react_upcoming hcontinues h.pending
  refine ⟨hpending, ?_, ?_⟩
  · show l.read ++ l.device.readIn e ++ (l.device.react e).upcoming =
      Outgoing.wire 0 (messages (l.handed ++ l.device.refillsOf e))
    rw [messages_append, Outgoing.wire_append, ← h.upcoming, ← h.nextNumber, List.append_assoc,
      hupcoming, List.append_assoc]
  · show (l.device.react e).nextNumber =
      Outgoing.numberAfterAll 0 (messages (l.handed ++ l.device.refillsOf e))
    rw [messages_append, Outgoing.numberAfterAll_append, ← h.nextNumber, hnext]

/-- A poll either starts the playback or changes nothing here. -/
theorem Asked.poll (h : l.Asked) : (l.react .poll).Asked ∨ (l.react .poll).Running := by
  have hidle := h.idle.of_quiet l.device.quiet_ingested
  have hrefills := Device.updateRefills_of_inactive hidle.inactive
  obtain ⟨hsent, hpoll⟩ := h.idle.poll_eq
  have hhanded : (l.react .poll).handed = l.device.refillsOf .poll := by
    show l.handed ++ _ = _
    rw [h.handed, List.nil_append]
  have hread : (l.react .poll).read = [] := by
    show l.read ++ [] = []
    rw [h.read, List.append_nil]
  have hdevice : (l.react .poll).device = l.device.ingested.startIfAsked := hpoll
  by_cases hasked : l.device.ingested.session.takeStart.1 = true
  · right
    have hrefillsOf : l.device.refillsOf .poll = l.device.ingested.startRefills := by
      rw [Device.refillsOf, hsent, hrefills]
      exact if_pos hasked
    obtain ⟨hupcoming, hnext, hpending⟩ := Device.startIfAsked_upcoming hasked hidle.inSlot
    refine ⟨?_, ?_, ?_⟩
    · rw [hdevice, hpending]
    · rw [hread, hdevice, hupcoming, hhanded, hrefillsOf]
      rfl
    · rw [hdevice, hnext, hhanded, hrefillsOf]
      rfl
  · left
    have hheld : l.device.ingested.session.takeStart.1 = false := by simpa using hasked
    have hrefillsOf : l.device.refillsOf .poll = [] := by
      rw [Device.refillsOf, hsent, hrefills]
      exact if_neg hasked
    refine ⟨?_, ?_, hread⟩
    · rw [hdevice]
      exact hidle.of_quiet (Device.quiet_startIfAsked hheld)
    · rw [hhanded, hrefillsOf]

theorem Asked.react (h : l.Asked) (hcontinues : e.Continues) :
    (l.react e).Asked ∨ (l.react e).Running := by
  by_cases hpoll : e = .poll
  · subst hpoll
    exact h.poll
  · left
    have hidle : Idle (l.device.react e) := by
      by_cases hread : e = .read
      · subst hread
        exact ⟨h.idle.inactive, h.idle.outbox, rfl⟩
      · exact h.idle.of_quiet (Device.quiet_react hcontinues hpoll hread)
    have hnothing : l.device.readIn e = [] ∧ l.device.refillsOf e = [] := by
      have hfree : l.device.endpoint.inSlot.toList = [] := by rw [h.idle.inSlot]; rfl
      cases e <;> first | exact ⟨rfl, rfl⟩ | exact ⟨hfree, rfl⟩ | contradiction
    refine ⟨hidle, ?_, ?_⟩
    · show l.handed ++ _ = []
      rw [h.handed, hnothing.2]
      rfl
    · show l.read ++ _ = []
      rw [h.read, hnothing.1]
      rfl

/-! ## The first poll -/

/-- If no upload is active, the first poll starts the playback, and what a start that succeeds asks
for is handed over. -/
theorem handed_start {d : Device} (hidle : Idle d) (hupload : d.session.active = false) {p : Player}
    (hbegin : d.player.begin d.window = (.ok (), p)) (h : Host) :
    ((start d h).run [.poll]).handed = p.requests.toList := by
  have hidle' : Idle (start d h).device.ingested :=
    Idle.of_quiet (d := (start d h).device) ⟨hidle.inactive, hidle.outbox, hidle.inSlot⟩
      (Device.quiet_ingested _)
  obtain ⟨hplayer, hwindow, hsession⟩ :=
    Device.ingested_of_inactive (d := (start d h).device) hupload
  have hasked : (start d h).device.session.takeStart.1 = true := by
    have hinactive : ¬ (start d h).device.session.active = true := by
      show ¬ d.session.active = true
      rw [hupload]
      exact Bool.false_ne_true
    rw [Session.takeStart, if_neg hinactive]
    rfl
  have hrefills : (start d h).device.ingested.startRefills = p.requests.toList := by
    have hbegin' : (start d h).device.player.begin (start d h).device.window = (.ok (), p) := hbegin
    rw [Device.startRefills, hplayer, hwindow, hbegin']
  show [] ++ (start d h).device.refillsOf .poll = _
  rw [List.nil_append, Device.refillsOf, Device.stepIfDue_of_inactive hidle'.inactive,
    Device.sendMessages_of_empty hidle'.outbox, Device.updateRefills_of_inactive hidle'.inactive,
    hsession, if_pos hasked, hrefills]
  rfl

/-! ## The host's side -/

/-- The host has answered exactly what it has read, beginning as `h`. -/
def Heard (h : Host) (l : Link) : Prop := l.read.foldl Host.hear (h, []) = (l.host, l.accepted)

theorem Heard.react {h : Host} (hheard : Heard h l) (e : Device.Event) : Heard h (l.react e) := by
  show (l.read ++ _).foldl Host.hear (h, []) = _
  rw [List.foldl_append, hheard]
  rfl

/-! ## Both sides -/

/-- What holds from the start on. -/
structure Agrees (h : Host) (l : Link) : Prop where
  device : l.Asked ∨ l.Running
  heard : Heard h l

theorem Agrees.react {h : Host} (hagrees : Agrees h l) (hcontinues : e.Continues) :
    Agrees h (l.react e) := by
  refine ⟨?_, hagrees.heard.react e⟩
  rcases hagrees.device with hasked | hrunning
  · exact hasked.react hcontinues
  · exact .inr (hrunning.react hcontinues)

theorem Agrees.run {h : Host} (hagrees : Agrees h l) {events : List Device.Event}
    (hcontinue : ∀ e ∈ events, e.Continues) : Agrees h (l.run events) := by
  refine List.foldlRecOn events Link.react hagrees ?_
  intro l' hagrees' e he
  exact hagrees'.react (hcontinue e he)

theorem agrees_start {d : Device} (h : Host) (hidle : Idle d) :
    Agrees h.resetSequence (start d h) :=
  ⟨.inl ⟨⟨hidle.inactive, hidle.outbox, hidle.inSlot⟩, rfl, rfl⟩, rfl⟩

/-- What is sent is the beginning of what the playback says. -/
theorem Agrees.sent_append {h : Host} (hagrees : Agrees h l) :
    ∃ rest, l.sent ++ rest = Outgoing.wire 0 (messages l.handed) := by
  rcases hagrees.device with hasked | hrunning
  · refine ⟨Outgoing.wire 0 (messages l.handed), ?_⟩
    rw [sent, hasked.read, hasked.idle.inSlot]
    rfl
  · refine ⟨Outgoing.wire l.device.session.sequence l.device.outbox.toList, ?_⟩
    rw [sent, List.append_assoc]
    exact hrunning.upcoming

theorem filterMap_messages (rs : List Refill) : (messages rs).filterMap Outgoing.refill? = rs :=
  Outgoing.filterMap_refills rs

/-- What was handed over has been read, is in the slot or waits in the outbox. -/
theorem Agrees.handed_eq {h : Host} (hagrees : Agrees h l) :
    l.read.filterMap Notification.refillIn ++ l.inSlot.toList ++ l.waiting = l.handed := by
  rcases hagrees.device with hasked | hrunning
  · rw [hasked.read, hasked.handed, inSlot, waiting, hasked.idle.inSlot, hasked.idle.outbox]
    rfl
  · have hslot : l.device.endpoint.inSlot.toList.filterMap Notification.refillIn =
        l.inSlot.toList := by
      rw [inSlot]
      cases l.device.endpoint.inSlot with
      | none => rfl
      | some message => cases hrefill : Notification.refillIn message <;> simp [hrefill]
    -- the invariant, read as a list of refills
    have hrefills := congrArg (List.filterMap Notification.refillIn) hrunning.upcoming
    rw [Device.upcoming, List.filterMap_append, List.filterMap_append, Outgoing.refillsIn_wire,
      Outgoing.refillsIn_wire, filterMap_messages, hslot, ← List.append_assoc] at hrefills
    exact hrefills

/-- A host that expects zero accepts every refill that it reads of, and ignores none. -/
theorem Agrees.accepted_eq {h : Host} (hagrees : Agrees h l) (hzero : h.sequence = 0) :
    l.accepted = l.read.filterMap Notification.refillIn ∧ l.host.ignored = h.ignored := by
  obtain ⟨rest, hsent⟩ := hagrees.sent_append
  rw [sent, List.append_assoc] at hsent
  -- what has been read is the beginning of a list that is numbered from zero
  obtain ⟨first, hread, -⟩ := Outgoing.eq_wire_of_append hsent
  have hmasked : h.sequence &&& Notification.sequenceMask = h.sequence := by
    rw [hzero]
    decide
  obtain ⟨served, hheard⟩ := Host.foldl_hear_wire hmasked [] first
  rw [hzero, ← hread, hagrees.heard] at hheard
  obtain ⟨hhost, haccepted⟩ := Prod.mk.inj hheard
  rw [haccepted, hhost, hread, Outgoing.refillsIn_wire]
  exact ⟨List.nil_append _, rfl⟩

/-- The message at each place is the one that belongs there, with its number. -/
theorem Agrees.getElem?_sent {h : Host} (hagrees : Agrees h l) {i : Nat} {message : ByteArray}
    (hmessage : l.sent[i]? = some message) :
    ∃ n, (Outgoing.numbered 0 (messages l.handed))[i]? = some n ∧
      Notification.decode message = some n.masked := by
  obtain ⟨rest, hsent⟩ := hagrees.sent_append
  obtain ⟨hi, -⟩ := List.getElem?_eq_some_iff.mp hmessage
  have hwire : (Outgoing.wire 0 (messages l.handed))[i]? = some message := by
    rw [← hsent, List.getElem?_append_left hi, hmessage]
  rw [Outgoing.wire, List.getElem?_map, Option.map_eq_some_iff] at hwire
  obtain ⟨n, hn, rfl⟩ := hwire
  exact ⟨n, hn, Notification.decode_encode n⟩

/-- No refill request is lost, doubled or reordered. Let a device play nothing and have no message
under way when the host asks for a start. Then, after any polls, bulk packets, uploads, live
control, and reads of the slot, however the timer and the chip change meanwhile, as long as no other
start is asked for and the device is not configured:

* the refills that the player has handed over are, in order, those that the host has accepted, the
  one in the slot and those in the outbox;
* the first message is the status report;
* the message after it that comes `k`-th asks for the `k`-th refill, with number `k` modulo
  `2 ^ 24`;
* the host has ignored nothing. -/
theorem no_refill_lost {d : Device} (hidle : Idle d) (h : Host) {events : List Device.Event}
    (hcontinue : ∀ e ∈ events, e.Continues) :
    let l := (start d h).run events
    l.accepted ++ l.inSlot.toList ++ l.waiting = l.handed ∧
    (∀ message, l.sent[0]? = some message →
      Notification.decode message = some (.status Notification.playbackStarted)) ∧
    (∀ k message, l.sent[k + 1]? = some message → ∃ r, l.handed[k]? = some r ∧
      Notification.decode message = some (.refill (UInt32.ofNat (k % 2 ^ 24)) r)) ∧
    l.host.ignored = h.ignored := by
  intro l
  have hagrees : Agrees h.resetSequence l := (agrees_start h hidle).run hcontinue
  obtain ⟨haccepted, hignored⟩ := hagrees.accepted_eq rfl
  refine ⟨?_, ?_, ?_, hignored⟩
  · rw [haccepted]
    exact hagrees.handed_eq
  · intro message hmessage
    obtain ⟨n, hn, hdecode⟩ := hagrees.getElem?_sent hmessage
    obtain rfl : Notification.status Notification.playbackStarted = n := Option.some.inj hn
    exact hdecode
  · intro k message hmessage
    obtain ⟨n, hn, hdecode⟩ := hagrees.getElem?_sent hmessage
    have hrefills := Outgoing.getElem?_numbered_refills 0 k l.handed
    rw [Nat.zero_add] at hrefills
    obtain ⟨r, hr, rfl⟩ := Option.map_eq_some_iff.mp (hrefills.symm.trans hn)
    refine ⟨r, hr, ?_⟩
    rw [hdecode, Notification.masked, Notification.ofRefill, Notification.ofNat_and_sequenceMask]

/-! ## A poll and a read -/

/-- A poll and a read after it bring the host the next message. What comes after that stays
upcoming, with what the player asks for behind it. -/
theorem Running.hears (h : l.Running) {message : ByteArray} {rest : List ByteArray}
    (hnext : l.device.upcoming = message :: rest) :
    (l.run [.poll, .read]).Running ∧ (l.run [.poll, .read]).read = l.read ++ [message] ∧
      rest <+: (l.run [.poll, .read]).device.upcoming ∧
      l.handed <+: (l.run [.poll, .read]).handed ∧
      (l.run [.poll, .read]).device.endpoint.inSlot = none := by
  have hpoll : (l.react .poll).Running := h.react trivial
  have hrunning : (l.run [.poll, .read]).Running := hpoll.react trivial
  obtain ⟨hpolled, -⟩ := Device.poll_upcoming h.pending
  rw [hnext, List.cons_append] at hpolled
  have hslot : (l.react .poll).device.endpoint.inSlot = some message :=
    (Device.poll_inSlot h.pending).trans (congrArg List.head? hpolled)
  have hread : (l.run [.poll, .read]).read = l.read ++ [] ++
      (l.react .poll).device.endpoint.inSlot.toList := rfl
  have hafter :
      (l.run [.poll, .read]).device.upcoming = (l.react .poll).device.upcoming.drop 1 := by
    show Option.toList none ++ _ =
      (Option.toList (l.react .poll).device.endpoint.inSlot ++ _).drop 1
    rw [hslot]
    rfl
  refine ⟨hrunning, ?_, ?_, ?_, rfl⟩
  · rw [hread, hslot, List.append_nil]
    rfl
  · rw [hafter]
    show rest <+: l.device.poll.upcoming.drop 1
    rw [hpolled]
    exact List.prefix_append _ _
  · show l.handed <+: l.handed ++ _ ++ []
    rw [List.append_nil]
    exact List.prefix_append _ _

/-- After a start that succeeds, two polls with a read after each bring the host the status report
and the first refill request, which it accepts. -/
theorem accepts_first {d : Device} (hidle : Idle d) (hupload : d.session.active = false)
    {p : Player} (hbegin : d.player.begin d.window = (.ok (), p)) {r : Refill} {rs : List Refill}
    (hasked : p.requests.toList = r :: rs) (h : Host) :
    let l := (start d h).run [.poll, .poll, .read, .poll, .read]
    l.sent = [(Notification.status Notification.playbackStarted).encode,
      (Notification.ofRefill 0 r).encode] ∧ l.inSlot = none ∧ l.accepted = [r] ∧
      r :: rs <+: l.handed := by
  intro l
  have hhanded := (handed_start hidle hupload hbegin h).trans hasked
  have hcontinue : ∀ e ∈ [Device.Event.poll, .poll, .read, .poll, .read], e.Continues := by
    simp [Device.Event.Continues]
  have hstarted : ((start d h).run [.poll]).Running := by
    have hpoll : ∀ e ∈ [Device.Event.poll], e.Continues := by simp [Device.Event.Continues]
    have hagrees := (agrees_start h hidle).run hpoll
    refine hagrees.device.resolve_left fun hwaits => ?_
    exact absurd (hwaits.handed.symm.trans hhanded) (List.cons_ne_nil _ _).symm
  -- the first poll leaves all messages of the start upcoming, and each round brings one of them
  have hupcoming := hstarted.upcoming
  rw [hhanded, messages, Outgoing.wire_cons, List.map_cons, Outgoing.wire_cons] at hupcoming
  obtain ⟨hrunning, hfirst, ⟨more, hmore⟩, hkept, -⟩ := hstarted.hears hupcoming
  obtain ⟨-, hsecond, -, hkept', hfree⟩ := hrunning.hears hmore.symm
  have hrounds : ((((start d h).run [.poll]).run [.poll, .read]).run [.poll, .read]) = l := by
    rw [← run_append, ← run_append]
    rfl
  rw [hrounds] at hsecond hkept' hfree
  have hread : l.read = [(Notification.status Notification.playbackStarted).encode,
      (Notification.ofRefill 0 r).encode] := by
    rw [hsecond, hfirst]
    rfl
  have hagrees := (agrees_start h hidle).run hcontinue
  refine ⟨?_, ?_, ?_, hhanded ▸ hkept.trans hkept'⟩
  · rw [sent, hread, hfree]
    rfl
  · rw [inSlot, hfree]
    rfl
  · rw [(hagrees.accepted_eq rfl).1, hread]
    exact Outgoing.refillsIn_wire 0 [.status Notification.playbackStarted, .refill r]

/-- A device that plays nothing, with a stream in its window. -/
def frameDevice : Device :=
  { Device.new {} (.fresh (fun _ => true) true) { manual := true } with window := frameWindow }

/-- The host that has the stream. -/
def frameHost : Host := { stream := frameStream, blocks := [] }

/-- The start, and twice a poll and a read. The host has read the status report and the request for
A, which came with number 0 and which it has accepted. The one for B waits. -/
theorem no_refill_lost_frame :
    let l := (start frameDevice frameHost).run [.poll, .poll, .read, .poll, .read]
    ∃ later, l.handed = .ofRegion .a (UInt32.ofNat linearEnd) ::
        .ofRegion .b (UInt32.ofNat linearEnd + UInt32.ofNat regionSize) :: later ∧
      l.accepted = [.ofRegion .a (UInt32.ofNat linearEnd)] ∧ l.inSlot = none ∧
      l.waiting = .ofRegion .b (UInt32.ofNat linearEnd + UInt32.ofNat regionSize) :: later ∧
      l.sent.map Notification.decode = [some (.status Notification.playbackStarted),
        some (.refill 0 (.ofRegion .a (UInt32.ofNat linearEnd)))] ∧
      l.host.ignored = 0 := by
  have hidle : Idle frameDevice := ⟨rfl, rfl, rfl⟩
  have hbegin : frameDevice.player.begin frameDevice.window = (.ok (), framePlayer) :=
    begin_frameStream byte_frameWindow
  have hcontinue : ∀ e ∈ [Device.Event.poll, .poll, .read, .poll, .read], e.Continues := by
    simp [Device.Event.Continues]
  have hasked : framePlayer.requests.toList = Player.preload (UInt32.ofNat linearEnd) := rfl
  rw [Player.preload] at hasked
  have hlost := no_refill_lost hidle frameHost hcontinue
  have hfirst := accepts_first hidle rfl hbegin hasked frameHost
  dsimp only at hlost hfirst
  -- all that is needed of the run is said by the two lemmas
  generalize (start frameDevice frameHost).run [.poll, .poll, .read, .poll, .read] = l
    at hlost hfirst ⊢
  obtain ⟨hrefills, hstatus, hrequests, hignored⟩ := hlost
  obtain ⟨hsent, hnone, haccepted, later, hlater⟩ := hfirst
  rw [haccepted, hnone, Option.toList_none, List.append_nil, ← hlater, List.singleton_append,
    List.cons_append, List.singleton_append, List.cons.injEq] at hrefills
  obtain ⟨r, hr, hdecode⟩ := hrequests 0 _ (congrArg (·[1]?) hsent)
  rw [← hlater] at hr
  obtain rfl := Option.some.inj hr
  refine ⟨later, hlater.symm, haccepted, hnone, hrefills.2, ?_, hignored⟩
  rw [hsent, List.map_cons, List.map_singleton, hdecode, hstatus _ (congrArg (·[0]?) hsent)]
  rfl

end Link
end ChipReplay
