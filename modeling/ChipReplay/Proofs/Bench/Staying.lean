import ChipReplay.Proofs.Bench.SetUp
import ChipReplay.Proofs.Stream.Staying
/-!
# Streams that are always on time

A stream that fits the linear region is in the window before it is played. If it has a loop point,
the loop region is asked for when the player comes there, and has to be filled before the player
jumps. At most three messages stand before that refill. Every round answers one message and plays
one wait at most, so four waits behind the loop point are enough (`Score.Short`). What the device
asks for besides follows the stream, and the host has nothing to answer that with. So every poll is
on time (`Bench.onTime_of_short`).
-/

namespace ChipReplay

open Player

/-- The stream fits the linear region. What lies behind its loop point, if it has one, fits the loop
region and waits at least four times. -/
structure Score.Short (s : Score) : Prop extends ChipReplay.Short s.stream.size s.start s.loop where
  waits : s.loop ≠ 0 → 4 ≤ waitsIn s.later

/-- What lies behind the loop point of a stream, if it has one, fits the loop region and waits at
least four times. -/
def LoopsShort (stream : ByteArray) (loop : UInt32) : Prop :=
  loop ≠ 0 → stream.size ≤ loop.toNat + regionSize ∧
    ∃ later, commandsFrom stream loop.toNat = .ok later ∧ 4 ≤ waitsIn later

theorem Score.Playable.short {s : Score} (h : s.Playable) (hlinear : s.stream.size ≤ linearEnd)
    (hloops : LoopsShort s.stream s.loop) : s.Short := by
  have hlater (hne : s.loop ≠ 0) : Pass s.stream s.loop.toNat s.later := by
    have hpass := h.later_pass
    rwa [if_neg hne] at hpass
  refine ⟨⟨hlinear, ChipReplay.Playable.start_le h, fun hne => (hlater hne).lt_size,
    fun hne => (hloops hne).1⟩, fun hne => ?_⟩
  obtain ⟨later, hcommands, hwaits⟩ := (hloops hne).2
  obtain rfl := Except.ok.inj ((hlater hne).commandsFrom_eq.symm.trans hcommands)
  exact hwaits

/-- The refill of the loop region. -/
def Score.loopRefill (s : Score) : Refill := .ofRegion .loop s.loop

theorem Score.ofRegion_loopRefill (s : Score) : s.loopRefill.OfRegion :=
  ⟨.loop, s.loop, by decide, rfl⟩

namespace Device

variable {s : Score} {w : Window} {waiting : List Refill} {k : Nat} {part : List Located}
  {d : Device}

theorem OnCourse.start_loop (h : d.OnCourse s w waiting k part) :
    d.player.start = s.start ∧ d.player.loop = s.loop := by
  obtain ⟨f, hagree, hmid⟩ := h.midway
  exact ⟨UInt32.toNat_inj.mp (hagree.start.symm.trans hmid.start_eq),
    UInt32.toNat_inj.mp (hagree.loop.symm.trans hmid.loop_eq)⟩

theorem OnCourse.short (h : d.OnCourse s w waiting k part) (hshort : s.Short) :
    ChipReplay.Short s.stream.size d.player.start d.player.loop := by
  rw [h.start_loop.1, h.start_loop.2]
  exact hshort.toShort

/-- Without a loop point the loop region is never asked for. -/
theorem OnCourse.uncached (h : d.OnCourse s w waiting k part) (hloop : s.loop = 0) :
    d.player.loopCached = false := by
  obtain ⟨f, hagree, -⟩ := h.midway
  rw [hagree.reached, h.start_loop.2, hloop]
  rfl

/-- Before the loop point the waits behind it are all ahead. -/
theorem OnCourse.waits_ahead (h : d.OnCourse s w waiting k part) (hplayable : s.Playable)
    (hstays : d.player.Stays s.stream.size) (hloop : s.loop ≠ 0)
    (huncached : d.player.loopCached = false) :
    waitsIn part + waitsIn s.later ≤ waitsIn (passAt s.first s.later k) := by
  obtain ⟨f, hagree, hmid⟩ := h.midway
  have hsame := h.start_loop.2
  refine ChipReplay.Playable.waits_ahead hplayable hloop hmid ?_
  rw [hagree.position, ← hsame]
  exact hstays.behind (hsame ▸ hloop) huncached

/-- A poll that plays such a stream reads only in the region of the player, if that has come. -/
theorem OnCourse.poll_stays (h : d.OnCourse s w waiting k part) (hplayable : s.Playable)
    (hstays : d.player.Stays s.stream.size)
    (hcome : ∀ i, d.player.position.region.Spans i 1 →
      d.ingested.window.byte i = w.byte i ∧ ∀ r ∈ waiting, ¬ r.Covers i) :
    (∀ i ∈ d.polledReads, d.player.position.region.Spans i 1) ∧
      ∃ q, Stayed s.stream.size d.player q ∧
        d.poll.player = { q with requests := d.poll.player.requests } ∧
        d.refillsOf .poll = q.requests.toList := by
  obtain ⟨f, hagree, hmid⟩ := h.midway
  have hclear : ∀ i, d.player.position.region.Spans i 1 → Clear waiting d.player i := by
    intro i hi r hr
    rw [h.idle, List.append_nil] at hr
    exact (hcome i hi).2 r hr
  obtain ⟨hreads, q, hq, hupdated, hrefills⟩ := hstays.update hplayable hagree h.ready hclear hmid
    d.ingested.chip d.ingested.timer
  have hsame : ∀ i ∈ d.player.reads w d.ingested.chip, w.byte i = d.ingested.window.byte i :=
    fun i hi => ((hcome i (hreads i hi)).1).symm
  have hplayer : d.ingested.player = d.player := by
    obtain ⟨active, window, samples, lastUploadError, stats, heq, -⟩ := d.ingested_eq
    rw [heq]
  rw [reads_congr hsame] at hreads
  rw [update_congr hsame] at hupdated hrefills
  obtain ⟨session, endpoint, outbox, stats, hpoll⟩ := poll_of_held h.held
  have hstepped : d.poll.player = d.ingested.stepIfDue.player := by rw [hpoll]
  rw [hstepped, refillsOf_poll h.held, polledReads, updateRefills, stepIfDue]
  dsimp only
  rw [hplayer]
  by_cases hdue :
      (d.ingested.active && d.ingested.timer.elapsed && d.ingested.direct.isEmpty) = true
  · rw [if_pos hdue, if_pos hdue, if_pos hdue]
    obtain ⟨active, voices, direct, lastError, stats, heq⟩ := d.ingested.step_eq
    rw [heq]
    dsimp only
    rw [hplayer]
    exact ⟨hreads, q, hq, by rw [hupdated], hrefills⟩
  · rw [if_neg hdue, if_neg hdue, if_neg hdue, hplayer]
    exact ⟨fun i hi => absurd hi List.not_mem_nil, d.player, .moved (.refl _) hstays, rfl,
      h.idle.symm⟩

/-- A poll is on time if it reads in one region, which has come. -/
theorem onTime_of_region {region : Region} (hreads : ∀ i ∈ d.polledReads, region.Spans i 1)
    (hclear : ∀ r ∈ d.upcoming.filterMap Notification.refillIn, ∀ i, region.Spans i 1 →
      ¬ r.Covers i)
    (hcome : d.ingested.session.active = true → ∀ i, region.Spans i 1 →
      i < d.ingested.session.write) : d.OnTime := by
  rintro i hi (⟨r, hr, hcovers⟩ | ⟨hactive, hwrite, -⟩)
  · rw [d.quiet_ingested.upcoming_eq.1] at hr
    exact hclear r hr i (hreads i hi) hcovers
  · exact absurd (hcome hactive i (hreads i hi)) (Nat.not_lt.mpr hwrite)

/-! ## While the loop region is filled -/

/-- What the device has asked for follows a stream of `size` bytes. -/
def AsksBehind (size : Nat) (d : Device) : Prop :=
  ∀ r ∈ d.upcoming.filterMap Notification.refillIn, r.Follows size

/-- So does what has been asked for later, if the player has asked for no more than that. -/
theorem AsksBehind.append {size : Nat} {number : UInt32} {rs : List Refill} {d' : Device}
    (h : d.AsksBehind size) (hrefills : ∀ r ∈ rs, r.Follows size)
    (hupcoming : d'.upcoming = d.upcoming ++ Outgoing.wire number (rs.map .refill)) :
    d'.AsksBehind size := by
  unfold AsksBehind
  rw [hupcoming, List.filterMap_append, Outgoing.refillsIn_wire, Outgoing.filterMap_refills]
  exact fun r hr => (List.mem_append.mp hr).elim (h r) (hrefills r)

theorem AsksBehind.suffix {size : Nat} {d' : Device} (h : d.AsksBehind size)
    (hsuffix : d'.upcoming <:+ d.upcoming) : d'.AsksBehind size := fun r hr =>
  h r ((hsuffix.filterMap _).subset hr)

/-- The device plays its first pass in the linear region, has asked for the loop region, and does
not end the pass before the timer is advanced again. -/
structure Lingers (s : Score) (w : Window) (h : Host) (d : Device) : Prop where
  course : ∃ waiting part, d.OnCourse s w waiting 0 part ∧ h.Expects waiting d ∧
    waitsIn part + d.timer.elapsed.toNat ≤ waitsIn s.first
  stays : d.player.Stays s.stream.size
  cached : d.player.loopCached = true
  region : d.player.position.region = .linear
  manual : d.timer.manual = true
  asks : d.AsksBehind s.stream.size

/-- So the polls of the upload that fills the loop region are on time. -/
theorem Lingers.poll {old : Device} {host : Host} {done rest : ByteArray}
    {ps coming : List Packet} (h : d.Lingers s (filled s.stream old.window s.loopRefill) host)
    (hplayable : s.Playable) (hshort : s.Short)
    (hreceiving : Receiving old (answer s.stream s.loopRefill) done rest ps coming d) :
    d.OnTime ∧ d.poll.Lingers s (filled s.stream old.window s.loopRefill) host := by
  obtain ⟨waiting, part, hcourse, hexpects, hahead⟩ := h.course
  have hregion := h.region
  obtain ⟨hfits, hbehind, -⟩ := answer_le s.stream s.ofRegion_loopRefill
  obtain ⟨done', rest', hpolled, -⟩ := hreceiving.poll hfits
  have hsession := d.sameUpload_poll.session
  have hwindow (i : Nat) : d.poll.window.byte i = d.ingested.window.byte i :=
    congrFun (congrFun d.memory_poll Destination.window) i
  -- the bytes that are still to come lie behind the linear region
  have hlate (i : Nat) (hi : Region.linear.Spans i 1) : i < d.poll.session.write := by
    have hlow : i + 1 ≤ linearEnd := hi.2
    rw [hpolled.write]
    omega
  have hclear : ∀ r ∈ d.upcoming.filterMap Notification.refillIn, ∀ i,
      d.player.position.region.Spans i 1 → ¬ r.Covers i :=
    fun r hr i hi => (h.asks r hr).not_covers h.stays.region hi
  obtain ⟨hreads, q, hq, hplayer, hrefills⟩ := hcourse.poll_stays hplayable h.stays fun i hi => by
    refine ⟨?_, fun r hr => hclear r (hexpects.refills_eq ▸ hr) i hi⟩
    rw [← hwindow]
    refine hpolled.byte_window hfits fun hstill => ?_
    exact Nat.not_lt.mpr hstill.2.1 (hlate i (hregion ▸ hi))
  have hontime : d.OnTime := onTime_of_region hreads hclear fun _ i hi => by
    rw [← hsession.write]
    exact hlate i (hregion ▸ hi)
  obtain ⟨waiting', k', part', hcourse', hexpects', -, -, hpaced⟩ :=
    hcourse.poll_receiving hplayable hexpects hreceiving hfits hbehind hontime
  obtain ⟨hmanual, hpaced⟩ := hpaced h.manual
  obtain ⟨rfl, hahead'⟩ := hpaced hahead
  have hcount : q.loopCount = d.player.loopCount := by
    rw [hcourse.loopCount_eq, ← hcourse'.loopCount_eq, hplayer]
  obtain ⟨hmoved, hnothing⟩ := hq.asks_nothing hcount h.cached hcourse.idle
  refine ⟨hontime, ⟨waiting', part', hcourse', hexpects', Nat.le_trans hahead' hahead⟩, ?_, ?_, ?_,
    hmanual, ?_⟩
  · rw [hplayer]
    exact (hq.stays (hcourse.short hshort)).congr rfl rfl rfl rfl
  · rw [hplayer]
    exact hmoved.cached h.cached
  · rw [hplayer]
    exact hmoved.region.trans hregion
  · have hupcoming := (poll_upcoming hcourse.held).1
    rw [hrefills, hnothing] at hupcoming
    exact h.asks.append (fun r hr => absurd hr List.not_mem_nil) hupcoming

end Device

namespace Bench

open Device

variable {s : Score} {k k' due : Nat} {part part' : List Located} {b : Bench}

/-- How far the loop region has come. Until it has, the bench is in its first pass. `due` is one if
the wait is over. -/
inductive Fetching (s : Score) (k : Nat) (part : List Located) (due : Nat) (b : Bench) : Prop
  /-- There is no loop point. -/
  | none (hloop : s.loop = 0) (hasks : b.device.AsksBehind s.stream.size)
  /-- The player has not come to the loop point. -/
  | ahead (hloop : s.loop ≠ 0) (hk : k = 0) (huncached : b.device.player.loopCached = false)
      (hfew : b.device.upcoming.length ≤ 3) (hasks : b.device.AsksBehind s.stream.size)
  /-- The refill waits behind the messages of `front`, and more waits than those are ahead. -/
  | waiting (hk : k = 0) (hcached : b.device.player.loopCached = true)
      (hregion : b.device.player.position.region = .linear) (front : List ByteArray)
      (message : ByteArray) (back : List ByteArray)
      (hupcoming : b.device.upcoming = front ++ message :: back)
      (hmessage : Notification.refillIn message = some s.loopRefill)
      (hasks : ∀ r ∈ (front ++ back).filterMap Notification.refillIn, r.Follows s.stream.size)
      (hahead : waitsIn part + front.length + due ≤ waitsIn s.first)
  /-- The refill has been answered. -/
  | filled (hcached : b.device.player.loopCached = true) (hserved : 0 < b.host.served)
      (hasks : b.device.AsksBehind s.stream.size)

/-- The bench is on course, and its player stays in a region that has come. -/
structure AtHome (s : Score) (k : Nat) (part : List Located) (due : Nat) (b : Bench) : Prop where
  course : b.OnCourse s k part
  stays : b.device.player.Stays s.stream.size
  manual : b.device.timer.manual = true
  fetching : b.Fetching s k part due

/-- The region of the player has come. -/
theorem AtHome.clear (h : b.AtHome s k part due) :
    ∀ r ∈ b.device.upcoming.filterMap Notification.refillIn, ∀ i,
      b.device.player.position.region.Spans i 1 → ¬ r.Covers i := by
  intro r hr i hi
  cases h.fetching with
  | none _ hasks | ahead _ _ _ _ hasks | filled _ _ hasks =>
    exact (hasks r hr).not_covers h.stays.region hi
  | waiting _ _ hregion front message back hupcoming hmessage hasks _ =>
    rw [hupcoming, List.filterMap_append, List.filterMap_cons, hmessage, List.mem_append,
      List.mem_cons] at hr
    rw [List.filterMap_append] at hasks
    rcases hr with hr | rfl | hr
    · exact (hasks r (List.mem_append_left _ hr)).not_covers h.stays.region hi
    · exact Refill.not_covers_of_linear (hregion ▸ hi)
    · exact (hasks r (List.mem_append_right _ hr)).not_covers h.stays.region hi

/-! ## The poll of a round -/

/-- The update of a round asks for the loop region when it is to, and comes to no jump before that
has been filled. -/
theorem AtHome.fetching_tick {q : Player} {number : UInt32} (h : b.AtHome s k part 1)
    (hplayable : s.Playable) (hshort : s.Short)
    (hticked : (b.onDevice Device.tick).OnCourse s k' part')
    (hpaced : waitsIn part + 1 ≤ waitsIn (passAt s.first s.later k) →
      k' = k ∧ waitsIn part' + due ≤ waitsIn part + 1)
    (hq : Stayed s.stream.size b.device.player q)
    (hplayer : b.device.tick.player = { q with requests := b.device.tick.player.requests })
    (hupcoming : b.device.tick.upcoming =
      b.device.upcoming ++ Outgoing.wire number (q.requests.toList.map .refill)) :
    (b.onDevice Device.tick).Fetching s k' part' due := by
  obtain ⟨waiting, hcourse, -⟩ := h.course.device
  obtain ⟨waiting', hcourse', -⟩ := hticked.device
  have hidle := hcourse.idle
  have hloop := hcourse.start_loop.2
  have hcached : b.device.tick.player.loopCached = q.loopCached := by rw [hplayer]
  have hcount (hk : k' = k) : q.loopCount = b.device.player.loopCount := by
    have hcounted : b.device.tick.player.loopCount = UInt32.ofNat k' := hcourse'.loopCount_eq
    rw [hplayer] at hcounted
    rw [hcourse.loopCount_eq, ← hk]
    exact hcounted
  have hfollow := hq.follows (hcourse.short hshort) hidle
  cases h.fetching with
  | none hzero hasks =>
    refine .none hzero (hasks.append (hfollow (.inr ?_)) hupcoming)
    rw [← hcached]
    exact hcourse'.uncached hzero
  | ahead hne hk huncached hfew hasks =>
    have hroom := hcourse.waits_ahead hplayable h.stays hne huncached
    have hmany := hshort.waits hne
    -- the waits behind the loop point are ahead, so the update does not end the pass
    obtain ⟨rfl, hleft⟩ := hpaced (by omega)
    subst hk
    have hmoved := hq.moved_of_loopCount (hcount rfl)
    have hrequests := hmoved.requests
    rw [hidle, huncached, List.nil_append] at hrequests
    cases hdone : q.loopCached with
    | false =>
      rw [hdone, if_pos rfl] at hrequests
      refine .ahead hne rfl (hcached.trans hdone) ?_
        (hasks.append (hfollow (.inr hdone)) hupcoming)
      have hsame : b.device.tick.upcoming = b.device.upcoming := by
        rw [hupcoming, hrequests, List.map_nil]
        exact List.append_nil _
      exact hsame ▸ hfew
    | true =>
      -- the loop point has come: its refill stands behind at most three messages
      rw [hdone, if_neg Bool.false_ne_true] at hrequests
      rw [hrequests] at hupcoming
      refine .waiting rfl (hcached.trans hdone) ?_ _ _ [] hupcoming ?_ ?_ ?_
      · show b.device.tick.player.position.region = .linear
        rw [hplayer]
        exact hmoved.region.trans (h.stays.linear huncached)
      · rw [Score.loopRefill, ← hloop]
        exact Outgoing.refillIn_withNumber _ _
      · rw [List.append_nil]
        exact hasks
      · replace hroom : waitsIn part + waitsIn s.later ≤ waitsIn s.first := hroom
        omega
  | waiting hk hdone hregion front message back hwhole hmessage hasks hahead =>
    subst hk
    obtain ⟨rfl, hleft⟩ := hpaced (Nat.le_trans (by omega) hahead)
    obtain ⟨hmoved, hnothing⟩ := hq.asks_nothing (hcount rfl) hdone hidle
    rw [hnothing, List.map_nil] at hupcoming
    refine .waiting rfl (hcached.trans (hmoved.cached hdone)) ?_ front message back
      ((hupcoming.trans (List.append_nil _)).trans hwhole) hmessage hasks (by omega)
    show b.device.tick.player.position.region = .linear
    rw [hplayer]
    exact hmoved.region.trans hregion
  | filled hdone hserved hasks =>
    exact .filled (hcached.trans (hq.cached hdone)) hserved
      (hasks.append (hfollow (.inl hdone)) hupcoming)

/-- The poll of a round is on time, and leaves the bench at home. The next message is in the slot
then. -/
theorem AtHome.tick (h : b.AtHome s k part 1) (hplayable : s.Playable) (hshort : s.Short) :
    Device.OnTime { b.device with timer := b.device.timer.expire } ∧
      ∃ k' part', (b.onDevice Device.tick).AtHome s k' part' b.device.tick.timer.elapsed.toNat ∧
        b.device.tick.endpoint.inSlot = b.device.tick.upcoming.head? := by
  obtain ⟨waiting, hcourse, hexpects⟩ := h.course.device
  let d : Device := { b.device with timer := b.device.timer.expire }
  have hd : d.OnCourse s d.window waiting k part := hcourse.congr rfl rfl rfl rfl rfl rfl rfl
  obtain ⟨-, hwindow, hsession⟩ := ingested_of_inactive (d := d) h.course.inactive
  have hclear := h.clear
  obtain ⟨hreads, q, hq, hplayer, hrefills⟩ := hd.poll_stays hplayable h.stays fun i hi =>
    ⟨by rw [hwindow], fun r hr => hclear r (hexpects.refills_eq ▸ hr) i hi⟩
  have hontime : d.OnTime := onTime_of_region hreads hclear fun hactive => by
    rw [hsession] at hactive
    exact absurd (h.course.inactive.symm.trans hactive) Bool.false_ne_true
  obtain ⟨k', part', hticked, -, -, hpaced⟩ := h.course.tick hplayable hontime
  obtain ⟨hmanual, hpaced⟩ := hpaced h.manual
  have hupcoming := (poll_upcoming hd.held).1
  rw [hrefills] at hupcoming
  refine ⟨hontime, k', part', ⟨hticked, ?_, hmanual, ?_⟩, poll_inSlot hd.held⟩
  · show d.poll.player.Stays s.stream.size
    rw [hplayer]
    exact (hq.stays (hcourse.short hshort)).congr rfl rfl rfl rfl
  · exact h.fetching_tick hplayable hshort hticked hpaced hq hplayer hupcoming

/-! ## The answer of a round -/

/-- The host has nothing to answer with behind the end of its stream. -/
theorem size_answer_of_follows {stream : ByteArray} {r : Refill} (h : r.Follows stream.size) :
    (answer stream r).data.size = 0 := by
  obtain ⟨region, source, -, hsource, rfl⟩ := h
  show (stream.extract source.toNat _).size = 0
  rw [ByteArray.size_extract]
  omega

/-- In front of that it always has something. -/
theorem size_answer_pos {stream : ByteArray} {region : Region} {source : UInt32}
    (h : source.toNat < stream.size) : 0 < (answer stream (.ofRegion region source)).data.size := by
  show 0 < (stream.extract source.toNat
    (source.toNat + (Refill.ofRegion region source).length.toNat)).size
  rw [ByteArray.size_extract, Refill.length_ofRegion]
  unfold regionSize
  omega

/-- If the message in the slot asks for what follows the stream, or for nothing, the host answers it
with no upload, and the device only loses that message. -/
theorem serve_of_follows {waiting : List Refill} (hexpects : b.host.Expects waiting b.device)
    (hmasked : b.host.sequence &&& Notification.sequenceMask = b.host.sequence)
    (hfirst : ∀ message r, b.device.endpoint.inSlot = some message →
      Notification.refillIn message = some r → r.Follows b.host.stream.size) :
    b.servePolls = [] ∧ ∃ host endpoint,
      b.serve = (none, { b with device := { b.device with endpoint }, host }) ∧
      host.served = b.host.served ∧
      b.device.upcoming =
        b.device.endpoint.inSlot.toList ++ ({ b.device with endpoint } : Device).upcoming := by
  cases hslot : b.device.endpoint.inSlot with
  | none =>
    refine ⟨?_, b.host, b.device.endpoint, serve_of_none hslot, rfl, rfl⟩
    rw [servePolls, hslot]
  | some message =>
    obtain ⟨host, hanswer, hserved⟩ : ∃ host, b.host.answer message = (none, host) ∧
        host.served = b.host.served := by
      rcases hexpects.read hslot with ⟨word, rfl, -⟩ | ⟨r, rest, rfl, rfl, -⟩
      · exact ⟨_, Host.answer_status _ _, rfl⟩
      · have hnothing : (b.host.part r).size = 0 :=
          size_answer_of_follows (hfirst _ r hslot (Outgoing.refillIn_withNumber _ (.refill r)))
        rw [Host.answer_refill hmasked, if_pos hnothing]
        exact ⟨_, rfl, rfl⟩
    refine ⟨?_, host, b.device.endpoint.takeIn.2, ?_, hserved, ?_⟩
    · rw [servePolls, hslot]
      dsimp only
      rw [hanswer]
    · rw [serve_of_some hslot, hanswer]
      rfl
    · rw [upcoming, hslot]
      rfl

/-- Such an answer takes no poll, and leaves the bench at home. -/
theorem AtHome.serve_of_follows (h : b.AtHome s k part b.device.timer.elapsed.toNat)
    (hplayable : s.Playable) (hshort : s.Short)
    (hslot : b.device.endpoint.inSlot = b.device.upcoming.head?)
    (hfirst : ∀ message r, b.device.upcoming.head? = some message →
      Notification.refillIn message = some r → r.Follows s.stream.size) :
    (∀ d ∈ b.servePolls, d.OnTime ∧ d.player.loopCount = 0) ∧
      ∃ b' k' part', b.serve = (none, b') ∧ b'.AtHome s k' part' 1 ∧ b'.config = b.config := by
  obtain ⟨waiting, hcourse, hexpects⟩ := h.course.device
  rw [← hslot] at hfirst
  obtain ⟨hpolls, host, endpoint, hserve, hserved, hupcoming⟩ :=
    Bench.serve_of_follows hexpects h.course.masked (h.course.stream ▸ hfirst)
  obtain ⟨b', k', part', hserve', hcourse', -, -, -, -, hpaced⟩ :=
    h.course.serve hplayable (by simp [hpolls])
  obtain rfl := (Prod.mk.inj (hserve.symm.trans hserve')).2
  obtain ⟨hmanual, hpaced⟩ := hpaced h.manual
  refine ⟨by simp [hpolls], _, k', part', hserve, ⟨hcourse', h.stays, hmanual, ?_⟩, rfl⟩
  have hsuffix : ({ b.device with endpoint } : Device).upcoming <:+ b.device.upcoming :=
    ⟨_, hupcoming.symm⟩
  have hbit := Bool.toNat_le b.device.timer.elapsed
  cases h.fetching with
  | none hzero hasks => exact .none hzero (hasks.suffix hsuffix)
  | ahead hne hk huncached hfew hasks =>
    have hroom := hcourse.waits_ahead hplayable h.stays hne huncached
    have hmany := hshort.waits hne
    obtain ⟨rfl, -⟩ := hpaced (by omega)
    exact .ahead hne hk huncached (Nat.le_trans hsuffix.length_le hfew) (hasks.suffix hsuffix)
  | waiting hk hcached hregion front message back hwhole hmessage hasks hahead =>
    subst hk
    obtain ⟨rfl, hleft⟩ := hpaced (Nat.le_trans (by omega) hahead)
    rw [hslot, hwhole] at hupcoming hfirst
    cases front with
    -- the refill itself is not answered here
    | nil => exact absurd (hfirst message _ rfl hmessage) Refill.not_follows_loop
    | cons m front =>
      refine .waiting rfl hcached hregion front message back (List.cons.inj hupcoming).2.symm
        hmessage (fun r hr => hasks r ?_) ?_
      · rw [List.cons_append, List.filterMap_cons]
        split
        · exact hr
        · exact List.mem_cons_of_mem _ hr
      · rw [List.length_cons] at hahead
        omega
  | filled hcached hserved₀ hasks =>
    exact .filled hcached (hserved ▸ hserved₀) (hasks.suffix hsuffix)

theorem serve_of_answer {message : ByteArray} {u : Upload} {host : Host}
    (hslot : b.device.endpoint.inSlot = some message)
    (hanswer : b.host.answer message = (some u, host)) :
    b.servePolls = uploadPolls { b with device := b.device.react .read, host } u ∧
      b.serve = upload { b with device := b.device.react .read, host } u := by
  rw [servePolls, serve_of_some hslot, hslot]
  dsimp only
  rw [hanswer]
  exact ⟨rfl, rfl⟩

/-- The polls of the upload that fills the loop region are on time, as the player lingers. -/
theorem upload_of_lingers (hplayable : s.Playable) (hshort : s.Short) (hready : b.device.Ready)
    (hu : (answer s.stream s.loopRefill).Fits)
    (hlingers : (b.device.sentWhole (answer s.stream s.loopRefill)).Lingers s
      (filled s.stream b.device.window s.loopRefill) b.host) :
    (∀ d ∈ b.uploadPolls (answer s.stream s.loopRefill), d.OnTime ∧ d.player.loopCount = 0) ∧
      ∃ d, b.upload (answer s.stream s.loopRefill) = (none, { b with device := d }) ∧
        d.Lingers s (filled s.stream b.device.window s.loopRefill) b.host := by
  constructor
  · refine forall_uploadPolls hready hu hlingers fun d done rest ps hreceiving hd => ?_
    obtain ⟨waiting, part, hcourse, -⟩ := hd.course
    obtain ⟨hontime, hnext⟩ := hd.poll hplayable hshort hreceiving
    exact ⟨⟨hontime, hcourse.loopCount_eq⟩, hnext⟩
  · obtain ⟨-, d, hupload, -, -, -, hend⟩ := upload_of_ready
      (P := fun _ d => d.Lingers s (filled s.stream b.device.window s.loopRefill) b.host) hready hu
      hlingers fun d _ _ _ _ _ hreceiving hd => (hd.poll hplayable hshort hreceiving).2
    exact ⟨d, hupload, hend⟩

/-- When the refill of the loop region is in the slot, it is answered, and the bench stays at home.
-/
theorem AtHome.serve_loop (h : b.AtHome s 0 part b.device.timer.elapsed.toNat)
    (hplayable : s.Playable) (hshort : s.Short) {message : ByteArray} {back : List ByteArray}
    (hslot : b.device.endpoint.inSlot = some message)
    (hupcoming : b.device.upcoming = message :: back)
    (hmessage : Notification.refillIn message = some s.loopRefill)
    (hasks : ∀ r ∈ back.filterMap Notification.refillIn, r.Follows s.stream.size)
    (hcached : b.device.player.loopCached = true)
    (hregion : b.device.player.position.region = .linear)
    (hahead : waitsIn part + b.device.timer.elapsed.toNat ≤ waitsIn s.first) :
    (∀ d ∈ b.servePolls, d.OnTime ∧ d.player.loopCount = 0) ∧
      ∃ b' k' part', b.serve = (none, b') ∧ b'.AtHome s k' part' 1 ∧ b'.config = b.config := by
  obtain ⟨waiting, hcourse, hexpects⟩ := h.course.device
  have hloop : s.loop ≠ 0 := fun hzero =>
    absurd ((hcourse.uncached hzero).symm.trans hcached) Bool.false_ne_true
  rcases hexpects.read hslot with ⟨word, rfl, -⟩ | ⟨r, rest, rfl, rfl, hafter⟩
  · have hnone := Outgoing.refillIn_withNumber 0 (.status word)
    exact absurd (hnone.symm.trans hmessage) (by simp [Outgoing.refill?])
  obtain rfl : r = s.loopRefill :=
    Option.some.inj ((Outgoing.refillIn_withNumber _ (.refill r)).symm.trans hmessage)
  -- the host has what it is asked for, and opens an upload
  have hsize : 0 < (answer s.stream s.loopRefill).data.size :=
    size_answer_pos (hshort.loop_lt hloop)
  have hu : (answer s.stream s.loopRefill).Fits :=
    ⟨hsize, (answer_le s.stream s.ofRegion_loopRefill).1⟩
  have hpart : b.host.part s.loopRefill = (answer s.stream s.loopRefill).data := by
    rw [Host.part, h.course.stream, answer]
  have hanswer := Host.answer_refill h.course.masked s.loopRefill
  rw [hpart, if_neg (Nat.ne_of_gt hsize)] at hanswer
  obtain ⟨hpolls, hserve⟩ := serve_of_answer hslot hanswer
  have hready : (b.device.react .read).Ready :=
    ⟨h.course.ready.inStep.react .read, { h.course.ready.drained with }⟩
  have hquiet : (b.device.react .read).Quiet
      ((b.device.react .read).sentWhole (answer s.stream s.loopRefill)) := quiet_sentWhole hu
  have hback : (b.device.react .read).upcoming = back := by
    rw [upcoming, hslot] at hupcoming
    exact (List.cons.inj hupcoming).2
  obtain ⟨hontime, d, hupload, hend⟩ := upload_of_lingers
    (b := { b with
      device := b.device.react .read
      host := { b.host with
        sequence := Notification.nextSequence b.host.sequence
        served := b.host.served + 1 } })
    hplayable hshort hready hu
    { course := ⟨rest, part, hcourse.answered.congr rfl rfl hquiet.startPending rfl rfl rfl rfl,
        (hafter _ rfl).of_quiet hquiet, hahead⟩
      stays := h.stays
      cached := hcached
      region := hregion
      manual := h.manual
      asks := by
        unfold AsksBehind
        rw [hquiet.upcoming_eq.1, hback]
        exact hasks }
  obtain ⟨b', k', part', hserve', hcourse', -⟩ :=
    h.course.serve hplayable fun d hd => (hontime d (hpolls ▸ hd)).1
  obtain rfl := (Prod.mk.inj (hupload.symm.trans (hserve.symm.trans hserve'))).2
  refine ⟨hpolls ▸ hontime, _, k', part', hserve', ⟨hcourse', hend.stays, hend.manual, ?_⟩, rfl⟩
  exact .filled hend.cached (Nat.succ_pos _) hend.asks

/-- Whatever the host answers, the polls of its upload are on time, and the bench stays at home. -/
theorem AtHome.serve (h : b.AtHome s k part b.device.timer.elapsed.toNat) (hplayable : s.Playable)
    (hshort : s.Short) (hslot : b.device.endpoint.inSlot = b.device.upcoming.head?) :
    (∀ d ∈ b.servePolls, d.OnTime ∧ d.player.loopCount = 0) ∧
      ∃ b' k' part', b.serve = (none, b') ∧ b'.AtHome s k' part' 1 ∧ b'.config = b.config := by
  cases h.fetching with
  | none _ hasks | ahead _ _ _ _ hasks | filled _ _ hasks =>
    refine h.serve_of_follows hplayable hshort hslot fun message r hhead hr => ?_
    exact hasks r (List.mem_filterMap.mpr ⟨message, List.mem_of_mem_head? hhead, hr⟩)
  | waiting hk hcached hregion front message back hupcoming hmessage hasks hahead =>
    cases front with
    | nil =>
      subst hk
      exact h.serve_loop hplayable hshort (by rw [hslot, hupcoming]; rfl) hupcoming hmessage hasks
        hcached hregion hahead
    | cons m front =>
      refine h.serve_of_follows hplayable hshort hslot fun message' r hhead hr => ?_
      rw [hupcoming] at hhead
      obtain rfl : m = message' := Option.some.inj hhead
      exact hasks r (List.mem_filterMap.mpr ⟨m, List.mem_cons_self, hr⟩)

/-! ## Rounds -/

/-- The polls of a round are on time, and leave the bench at home. -/
theorem AtHome.round (h : b.AtHome s k part 1) (hplayable : s.Playable) (hshort : s.Short) :
    (∀ d ∈ b.roundPolls, d.OnTime ∧ d.player.loopCount ≤ b.device.player.loopCount) ∧
      ∃ b' k' part', b.round = (none, b') ∧ b'.AtHome s k' part' 1 ∧ b'.config = b.config := by
  obtain ⟨hontime, k₁, part₁, hhome, hslot⟩ := h.tick hplayable hshort
  obtain ⟨hpolls, hserved⟩ :=
    AtHome.serve (b := b.onDevice Device.tick) hhome hplayable hshort hslot
  refine ⟨List.forall_mem_cons.mpr ⟨⟨hontime, UInt32.le_refl _⟩, fun d hd => ?_⟩, hserved⟩
  obtain ⟨hd, hnone⟩ := hpolls d hd
  exact ⟨hd, hnone ▸ UInt32.zero_le⟩

/-- From home every poll is on time, and none comes after the last end of the stream. -/
theorem AtHome.playPolls (h : b.AtHome s k part 1) (hplayable : s.Playable) (hshort : s.Short)
    (limit : Nat) :
    (∀ d ∈ b.playPolls limit, d.OnTime ∧ d.player.loopCount < b.config.loops) ∧
      ∃ k' part', (b.play limit).2.AtHome s k' part' 1 := by
  induction limit generalizing b k part with
  | zero => exact ⟨fun d hd => absurd hd List.not_mem_nil, k, part, h⟩
  | succ limit ih =>
    obtain ⟨hontime, b', k', part', hround, hhome, hconfig⟩ := h.round hplayable hshort
    rw [Bench.playPolls, Bench.play]
    by_cases hover : b.isOver = true
    · rw [if_pos hover, if_pos hover]
      exact ⟨fun d hd => absurd hd List.not_mem_nil, k, part, h⟩
    · rw [if_neg hover, if_neg hover, hround]
      obtain ⟨hlater, hplayed⟩ := ih hhome
      refine ⟨List.forall_mem_append.mpr ⟨fun d hd => ?_, hconfig ▸ hlater⟩, hplayed⟩
      obtain ⟨hd, hcount⟩ := hontime d hd
      refine ⟨hd, UInt32.lt_of_le_of_lt hcount (UInt32.not_le.mp fun hle => hover ?_)⟩
      simp [isOver, hle]

/-- A pass over a stream with a loop point does not end before the host has served its refill. -/
theorem AtHome.served (h : b.AtHome s k part due) (hloop : s.loop ≠ 0)
    (hpassed : 0 < b.report.loops) : 0 < b.report.refillsServed := by
  obtain ⟨waiting, hcourse, -⟩ := h.course.device
  have hk : k ≠ 0 := by
    rintro rfl
    have hnone : b.report.loops = 0 := hcourse.loopCount_eq
    exact absurd hpassed (by rw [hnone]; decide)
  cases h.fetching with
  | none hzero => exact absurd hzero hloop
  | ahead _ hzero | waiting hzero => exact absurd hzero hk
  | filled _ hserved => exact hserved

/-- A bench that begins to play such a stream is at home. -/
theorem Begun.atHome (h : b.Begun s) (hplayable : s.Playable) (hshort : s.Short) :
    b.AtHome s 0 [] 1 := by
  have hlow : s.start.toNat < linearEnd :=
    Nat.lt_of_lt_of_le hplayable.first_pass.lt_size hshort.linear
  have hasks : b.device.AsksBehind s.stream.size := by
    unfold AsksBehind
    rw [h.asked]
    refine Refill.follows_preload ?_ ?_ <;> rw [toNat_linearEnd]
    · exact hshort.linear
    · decide
  refine ⟨h.course, ?_, by rw [h.timer], ?_⟩
  · exact {
      start_lt := h.start ▸ hlow
      inside := by
        rw [h.position]
        exact .enter (Nat.zero_le _) (Nat.le_of_lt hlow)
      inLoop := fun hregion => by
        rw [h.position] at hregion
        cases hregion
      region := by
        rw [h.position]
        rfl
      room := by
        have hlinear := hshort.linear
        rw [h.position]
        show s.stream.size ≤ s.start.toNat + (linearEnd - s.start.toNat)
        omega
      behind := fun hne _ => by
        have hle := hshort.start_le (h.loop ▸ hne)
        rw [h.position, h.loop]
        show s.start.toNat + (s.start.toNat - s.start.toNat) ≤ s.loop.toNat
        omega }
  · by_cases hloop : s.loop = 0
    · exact .none hloop hasks
    · exact .ahead hloop rfl h.uncached (by rw [h.upcoming]; exact Nat.le_refl 3) hasks

/-! ## Prepared files -/

variable {file : ByteArray} {p : Prepared} {loop : UInt32}

/-- So is one that is set up for a prepared file, if all of the file fits the linear region and it
has no loop point, or short loops. -/
theorem atHome_of_prepare (h : prepare file = .ok p) (hend : p.stats.endOfStream = true)
    (hsize : file.size + 0x8000 < 2 ^ 32) (hstart : Stream.start file < linearEnd)
    (hlinear : p.data.size ≤ linearEnd) (hloop : HeaderField.loopOffset.resolve p.data = .ok loop)
    (hloops : LoopsShort p.data loop) (deviceConfig : DeviceConfig) (config : BenchConfig)
    (hrecord : config.recordWrites = true) {ready : Bench}
    (hready : (Bench.new deviceConfig config (.ofPrepared p)).setUp = (none, ready)) :
    ∃ s : Score, s.Playable ∧ s.Short ∧ s.loop = loop ∧ ready.AtHome s 0 [] 1 ∧
      ready.config = config := by
  obtain ⟨s, ready', hsetUp, hplayable, hbegun, hconfig, hstream, -, -, hresolve, -⟩ :=
    setUp_of_prepare h hend hsize hstart deviceConfig config hrecord
  obtain rfl : ready' = ready := congrArg Prod.snd (hsetUp.symm.trans hready)
  obtain rfl : s.loop = loop := Except.ok.inj (hresolve.symm.trans hloop)
  have hshort : s.Short := hplayable.short (hstream ▸ hlinear) (hstream ▸ hloops)
  exact ⟨s, hplayable, hshort, rfl, hbegun.atHome hplayable hshort, hconfig⟩

/-- Such a file is always on time. A run of it makes no poll after its last end of the stream. -/
theorem playPolls_of_short (h : prepare file = .ok p) (hend : p.stats.endOfStream = true)
    (hsize : file.size + 0x8000 < 2 ^ 32) (hstart : Stream.start file < linearEnd)
    (hlinear : p.data.size ≤ linearEnd) (hloop : HeaderField.loopOffset.resolve p.data = .ok loop)
    (hloops : LoopsShort p.data loop) (deviceConfig : DeviceConfig) (config : BenchConfig)
    (hrecord : config.recordWrites = true) :
    ∀ ready, (Bench.new deviceConfig config (.ofPrepared p)).setUp = (none, ready) →
      ∀ limit, ∀ d ∈ ready.playPolls limit, d.OnTime ∧ d.player.loopCount < config.loops := by
  intro ready hready limit
  obtain ⟨s, hplayable, hshort, -, hhome, rfl⟩ :=
    atHome_of_prepare h hend hsize hstart hlinear hloop hloops deviceConfig config hrecord hready
  exact (hhome.playPolls hplayable hshort limit).1

theorem onTime_of_short (h : prepare file = .ok p) (hend : p.stats.endOfStream = true)
    (hsize : file.size + 0x8000 < 2 ^ 32) (hstart : Stream.start file < linearEnd)
    (hlinear : p.data.size ≤ linearEnd) (hloop : HeaderField.loopOffset.resolve p.data = .ok loop)
    (hloops : LoopsShort p.data loop) (deviceConfig : DeviceConfig) (config : BenchConfig)
    (hrecord : config.recordWrites = true) :
    ∀ ready, (Bench.new deviceConfig config (.ofPrepared p)).setUp = (none, ready) →
      ∀ limit, ∀ d ∈ ready.playPolls limit, d.OnTime := fun ready hready limit d hd =>
  (playPolls_of_short h hend hsize hstart hlinear hloop hloops deviceConfig config hrecord ready
    hready limit d hd).1

/-- If it has a loop point, the host has served a refill once a pass is over. -/
theorem refillsServed_of_short (h : prepare file = .ok p) (hend : p.stats.endOfStream = true)
    (hsize : file.size + 0x8000 < 2 ^ 32) (hstart : Stream.start file < linearEnd)
    (hlinear : p.data.size ≤ linearEnd) (hloop : HeaderField.loopOffset.resolve p.data = .ok loop)
    (hloops : LoopsShort p.data loop) (hne : loop ≠ 0) (deviceConfig : DeviceConfig)
    (config : BenchConfig) (hrecord : config.recordWrites = true) (limit : Nat)
    (hpassed : 0 < ((Bench.new deviceConfig config (.ofPrepared p)).run limit).2.report.loops) :
    0 < ((Bench.new deviceConfig config (.ofPrepared p)).run limit).2.report.refillsServed := by
  obtain ⟨-, ready, hsetUp, -⟩ :=
    setUp_of_prepare h hend hsize hstart deviceConfig config hrecord
  obtain ⟨s, hplayable, hshort, hsame, hhome, -⟩ :=
    atHome_of_prepare h hend hsize hstart hlinear hloop hloops deviceConfig config hrecord hsetUp
  rw [run, hsetUp] at hpassed ⊢
  obtain ⟨k, part, hplayed⟩ := (hhome.playPolls hplayable hshort limit).2
  exact hplayed.served (hsame ▸ hne) hpassed

end Bench
end ChipReplay
