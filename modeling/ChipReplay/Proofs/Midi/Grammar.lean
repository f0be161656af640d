import Mathlib.Data.FinEnum
import Mathlib.Data.List.SplitBy
import Mathlib.Data.List.TakeWhile
import ChipReplay.Midi
/-!
# The grammar of a MIDI stream

Which messages a stream of bytes holds can be said of the stream as a whole: realtime bytes left
out, it consists of stray data and then of segments, each a status byte with the data behind it, and
a segment makes one message if it has two data bytes (`messagesIn`). The parser, which sees one byte
at a time, gives just these messages, however the bytes come in (`assembles_grammar`). What carries
that is its state: of the stream so far it keeps the last segment, and that only while a message may
come of it (`pushAll_eq`).
-/

namespace ChipReplay

/-! ## The grammar -/

namespace Midi

/-- The bytes that are no realtime messages. -/
def heard (bytes : List UInt8) : List UInt8 := bytes.filter fun b => b < 0xF8

/-- The segments of a stream: from its first status byte on, each begins with a status byte and ends
in front of the next. -/
def segments (bytes : List UInt8) : List (List UInt8) :=
  ((heard bytes).dropWhile fun b => b < 0x80).splitBy fun _ b => b < 0x80

/-- The message of a segment with at least two data bytes. Those behind the second do not count. -/
def message? : List UInt8 → Option MidiMessage
  | status :: first :: second :: _ => some (.decode status first second)
  | _ => none

/-- The messages in a stream of bytes. -/
def messagesIn (bytes : List UInt8) : List MidiMessage := (segments bytes).filterMap message?

/-- What is kept of a segment while a message may come of it. -/
def partialOf : List UInt8 → MidiParser
  | [status] => .status status
  | [status, first] => .data status first
  | _ => .waiting

/-- A status byte and data bytes. -/
inductive Segment : List UInt8 → Prop
  | mk {status : UInt8} {data : List UInt8} (hstatus : 0x80 ≤ status) (hheard : status < 0xF8)
      (hdata : ∀ b ∈ data, b < 0x80) : Segment (status :: data)

end Midi

open Midi

variable {p : MidiParser} {bytes bs : List UInt8} {byte : UInt8}

/-! ## One byte -/

namespace MidiParser

theorem isRealtime_iff : isRealtime byte = true ↔ 0xF8 ≤ byte := decide_eq_true_iff

theorem isStatus_iff : isStatus byte = true ↔ 0x80 ≤ byte := by
  have h : ∀ b : UInt8, isStatus b = true ↔ 0x80 ≤ b := by decide +kernel
  exact h byte

theorem push_of_realtime (h : 0xF8 ≤ byte) : p.push byte = (none, p) :=
  if_pos (isRealtime_iff.mpr h)

theorem push_of_heard (h : byte < 0xF8) : p.push byte =
    if isStatus byte then (none, .status byte)
    else
      match p with
      | .waiting => (none, .waiting)
      | .status s => (none, .data s byte)
      | .data s first => (some (.decode s first byte), .waiting) :=
  if_neg (mt isRealtime_iff.mp (UInt8.not_le.mpr h))

theorem push_of_status (hstatus : 0x80 ≤ byte) (hheard : byte < 0xF8) :
    p.push byte = (none, .status byte) := by
  rw [push_of_heard hheard, if_pos (isStatus_iff.mpr hstatus)]

theorem push_of_data (h : byte < 0x80) : p.push byte =
    match p with
    | .waiting => (none, .waiting)
    | .status s => (none, .data s byte)
    | .data s first => (some (.decode s first byte), .waiting) := by
  rw [push_of_heard (UInt8.lt_trans h (by decide)),
    if_neg (mt isStatus_iff.mp (UInt8.not_le.mpr h))]

/-! ## Runs of bytes -/

theorem pushAll_cons (p : MidiParser) (byte : UInt8) (bytes : List UInt8) :
    p.pushAll (byte :: bytes) = ((p.push byte).1.toList ++ ((p.push byte).2.pushAll bytes).1,
      ((p.push byte).2.pushAll bytes).2) := rfl

theorem pushAll_append (xs ys : List UInt8) : p.pushAll (xs ++ ys) =
    ((p.pushAll xs).1 ++ ((p.pushAll xs).2.pushAll ys).1, ((p.pushAll xs).2.pushAll ys).2) := by
  induction xs generalizing p with
  | nil => rfl
  | cons x xs ih => rw [List.cons_append, pushAll_cons, ih, pushAll_cons, List.append_assoc]

/-- Realtime bytes are not noticed. -/
theorem pushAll_heard (bytes : List UInt8) : p.pushAll bytes = p.pushAll (heard bytes) := by
  induction bytes generalizing p with
  | nil => rfl
  | cons b bytes ih =>
    by_cases hb : b < 0xF8
    · have hkept : heard (b :: bytes) = b :: heard bytes := by
        rw [heard, List.filter_cons_of_pos (by simpa using hb), heard]
      rw [hkept, pushAll_cons, pushAll_cons, ih]
    · have hleft : heard (b :: bytes) = heard bytes := by
        rw [heard, List.filter_cons_of_neg (by simpa using hb), heard]
      rw [hleft, pushAll_cons, push_of_realtime (UInt8.not_lt.mp hb), ih]
      rfl

/-- Data without a status byte in front is passed over. -/
theorem pushAll_waiting (h : ∀ b ∈ bytes, b < 0x80) : waiting.pushAll bytes = ([], waiting) := by
  induction bytes with
  | nil => rfl
  | cons b bytes ih =>
    obtain ⟨hb, hbytes⟩ := List.forall_mem_cons.mp h
    rw [pushAll_cons, push_of_data hb]
    dsimp only
    rw [ih hbytes]
    rfl

/-- A segment gives its message, whatever was there before it. -/
theorem pushAll_segment {segment : List UInt8} (h : Segment segment) :
    p.pushAll segment = ((message? segment).toList, partialOf segment) := by
  obtain @⟨status, bytes, hstatus, hheard, hdata⟩ := h
  rw [pushAll_cons, push_of_status hstatus hheard]
  dsimp only
  match bytes, hdata with
  | [], _ => rfl
  | [first], hdata =>
    rw [pushAll_cons, push_of_data (hdata first List.mem_cons_self)]
    rfl
  | first :: second :: rest, hdata =>
    obtain ⟨hfirst, hdata⟩ := List.forall_mem_cons.mp hdata
    obtain ⟨hsecond, hrest⟩ := List.forall_mem_cons.mp hdata
    -- the second data byte completes the message, and what is behind it is stray
    rw [pushAll_cons, push_of_data hfirst]
    dsimp only
    rw [pushAll_cons, push_of_data hsecond]
    dsimp only
    rw [pushAll_waiting hrest]
    rfl

theorem pushAll_segments {found : List (List UInt8)} (h : ∀ s ∈ found, Segment s) :
    p.pushAll found.flatten =
      (found.filterMap message?, (found.getLast?.map partialOf).getD p) := by
  induction found generalizing p with
  | nil => rfl
  | cons segment found ih =>
    obtain ⟨hsegment, hfound⟩ := List.forall_mem_cons.mp h
    have hmessages : (segment :: found).filterMap message? =
        (message? segment).toList ++ found.filterMap message? := by
      cases hmessage : message? segment with
      | none => exact List.filterMap_cons_none hmessage
      | some m => exact List.filterMap_cons_some hmessage
    rw [List.flatten_cons, pushAll_append, pushAll_segment hsegment]
    dsimp only
    rw [ih hfound, hmessages, List.getLast?_cons]
    cases found.getLast? <;> rfl

end MidiParser

/-! ## The segments of a stream -/

namespace Midi

/-- What is cut off in front of status bytes begins with them. -/
theorem head_of_isChain {first : List UInt8} {others : List (List UInt8)}
    (h : (first :: others).IsChain fun _ b => ∀ status ∈ b.head?, 0x80 ≤ status) :
    ∀ s ∈ others, ∀ status ∈ s.head?, 0x80 ≤ status := by
  induction others generalizing first with
  | nil => exact fun s hs => absurd hs List.not_mem_nil
  | cons second others ih =>
    obtain ⟨hsecond, hothers⟩ := List.isChain_cons_cons.mp h
    exact List.forall_mem_cons.mpr ⟨hsecond, ih hothers⟩

/-- Where nothing is cut off, there are data bytes behind the first byte. -/
theorem data_of_isChain {status : UInt8} {rest : List UInt8}
    (h : (status :: rest).IsChain fun _ b => decide (b < 0x80) = true) : ∀ b ∈ rest, b < 0x80 := by
  induction rest generalizing status with
  | nil => exact fun b hb => absurd hb List.not_mem_nil
  | cons b rest ih =>
    obtain ⟨hb, hrest⟩ := List.isChain_cons_cons.mp h
    exact List.forall_mem_cons.mpr ⟨of_decide_eq_true hb, ih hrest⟩

theorem flatten_segments (bytes : List UInt8) :
    (segments bytes).flatten = (heard bytes).dropWhile fun b => b < 0x80 :=
  List.flatten_splitBy _ _

theorem head_segments : ∀ s ∈ segments bytes, ∀ status ∈ s.head?, 0x80 ≤ status := by
  have hflat := flatten_segments bytes
  have hcut := List.isChain_getLast_head_splitBy (fun _ b : UInt8 => decide (b < 0x80))
    ((heard bytes).dropWhile fun b => b < 0x80)
  cases hfound : segments bytes with
  | nil => exact fun s hs => absurd hs List.not_mem_nil
  | cons first others =>
    rw [segments] at hfound
    rw [hfound] at hcut
    refine List.forall_mem_cons.mpr ⟨fun status hstatus => ?_, head_of_isChain (hcut.imp ?_)⟩
    · -- the first segment begins where the stray data ends
      have hhead : ((heard bytes).dropWhile fun b => b < 0x80).head? = some status := by
        rw [← hflat, segments, hfound, List.flatten_cons, List.head?_append, hstatus,
          Option.some_or]
      have hstop := List.head?_dropWhile_not (fun b : UInt8 => decide (b < 0x80)) (heard bytes)
      rw [hhead] at hstop
      exact UInt8.not_lt.mp (of_decide_eq_false hstop)
    · rintro a b ⟨-, hb, hhead⟩ status hstatus
      rw [List.head?_eq_some_head hb, Option.mem_some_iff] at hstatus
      rw [← hstatus]
      exact UInt8.not_lt.mp (of_decide_eq_false hhead)

theorem segment_of_mem : ∀ s ∈ segments bytes, Segment s := by
  intro s hs
  have hheard : ∀ b ∈ s, b < 0xF8 := by
    intro b hb
    have hmem : b ∈ (segments bytes).flatten := List.mem_flatten_of_mem hs hb
    rw [flatten_segments] at hmem
    exact of_decide_eq_true (List.mem_filter.mp ((List.dropWhile_sublist _).mem hmem)).2
  have hchain := List.isChain_of_mem_splitBy hs
  obtain ⟨status, rest, rfl⟩ := List.exists_cons_of_ne_nil (List.ne_nil_of_mem_splitBy hs)
  exact .mk (head_segments _ hs status rfl) (hheard status List.mem_cons_self)
    (data_of_isChain hchain)

end Midi

/-! ## The parser and the grammar -/

namespace MidiParser

/-- After a stream of bytes the parser has given its messages, and keeps what it has of the last
segment. -/
theorem pushAll_eq (bytes : List UInt8) : waiting.pushAll bytes =
    (messagesIn bytes, ((segments bytes).getLast?.map partialOf).getD waiting) := by
  have hsplit := List.takeWhile_append_dropWhile (p := fun b : UInt8 => decide (b < 0x80))
    (l := heard bytes)
  have hstray : ∀ b ∈ (heard bytes).takeWhile fun b => decide (b < 0x80), b < 0x80 :=
    fun b hb => by simpa using List.mem_takeWhile_imp hb
  rw [pushAll_heard, ← hsplit, pushAll_append, pushAll_waiting hstray, ← flatten_segments]
  exact pushAll_segments segment_of_mem

/-- Bytes come in chunk by chunk; the answers are the messages that each chunk completes. -/
def pushChunks (p : MidiParser) : List (List UInt8) → List (List MidiMessage) × MidiParser
  | [] => ([], p)
  | chunk :: chunks =>
    let (messages, p) := p.pushAll chunk
    let (later, p) := p.pushChunks chunks
    (messages :: later, p)

/-- The first chunks give what their bytes give at once. -/
theorem flatten_pushChunks (chunks : List (List UInt8)) (n : Nat) :
    ((p.pushChunks chunks).1.take n).flatten = (p.pushAll (chunks.take n).flatten).1 := by
  induction chunks generalizing p n with
  | nil => cases n <;> rfl
  | cons chunk chunks ih =>
    cases n with
    | zero => rfl
    | succ n =>
      have hchunks : (p.pushChunks (chunk :: chunks)).1 =
          (p.pushAll chunk).1 :: ((p.pushAll chunk).2.pushChunks chunks).1 := rfl
      rw [hchunks, List.take_succ_cons, List.flatten_cons, ih, List.take_succ_cons,
        List.flatten_cons, pushAll_append]

/-- A byte completes a message exactly if it is the second data byte of a segment. -/
theorem push_eq_some_iff {message : MidiMessage} :
    ((waiting.pushAll bytes).2.push byte).1 = some message ↔ byte < 0x80 ∧ ∃ status first,
      (segments bytes).getLast? = some [status, first] ∧ message = .decode status first byte := by
  rw [pushAll_eq]
  dsimp only
  constructor
  · intro h
    by_cases hdata : byte < 0x80
    · refine ⟨hdata, ?_⟩
      rw [push_of_data hdata] at h
      cases hlast : (segments bytes).getLast? with
      | none =>
        rw [hlast] at h
        cases h
      | some segment =>
        rw [hlast] at h
        match segment, h with
        | [head, first], h => exact ⟨head, first, rfl, (Option.some.inj h).symm⟩
    · by_cases hheard : byte < 0xF8
      · rw [push_of_status (UInt8.not_lt.mp hdata) hheard] at h
        cases h
      · rw [push_of_realtime (UInt8.not_lt.mp hheard)] at h
        cases h
  · rintro ⟨hdata, status, first, hlast, rfl⟩
    rw [hlast, push_of_data hdata]
    rfl

/-- The parser gives the messages of the grammar. However a stream is cut into chunks, what the
first of them give is what the grammar finds in their bytes, and a message comes with the second
data byte of its segment. -/
theorem assembles_grammar :
    (∀ (chunks : List (List UInt8)) (n : Nat),
      ((waiting.pushChunks chunks).1.take n).flatten = messagesIn (chunks.take n).flatten) ∧
    ∀ (bytes : List UInt8) (byte : UInt8) (message : MidiMessage),
      ((waiting.pushAll bytes).2.push byte).1 = some message ↔ byte < 0x80 ∧ ∃ status first,
        (segments bytes).getLast? = some [status, first] ∧
          message = .decode status first byte := by
  refine ⟨fun chunks n => ?_, fun _ _ _ => push_eq_some_iff⟩
  rw [flatten_pushChunks, pushAll_eq]

/-- Stray data, a message that breaks off, and one with a realtime byte in it. -/
example : messagesIn [0x40, 0x90, 60, 0x80, 0xF8, 60, 0x40] = [.noteOff 0 60 0x40] := by decide

end MidiParser
end ChipReplay
