import ChipReplay.Proofs.Preparation.Playing
import ChipReplay.Proofs.Preparation.Skipping
/-!
# The loop point of a prepared stream

The loop offset of a file points at a command, or at a data block, which is cut out. The prepared
stream's points at what stands there now: the first command at or behind the one it pointed at
(`loop_point_kept`). A loop offset that misses the commands is dropped, and `Misses` says which ones
do.
-/

namespace ChipReplay

open Bytes

namespace Stream

/-- Where the loop offset of `file` points, zero for nowhere. -/
def loopPoint (file : ByteArray) : Nat :=
  if wordAt file 0x1C = 0 then 0 else 0x1C + (wordAt file 0x1C).toNat

/-- No command begins at `place`: it lies in front of the first one, strictly inside one, behind the
end of the stream, or outside the file. -/
def Misses (file : ByteArray) (commands : List Located) (place : Nat) : Prop :=
  place < start file ∨
    (∃ c ∈ commands, c.offset < place ∧ place < c.offset + c.command.length) ∨
    (∃ c ∈ commands, c.command.isEnd = true ∧ c.offset < place) ∨ file.size ≤ place

variable {file : ByteArray} {i place : Nat} {c : Command} {commands : List Located}

theorem length_keptBytes (blocks : List SampleBlock) (h : c.At file i) :
    (keptBytes file blocks i).length = c.encodedLength := by
  unfold keptBytes
  cases h with
  | write port hcode hfits =>
    cases port <;> simp [span, hcode, Command.writeCode, Command.encodedLength, Command.length]
  | wait hcode hfits => simp [span, hcode, Command.encodedLength, Command.length]
  | pause samples hcode hfits =>
    simp [span, pause_byte_ne hcode, Command.encodedLength, Command.length]
  | endOfStream hcode hfits => simp [span, hcode, Command.encodedLength, Command.length]
  | block b hcode hblock => simp [hcode, Command.encodedLength]

/-- The kept bytes of a run of commands are as many as the program counts. -/
theorem length_flatMap_keptBytes (blocks : List SampleBlock)
    (hat : ∀ c ∈ commands, c.command.At file c.offset) :
    ((commands.map Located.offset).flatMap (keptBytes file blocks)).length =
      (commands.map (·.command.encodedLength)).sum := by
  rw [List.flatMap_map, List.length_flatMap]
  exact congrArg List.sum (List.map_congr_left fun c hc => length_keptBytes blocks (hat c hc))

end Stream

variable {file : ByteArray} {i place : Nat} {commands before after : List Located} {c : Located}

namespace Walk

/-- Cutting data blocks out moves no command towards the end. -/
theorem kept_le (h : Walk file i (before ++ c :: after)) :
    i + (before.map (·.command.encodedLength)).sum ≤ c.offset := by
  have hlength (c : Command) : c.encodedLength ≤ c.length := by
    cases c <;> simp [Command.encodedLength]
  induction before generalizing i with
  | nil =>
    obtain ⟨hoffset, -⟩ := h.uncons
    exact Nat.le_of_eq hoffset.symm
  | cons b rest ih =>
    obtain ⟨-, -, hrest⟩ := h.uncons
    split at hrest
    · exact absurd hrest (List.append_ne_nil_of_right_ne_nil _ (List.cons_ne_nil _ _))
    · have hrest := ih hrest
      have hb := hlength b.command
      rw [List.map_cons, List.sum_cons]
      omega

/-- What lies strictly inside a command, or behind the end of the stream, is no command's offset. -/
theorem offset_ne (h : Walk file i commands) (hc : c ∈ commands) (hlow : c.offset < place)
    (hhigh : place < c.offset + c.command.length ∨ c.command.isEnd = true) :
    ∀ d ∈ commands, d.offset ≠ place := by
  obtain ⟨before, after, rfl⟩ := List.append_of_mem hc
  obtain ⟨hbefore, hafter⟩ := h.around
  intro d hd
  rcases List.mem_append.mp hd with hd | hd
  · have hend := hbefore d hd
    omega
  · rcases List.mem_cons.mp hd with rfl | hd
    · exact Nat.ne_of_lt hlow
    · split at hafter
      · next hend =>
        rw [hafter] at hd
        cases hd
      · next hmore =>
        have hle := hafter.le_offset d hd
        have hinside := hhigh.resolve_right hmore
        omega

/-- A walk begins a command at every place from its offset on, or else the place is inside a
command, behind the end of the stream, or outside the file. -/
theorem offset_or_inside (h : Walk file i commands) (hi : i ≤ place) :
    (∃ c ∈ commands, c.offset = place) ∨
      (∃ c ∈ commands, c.offset < place ∧ place < c.offset + c.command.length) ∨
      (∃ c ∈ commands, c.command.isEnd = true ∧ c.offset < place) ∨ file.size ≤ place := by
  induction h with
  | stop hend => exact .inr (.inr (.inr (Nat.le_trans hend hi)))
  | @last i c hcommand hend =>
    rcases Nat.eq_or_lt_of_le hi with heq | hlt
    · exact .inl ⟨⟨i, c⟩, List.mem_cons_self, heq⟩
    · exact .inr (.inr (.inl ⟨⟨i, c⟩, List.mem_cons_self, hend, hlt⟩))
  | @next i c rest hcommand hend hrest ih =>
    by_cases hpast : i + c.length ≤ place
    · rcases ih hpast with ⟨d, hd, heq⟩ | ⟨d, hd, hinside⟩ | ⟨d, hd, hbehind⟩ | hsize
      · exact .inl ⟨d, List.mem_cons_of_mem _ hd, heq⟩
      · exact .inr (.inl ⟨d, List.mem_cons_of_mem _ hd, hinside⟩)
      · exact .inr (.inr (.inl ⟨d, List.mem_cons_of_mem _ hd, hbehind⟩))
      · exact .inr (.inr (.inr hsize))
    · rcases Nat.eq_or_lt_of_le hi with heq | hlt
      · exact .inl ⟨⟨i, c⟩, List.mem_cons_self, heq⟩
      · exact .inr (.inl ⟨⟨i, c⟩, List.mem_cons_self, hlt, Nat.not_le.mp hpast⟩)

/-- The places where no command begins. -/
theorem misses_iff (h : Walk file (Stream.start file) commands) :
    (∀ c ∈ commands, c.offset ≠ place) ↔ Stream.Misses file commands place := by
  constructor
  · intro hnone
    by_cases hstart : Stream.start file ≤ place
    · rcases h.offset_or_inside hstart with ⟨c, hc, heq⟩ | hmiss
      · exact absurd heq (hnone c hc)
      · exact .inr hmiss
    · exact .inl (Nat.not_le.mp hstart)
  · rintro (hfront | ⟨c, hc, hlow, hhigh⟩ | ⟨c, hc, hend, hlow⟩ | hsize)
    · intro d hd
      have hle := h.le_offset d hd
      omega
    · exact h.offset_ne hc hlow (.inl hhigh)
    · exact h.offset_ne hc hlow (.inr hend)
    · intro d hd
      have hlt := (h.at d hd).lt_size
      omega

end Walk

namespace Preparation

variable {p : Prepared} {banks : BankMap} {loop : Nat}

/-! ## Where a loop offset leads -/

theorem pointer_ok (h : pointer file .loopOffset = .ok loop) : loop = Stream.loopPoint file := by
  obtain ⟨relative, hrelative, h⟩ := ok_of_bind h
  obtain ⟨-, rfl⟩ := word32At_ok (ok_of_mapError hrelative)
  exact (Except.ok.inj h).symm

theorem pointer_eq (h : 0x20 ≤ file.size) :
    pointer file .loopOffset = .ok (Stream.loopPoint file) := by
  have hfits : HeaderField.loopOffset.offset + 4 ≤ file.size := h
  unfold pointer HeaderField.read word32At
  rw [if_pos hfits]
  rfl

theorem loopPlace_of_ne (h : ∀ c ∈ commands, c.offset ≠ loop) :
    loopPlace loop place commands = none := by
  induction commands generalizing place with
  | nil => rfl
  | cons c rest ih =>
    obtain ⟨hc, hrest⟩ := List.forall_mem_cons.mp h
    rw [loopPlace, if_neg hc, ih hrest]

/-- The first command at `loop` goes behind what those before it leave. -/
theorem loopPlace_append (hbefore : ∀ b ∈ before, b.offset ≠ loop) (hc : c.offset = loop) :
    loopPlace loop place (before ++ c :: after) =
      some (place + (before.map (·.command.encodedLength)).sum) := by
  induction before generalizing place with
  | nil => exact if_pos hc
  | cons b rest ih =>
    obtain ⟨hb, hrest⟩ := List.forall_mem_cons.mp hbefore
    rw [List.cons_append, loopPlace, if_neg hb, ih hrest, List.map_cons, List.sum_cons,
      Nat.add_assoc]

/-- A loop field that is counted from its own position leads back. -/
theorem loopPoint_eq {bytes : ByteArray} (hword : wordAt bytes 0x1C = UInt32.ofNat (place - 0x1C))
    (hlow : 0x1C < place) (hhigh : place - 0x1C < 2 ^ 32) :
    Stream.loopPoint bytes = place ∧ wordAt bytes 0x1C ≠ 0 := by
  have hnat : (wordAt bytes 0x1C).toNat = place - 0x1C := by
    rw [hword]
    exact UInt32.toNat_ofNat_of_lt' hhigh
  have hne : wordAt bytes 0x1C ≠ 0 := by
    intro hzero
    rw [hzero] at hnat
    replace hnat : 0 = place - 0x1C := hnat
    omega
  refine ⟨?_, hne⟩
  rw [Stream.loopPoint, if_neg hne]
  omega

/-- The loop point moves to the place behind what is kept of the commands before it. -/
theorem loopPoint_of_made {first : Nat} (h : Made file p first loop (before ++ c :: after) banks)
    (hc : c.offset = Stream.loopPoint file) :
    Stream.loopPoint p.data =
        Stream.start file + (before.map (·.command.encodedLength)).sum ∧
      wordAt p.data 0x1C ≠ 0 := by
  obtain ⟨header, -, -, hfield⟩ := kept_of_made h
  obtain rfl := Stream.start_eq h.startOf_eq
  obtain rfl := pointer_ok h.pointer_eq
  have hwalk := walk_of_commandsFrom h.commandsFrom_eq
  have hstart := Stream.le_start file
  have hle := hwalk.kept_le
  have hne (b : Located) (hb : b ∈ before) : b.offset ≠ Stream.loopPoint file := by
    have hend := hwalk.around.1 b hb
    have hpos := b.command.length_pos
    omega
  -- the new place lies no further behind the field than the old one, which a word led to
  have hbound : Stream.loopPoint file - 0x1C < 2 ^ 32 := by
    have hlt := (wordAt file 0x1C).toNat_lt
    unfold Stream.loopPoint
    split_ifs <;> omega
  rw [loopField, if_neg (by omega), loopPlace_append hne hc] at hfield
  exact loopPoint_eq hfield (by omega) (by omega)

/-- The loop point of a prepared stream. `commands` are what the walk over the file meets, up to the
first end of the stream, and `keptBytes` says what of a command is in the prepared stream: nothing
of a data block, and bank bytes as they are remapped.

* If the loop point of the file is one of the commands, or one of the data blocks, the prepared
  stream's is the place behind all that is kept of what stands before it. From that place on stands
  what is kept of it and of all that follows. The player resolves the field to the same place.
* If no command begins there, there is no loop. That is so for a file without a loop, whose loop
  point is zero, as for a loop point that lies in front of the commands, inside one, behind the end
  of the stream or outside the file, and in no other case. -/
theorem loop_point_kept (h : prepare file = .ok p) :
    ∃ commands, commandsFrom file (Stream.start file) = .ok commands ∧
      (∀ before c after, commands = before ++ c :: after → c.offset = Stream.loopPoint file →
        let kept (commands : List Located) : List UInt8 :=
          (commands.map Located.offset).flatMap (Stream.keptBytes file p.blocks)
        let place := Stream.start file + (kept before).length
        pointer p.data .loopOffset = .ok place ∧
          (place < 2 ^ 32 →
            HeaderField.loopOffset.resolve p.data = .ok (UInt32.ofNat place)) ∧
          (p.data.data.toList.take place).drop (Stream.start file) = kept before ∧
          p.data.data.toList.drop place = kept (c :: after)) ∧
      ((∀ c ∈ commands, c.offset ≠ Stream.loopPoint file) → wordAt p.data 0x1C = 0) ∧
      ((∀ c ∈ commands, c.offset ≠ Stream.loopPoint file) ↔
        Stream.Misses file commands (Stream.loopPoint file)) := by
  obtain ⟨first, loop, commands, banks, hmade⟩ := made_of_prepare h
  obtain ⟨header, hsize, hdata, hfield⟩ := kept_of_made hmade
  have hcommands := hmade.commandsFrom_eq
  obtain rfl := Stream.start_eq hmade.startOf_eq
  obtain rfl := pointer_ok hmade.pointer_eq
  have hwalk := walk_of_commandsFrom hcommands
  refine ⟨commands, hcommands, ?_, fun hnone => ?_, hwalk.misses_iff⟩
  · rintro before c after rfl hc kept place
    obtain ⟨hpoint, hzero⟩ := loopPoint_of_made hmade hc
    have hkept : (kept before).length = (before.map (·.command.encodedLength)).sum :=
      Stream.length_flatMap_keptBytes p.blocks fun b hb =>
        hwalk.at b (List.mem_append_left _ hb)
    replace hpoint : Stream.loopPoint p.data = place := by rw [hpoint, ← hkept]
    have hparts : p.data.data.toList = header.data.toList ++ kept before ++ kept (c :: after) := by
      rw [hdata, List.map_append, List.flatMap_append, List.append_assoc]
    have hfront : (header.data.toList ++ kept before).length = place := by
      rw [List.length_append]
      exact congrArg (· + _) hsize
    have hlong : 0x20 ≤ p.data.size := by
      have hstart := Stream.le_start file
      have hwhole := congrArg List.length hparts
      rw [List.length_append, hfront] at hwhole
      replace hwhole : p.data.size = place + _ := hwhole
      omega
    refine ⟨hpoint ▸ pointer_eq hlong, fun hroom => ?_, ?_, ?_⟩
    · have htarget : 0x1C + (wordAt p.data 0x1C).toNat = place := by
        rw [← hpoint, Stream.loopPoint, if_neg hzero]
      rw [HeaderField.resolve_eq (f := .loopOffset) hlong,
        (HeaderField.target_eq (f := .loopOffset) hzero htarget hroom).1]
    · rw [hparts, List.take_left' hfront, List.drop_left' hsize]
    · rw [hparts, List.drop_left' hfront]
  · rw [hfield, loopField, loopPlace_of_ne hnone]
    exact ite_self _

/-- The loop point of `loopedFile` is a data block. The write behind it, with its bank remapped, is
where the prepared stream goes on. -/
theorem loop_point_kept_loopedFile : ∃ p, prepare loopedFile = .ok p ∧
    Stream.loopPoint loopedFile = 0x41 ∧ pointer p.data .loopOffset = .ok 0x41 ∧
    p.data.data.toList.drop 0x41 = [0x59, 0x18, 0x00, 0x73, 0x66] := by
  obtain ⟨p, hprepare, hblocks, hmade⟩ := prepare_ok
    (show checkIdent loopedFile = .ok () by decide +kernel)
    (show startOf loopedFile = .ok 0x40 by decide +kernel)
    (show pointer loopedFile .loopOffset = .ok 0x41 by decide +kernel)
    (show 0x40 ≤ loopedFile.size by decide +kernel)
    (show commandsFrom loopedFile 0x40 = .ok loopedCommands by decide +kernel) placed_loopedFile
  obtain ⟨commands, hcommands, hkept, -⟩ := loop_point_kept hprepare
  have hread : commandsFrom loopedFile (Stream.start loopedFile) = .ok loopedCommands := by
    rw [← Stream.start_eq hmade.startOf_eq]
    exact hmade.commandsFrom_eq
  obtain rfl := Except.ok.inj (hcommands.symm.trans hread)
  have hpoint : Stream.loopPoint loopedFile = 0x41 := by decide +kernel
  obtain ⟨hpointer, -, -, hrest⟩ := hkept (loopedCommands.take 1)
    ⟨0x41, .block ⟨.a, 0x20000, 0x10005, ⟨#[0x11, 0x22]⟩⟩⟩ (loopedCommands.drop 2) rfl
    hpoint.symm
  rw [hblocks] at hpointer hrest
  have hplace : Stream.start loopedFile + (((loopedCommands.take 1).map Located.offset).flatMap
      (Stream.keptBytes loopedFile
        [⟨.a, 0x00005, 0x10005, 0x20000, ⟨#[0x11, 0x22]⟩⟩])).length = 0x41 := by
    decide +kernel
  rw [hplace] at hpointer hrest
  exact ⟨p, hprepare, hpoint, hpointer, hrest.trans (by decide +kernel)⟩

end Preparation
end ChipReplay
