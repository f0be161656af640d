import ChipReplay.Proofs.Bytes.Words
import ChipReplay.Proofs.Preparation.Stripping
/-!
# Passes through a prepared stream

A prepared stream has no data blocks. What a player meets in it is a `Pass`: commands, each where
the one before ends, up to the end of the stream. Reading a prepared stream gives the pass
(`Pass.commandsFrom_eq`). A file whose commands end with the end of the stream makes one, with its
commands moved together (`relocated`), and another one from the place that its loop offset becomes
(`pass_of_walk`).
-/

namespace ChipReplay

open Bytes

/-! ## Passes -/

/-- The commands from offset `i` to the end of the stream, none of them a data block. -/
inductive Pass (stream : ByteArray) : Nat → List Located → Prop
  | last {i : Nat} (hcommand : Command.endOfStream.At stream i) :
      Pass stream i [⟨i, .endOfStream⟩]
  | next {i : Nat} {c : Command} {rest : List Located} (hcommand : c.At stream i)
      (hend : c.isEnd = false) (hblock : c.block? = none)
      (hrest : Pass stream (i + c.length) rest) : Pass stream i (⟨i, c⟩ :: rest)

variable {file stream : ByteArray} {i : Nat}

theorem byteAt_of_lt (h : i < file.size) : byteAt file i = .ok (peek file i) := by
  rw [byteAt, dif_pos h, peek, dif_pos h]

namespace Command

theorem At.lt_size {c : Command} (h : c.At file i) : i < file.size := by
  have hfits := h.fits
  have hpos := c.length_pos
  omega

/-- A command is read where it stands. -/
theorem read_of_at {c : Command} (h : c.At file i) (hblock : c.block? = none) :
    read file i = .ok c := by
  unfold read
  rw [byteAt_of_lt h.lt_size]
  cases h with
  | write port hcode hfits =>
    have hopcode : Opcode.ofByte (peek file i) = .write port := by
      rw [hcode]
      cases port <;> rfl
    have hdata : peek (file.extract i (i + 3)) 2 = peek file (i + 2) := by
      rw [peek_extract, if_pos (by omega)]
    simp only [Except.mapError, bind, Except.bind, hopcode, slice, if_pos hfits,
      byteAt_of_lt (show i + 1 < file.size by omega), hdata]
    rfl
  | wait hcode hfits =>
    have hopcode : Opcode.ofByte (peek file i) = .wait := by
      rw [hcode]
      rfl
    simp only [Except.mapError, bind, Except.bind, hopcode, word16At,
      if_pos (show i + 1 + 2 ≤ file.size by omega)]
    rfl
  | pause samples hcode hfits =>
    simp only [Except.mapError, bind, Except.bind, hcode]
    rfl
  | endOfStream hcode hfits =>
    have hopcode : Opcode.ofByte (peek file i) = .endOfStream := by
      rw [hcode]
      rfl
    simp only [Except.mapError, bind, Except.bind, hopcode]
    rfl
  | block b hcode hbytes => cases hblock

end Command

namespace Pass

variable {commands : List Located}

theorem commandsOnto_eq (h : Pass stream i commands) (found : List Located) :
    commandsOnto stream i found = .ok (found.reverse ++ commands) := by
  induction h generalizing found with
  | @last i hcommand =>
    have hend : Command.endOfStream.isEnd = true := rfl
    rw [commandsOnto, if_pos hcommand.lt_size, Command.read_of_at hcommand rfl]
    dsimp only
    rw [if_pos hend, List.reverse_cons]
  | @next i c rest hcommand hend hblock hrest ih =>
    rw [commandsOnto, if_pos hcommand.lt_size, Command.read_of_at hcommand hblock]
    dsimp only
    rw [if_neg (by simp [hend]), ih, List.reverse_cons, List.append_assoc, List.singleton_append]

/-- Reading a stream gives the pass through it. -/
theorem commandsFrom_eq (h : Pass stream i commands) : commandsFrom stream i = .ok commands :=
  h.commandsOnto_eq []

/-- A pass ends with the end of the stream, at or behind the place where it begins. -/
theorem exists_last (h : Pass stream i commands) :
    ∃ place, commands.getLast? = some ⟨place, .endOfStream⟩ ∧ i ≤ place := by
  induction h with
  | last hcommand => exact ⟨_, rfl, Nat.le_refl _⟩
  | @next i c rest hcommand hend hblock hrest ih =>
    obtain ⟨place, hlast, hle⟩ := ih
    refine ⟨place, ?_, by omega⟩
    rw [List.getLast?_cons, hlast]
    rfl

theorem ne_nil (h : Pass stream i commands) : commands ≠ [] := by
  cases h <;> exact List.cons_ne_nil _ _

end Pass

/-! ## Commands of a prepared stream -/

/-- The commands without the data blocks, each where the prepared stream has it, the first at
`place`. -/
def relocated (banks : BankMap) (place : Nat) : List Located → List Located
  | [] => []
  | c :: rest =>
    match c.command.block? with
    | some _ => relocated banks place rest
    | none =>
      ⟨place, c.command.remap banks⟩ :: relocated banks (place + c.command.encodedLength) rest

namespace Command

/-- Only the data byte of a write is ever replaced. -/
theorem exists_remap_write (banks : BankMap) (port : Port) (register data : UInt8) :
    ∃ data', (write port register data).remap banks = .write port register data' := by
  unfold remap
  dsimp only
  split
  · split
    · exact ⟨_, rfl⟩
    · exact ⟨_, rfl⟩
  · exact ⟨_, rfl⟩

theorem At.of_write {port : Port} {register data : UInt8} (hcode : peek file i = writeCode port)
    (hregister : peek file (i + 1) = register) (hdata : peek file (i + 2) = data)
    (hfits : i + 3 ≤ file.size) : At file i (.write port register data) := by
  rw [← hregister, ← hdata]
  exact .write port hcode hfits

theorem At.of_wait {low high : UInt8} (hcode : peek file i = 0x61)
    (hlow : peek file (i + 1) = low) (hhigh : peek file (i + 2) = high)
    (hfits : i + 3 ≤ file.size) : At file i (.wait (word16 low high)) := by
  rw [← hlow, ← hhigh]
  exact .wait hcode hfits

theorem At.of_pause {code : UInt8} {samples : UInt32} (hpeek : peek file i = code)
    (hcode : Opcode.ofByte code = .pause samples) (hfits : i + 1 ≤ file.size) :
    At file i (.pause code samples) := by
  rw [← hpeek] at hcode ⊢
  exact .pause samples hcode hfits

/-- Three bytes that are appended are there, whatever follows them. -/
theorem peek_pushed (out body : ByteArray) (x y z : UInt8) :
    let bytes := ((out.push x).push y).push z ++ body
    peek bytes out.size = x ∧ peek bytes (out.size + 1) = y ∧ peek bytes (out.size + 2) = z ∧
      out.size + 3 ≤ bytes.size := by
  intro bytes
  have hsize : (((out.push x).push y).push z).size = out.size + 3 := by
    simp [ByteArray.size_push]
  have hwhole : bytes.size = out.size + 3 + body.size := by
    rw [← hsize]
    exact ByteArray.size_append
  have hpeek (j : Nat) (hj : j < 3) :
      peek bytes (out.size + j) = peek (((out.push x).push y).push z) (out.size + j) := by
    rw [peek_append, if_pos (by omega)]
  refine ⟨?_, ?_, ?_, by omega⟩
  · have hfirst := hpeek 0 (by omega)
    rw [Nat.add_zero] at hfirst
    rw [hfirst, peek_push, if_neg (by simp [ByteArray.size_push]; omega)]
    simp [peek_push, ByteArray.size_push]
  · rw [hpeek 1 (by omega)]
    simp [peek_push, ByteArray.size_push]
  · rw [hpeek 2 (by omega)]
    simp [peek_push, ByteArray.size_push]

/-- A command stands where it was appended. -/
theorem at_appended {c : Command} (h : c.At file i) (hblock : c.block? = none)
    (banks : BankMap) (out body : ByteArray) :
    (c.remap banks).At ((c.remap banks).append out ++ body) out.size := by
  have hone (x : UInt8) : peek (out.push x ++ body) out.size = x ∧
      out.size + 1 ≤ (out.push x ++ body).size := by
    have hwhole : (out.push x ++ body).size = (out.push x).size + body.size :=
      ByteArray.size_append
    have hsize : (out.push x).size = out.size + 1 := ByteArray.size_push
    rw [peek_append, if_pos (by omega), peek_push, if_pos rfl]
    exact ⟨rfl, by omega⟩
  cases h with
  | write port hcode hfits =>
    obtain ⟨data, hremap⟩ :=
      exists_remap_write banks port (peek file (i + 1)) (peek file (i + 2))
    obtain ⟨hcode, hregister, hdata, hfits⟩ :=
      peek_pushed out body (writeCode port) (peek file (i + 1)) data
    rw [hremap]
    exact .of_write hcode hregister hdata hfits
  | wait hcode hfits =>
    obtain ⟨hcode, hlow, hhigh, hfits⟩ := peek_pushed out body 0x61
      (word16 (peek file (i + 1)) (peek file (i + 2))).toUInt8
      (word16 (peek file (i + 1)) (peek file (i + 2)) >>> 8).toUInt8
    obtain ⟨hlow', hhigh'⟩ := Stream.bytes_word16 (peek file (i + 1)) (peek file (i + 2))
    exact .of_wait hcode (hlow.trans hlow') (hhigh.trans hhigh') hfits
  | pause samples hcode hfits =>
    obtain ⟨hbyte, hfits⟩ := hone (peek file i)
    exact .of_pause hbyte hcode hfits
  | endOfStream hcode hfits =>
    obtain ⟨hbyte, hfits⟩ := hone 0x66
    exact .endOfStream hbyte hfits
  | block b hcode hbytes => cases hblock

/-- What does not depend on the data byte of a write is kept. -/
theorem remap_congr {α : Type} {f : Command → α}
    (hf : ∀ port register data data',
      f (.write port register data) = f (.write port register data'))
    (banks : BankMap) (c : Command) : f (c.remap banks) = f c := by
  cases c with
  | write port register data =>
    obtain ⟨data', hremap⟩ := exists_remap_write banks port register data
    rw [hremap]
    exact hf port register data' data
  | wait | pause | endOfStream | block => rfl

theorem length_remap (banks : BankMap) (c : Command) : (c.remap banks).length = c.length :=
  remap_congr (fun _ _ _ _ => rfl) banks c

theorem encodedLength_remap (banks : BankMap) (c : Command) :
    (c.remap banks).encodedLength = c.encodedLength :=
  remap_congr (fun _ _ _ _ => rfl) banks c

theorem isEnd_remap (banks : BankMap) (c : Command) : (c.remap banks).isEnd = c.isEnd :=
  remap_congr (fun _ _ _ _ => rfl) banks c

theorem block?_remap (banks : BankMap) (c : Command) : (c.remap banks).block? = c.block? :=
  remap_congr (fun _ _ _ _ => rfl) banks c

theorem size_append (out : ByteArray) (c : Command) :
    (c.append out).size = out.size + c.encodedLength := by
  cases c <;> simp [append, encodedLength, length, ByteArray.size_push]

theorem encodedLength_eq {c : Command} (h : c.block? = none) : c.encodedLength = c.length := by
  cases c with
  | block b => cases h
  | write | wait | pause | endOfStream => rfl

theorem eq_endOfStream {c : Command} (h : c.isEnd = true) : c = .endOfStream := by
  cases c with
  | endOfStream => rfl
  | write | wait | pause | block => cases h

end Command

open Preparation

/-- What is a pass behind a command is one with it, whether the command is kept or cut out. -/
theorem pass_cons {c : Command} {rest : List Located} (hcommand : c.At file i)
    (hmore : c.isEnd = false) {banks : BankMap} {out : ByteArray}
    (hpass : Pass (appendAll ((c.remap banks).append out) (rest.map fun c => c.command.remap banks))
      (out.size + c.encodedLength) (relocated banks (out.size + c.encodedLength) rest)) :
    Pass (appendAll ((c.remap banks).append out) (rest.map fun c => c.command.remap banks)) out.size
        (relocated banks out.size (⟨i, c⟩ :: rest)) ∧
      relocated banks (out.size + c.encodedLength) rest <:+
        relocated banks out.size (⟨i, c⟩ :: rest) := by
  cases hblock : c.block? with
  | some b =>
    have hlength : c.encodedLength = 0 := by
      cases c with
      | block b => rfl
      | write | wait | pause | endOfStream => cases hblock
    simp only [relocated, hblock]
    rw [hlength, Nat.add_zero] at hpass ⊢
    exact ⟨hpass, List.suffix_refl _⟩
  | none =>
    have hat : (c.remap banks).At (appendAll ((c.remap banks).append out)
        (rest.map fun c => c.command.remap banks)) out.size := by
      rw [appendAll_eq]
      exact Command.at_appended hcommand hblock banks out _
    simp only [relocated, hblock]
    refine ⟨.next hat ?_ ?_ ?_, List.suffix_cons _ _⟩
    · rw [Command.isEnd_remap, hmore]
    · rw [Command.block?_remap, hblock]
    · rw [Command.length_remap, ← Command.encodedLength_eq hblock]
      exact hpass

/-- The commands of a file that ends its stream make a pass through the prepared stream. Where its
loop offset leads, another one begins, which is the rest of it. -/
theorem pass_of_walk {commands : List Located} (h : Walk file i commands)
    (hend : ∃ c ∈ commands, c.command.isEnd = true) (banks : BankMap) (out : ByteArray) :
    let whole := appendAll out (commands.map fun c => c.command.remap banks)
    let first := relocated banks out.size commands
    Pass whole out.size first ∧ ∀ loop place, loopPlace loop out.size commands = some place →
      ∃ later, later <:+ first ∧ Pass whole place later := by
  induction h generalizing out with
  | stop hsize =>
    obtain ⟨c, hc, -⟩ := hend
    cases hc
  | @last i c hcommand hlast =>
    obtain rfl := Command.eq_endOfStream hlast
    have hpass : Pass (out.push 0x66) out.size [⟨out.size, .endOfStream⟩] := by
      have hat := Command.at_appended hcommand rfl banks out .empty
      rw [ByteArray.append_empty] at hat
      exact .last hat
    intro whole first
    refine ⟨hpass, fun loop place hplace => ⟨first, List.suffix_refl first, ?_⟩⟩
    unfold loopPlace at hplace
    split at hplace
    · obtain rfl := Option.some.inj hplace
      exact hpass
    · cases hplace
  | @next i c rest hcommand hmore hrest ih =>
    obtain ⟨e, he, hise⟩ := hend
    have hend : ∃ e ∈ rest, e.command.isEnd = true := by
      rcases List.mem_cons.mp he with rfl | he
      · rw [hmore] at hise
        cases hise
      · exact ⟨e, he, hise⟩
    obtain ⟨hrestPass, hloops⟩ := ih hend ((c.remap banks).append out)
    rw [Command.size_append, Command.encodedLength_remap] at hrestPass hloops
    intro whole first
    obtain ⟨hpass, hsuffix⟩ := pass_cons hcommand hmore hrestPass
    refine ⟨hpass, fun loop place hplace => ?_⟩
    unfold loopPlace at hplace
    split at hplace
    · obtain rfl := Option.some.inj hplace
      exact ⟨first, List.suffix_refl first, hpass⟩
    · obtain ⟨later, hlater, hpass⟩ := hloops loop place hplace
      exact ⟨later, hlater.trans hsuffix, hpass⟩

/-! ## What a pass adds up to -/

/-- Samples that the commands wait in all. -/
def samplesIn : List Located → Nat
  | [] => 0
  | c :: rest => c.command.waitSamples + samplesIn rest

theorem samplesIn_append (a b : List Located) : samplesIn (a ++ b) = samplesIn a + samplesIn b := by
  induction a with
  | nil => rw [List.nil_append, samplesIn, Nat.zero_add]
  | cons c rest ih => rw [List.cons_append, samplesIn, samplesIn, ih, Nat.add_assoc]

/-- Whether the command writes a register. -/
def Command.isWrite : Command → Bool
  | write .. => true
  | _ => false

/-- Commands that write a register. -/
def writesIn (commands : List Located) : Nat := commands.countP (·.command.isWrite)

theorem writesIn_cons (c : Located) (rest : List Located) :
    writesIn (c :: rest) = (if c.command.isWrite then 1 else 0) + writesIn rest := by
  rw [writesIn, List.countP_cons, Nat.add_comm]
  rfl

/-- Data blocks neither wait nor write, and the data byte of a write does not matter. -/
theorem totals_relocated (banks : BankMap) (place : Nat) (commands : List Located) :
    samplesIn (relocated banks place commands) = samplesIn commands ∧
      writesIn (relocated banks place commands) = writesIn commands := by
  induction commands generalizing place with
  | nil => exact ⟨rfl, rfl⟩
  | cons c rest ih =>
    obtain ⟨i, c⟩ := c
    cases hblock : c.block? with
    | some b =>
      have hcut : c.waitSamples = 0 ∧ c.isWrite = false := by
        cases c with
        | block b => exact ⟨rfl, rfl⟩
        | write | wait | pause | endOfStream => cases hblock
      simp only [relocated, hblock, samplesIn, writesIn_cons, hcut, ih place]
      simp
    | none =>
      have hsamples : (c.remap banks).waitSamples = c.waitSamples :=
        Command.remap_congr (fun _ _ _ _ => rfl) banks c
      have hwrite : (c.remap banks).isWrite = c.isWrite :=
        Command.remap_congr (fun _ _ _ _ => rfl) banks c
      simp only [relocated, hblock, samplesIn, writesIn_cons, hsamples, hwrite,
        ih (place + c.encodedLength), and_self]

namespace CommandStats

/-- What one command adds to the counts. -/
theorem count_totals (s : CommandStats) (c : Command) :
    (s.count c).waitSamples = s.waitSamples + c.waitSamples ∧
      (s.count c).portAWrites + (s.count c).portBWrites =
        s.portAWrites + s.portBWrites + (if c.isWrite then 1 else 0) ∧
      (s.count c).endOfStream = (s.endOfStream || c.isEnd) := by
  cases c with
  | write port register data =>
    unfold count
    cases (Command.write port register data).bankKind? <;> cases port <;>
      simp [Command.waitSamples, Command.isWrite, Command.isEnd] <;> omega
  | wait | pause | endOfStream | block =>
    simp [count, Command.bankKind?, Command.waitSamples, Command.isWrite, Command.isEnd]

/-- What all commands add to the counts. -/
theorem foldl_totals (commands : List Located) (s : CommandStats) :
    let t := commands.foldl (fun s c => s.count c.command) s
    t.waitSamples = s.waitSamples + samplesIn commands ∧
      t.portAWrites + t.portBWrites = s.portAWrites + s.portBWrites + writesIn commands ∧
      t.endOfStream = (s.endOfStream || commands.any (·.command.isEnd)) := by
  induction commands generalizing s with
  | nil => exact ⟨rfl, rfl, (Bool.or_false _).symm⟩
  | cons c rest ih =>
    obtain ⟨hsamples, hwrites, hend⟩ := s.count_totals c.command
    obtain ⟨ihsamples, ihwrites, ihend⟩ := ih (s.count c.command)
    rw [List.foldl_cons]
    refine ⟨?_, ?_, ?_⟩
    · rw [ihsamples, hsamples, samplesIn, Nat.add_assoc]
    · rw [ihwrites, hwrites, writesIn_cons, Nat.add_assoc]
    · rw [ihend, hend, List.any_cons, Bool.or_assoc]

end CommandStats
end ChipReplay
