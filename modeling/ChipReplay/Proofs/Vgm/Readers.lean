import ChipReplay.CommandLine.Program
import ChipReplay.Proofs.Preparation.Idempotent
/-!
# Two readers of a header

The preparation of a file reads two header fields, `Header.read` reads all that the device needs. On
a file that is prepared they agree about where the commands begin, there and in the prepared stream,
and about the loop point, as far as a word can hold it (`Header.readers_agree`). They ask for
different lengths: the last field that `Header.read` needs ends at `0x50`, behind the commands of a
short file.
-/

namespace ChipReplay

open Bytes Preparation

/-! ## Fields that point somewhere -/

namespace HeaderField

theorem toNat_addSaturating (x y : UInt32) :
    (addSaturating x y).toNat = min (x.toNat + y.toNat) (2 ^ 32 - 1) := by
  unfold addSaturating
  split
  · next hfits =>
    have hsum : (x + y).toNat = x.toNat + y.toNat := by
      rw [UInt32.toNat_add]
      exact Nat.mod_eq_of_lt hfits
    omega
  · next hlarge =>
    show 2 ^ 32 - 1 = _
    omega

variable {f : HeaderField} {bytes : ByteArray} {place : Nat}

/-- The two readers resolve a field to the same offset, held at the largest word by one of them. -/
theorem toNat_target (h : pointer bytes f = .ok place) :
    (f.target bytes).toNat = min place (2 ^ 32 - 1) := by
  obtain ⟨relative, hrelative, h⟩ := ok_of_bind h
  obtain ⟨-, rfl⟩ := word32At_ok (ok_of_mapError hrelative)
  obtain rfl := Except.ok.inj h
  unfold target
  split
  · rfl
  · have hoffset : (UInt32.ofNat f.offset).toNat = f.offset := by
      have hlow := f.offset_le
      exact UInt32.toNat_ofNat_of_lt' (show f.offset < 2 ^ 32 by unfold headerSize at hlow; omega)
    rw [toNat_addSaturating, hoffset]

end HeaderField

/-! ## Headers -/

namespace Header

variable {bytes file : ByteArray} {p : Prepared} {start : Nat}

/-- A file that is long enough for a header has one, if the preparation finds its first command. -/
theorem read_of_startOf (hlong : headerSize ≤ bytes.size) (hident : checkIdent bytes = .ok ())
    (hstart : startOf bytes = .ok start) (hroom : start < 2 ^ 32) :
    ∃ header, Header.read bytes = .ok header ∧ header.start.toNat = start ∧
      ∀ loop, pointer bytes .loopOffset = .ok loop → header.loop.toNat = min loop (2 ^ 32 - 1) := by
  obtain ⟨ident, hslice, hident⟩ := ok_of_bind hident
  obtain ⟨-, rfl⟩ := slice_ok (ok_of_mapError hslice)
  obtain ⟨hident, -⟩ := ok_of_ite hident
  obtain ⟨header, hread, hbegin, hloop⟩ := Header.read_eq hlong (Decidable.not_not.mp hident)
  obtain rfl := Stream.start_eq hstart
  refine ⟨header, hread, ?_, fun loop hpoints => ?_⟩
  · rw [hbegin, Stream.target_dataOffset hroom]
    exact UInt32.toNat_ofNat_of_lt' hroom
  · rw [hloop]
    exact HeaderField.toNat_target hpoints

/-- The two readers agree about a file that is prepared. If the file is as long as a header, then it
has a header, whose first command is the one at which the preparation begins, and whose loop point
is the preparation's, held at the largest word; and what there is to show of the file is shown. If
the prepared stream is as long as a header, then it has a header with the same first command. -/
theorem readers_agree (h : prepare file = .ok p) (hsize : file.size < 2 ^ 32) :
    ∃ start loop, startOf file = .ok start ∧ pointer file .loopOffset = .ok loop ∧
      (headerSize ≤ file.size → ∃ header, Header.read file = .ok header ∧
        header.start.toNat = start ∧ header.loop.toNat = min loop (2 ^ 32 - 1) ∧
        ∀ name, CommandLine.planInfo name file =
          .ok ⟨[], CommandLine.infoLines name header p⟩) ∧
      (headerSize ≤ p.data.size → ∃ header, Header.read p.data = .ok header ∧
        header.start.toNat = start) := by
  have hcheck : checkIdent file = .ok () := by
    obtain ⟨_, hcheck, -⟩ := ok_of_bind h
    exact hcheck
  obtain ⟨start, loop, commands, banks, hmade⟩ := made_of_prepare h
  have hroom : start < 2 ^ 32 := Nat.lt_of_le_of_lt hmade.fits hsize
  refine ⟨start, loop, hmade.startOf_eq, hmade.pointer_eq, fun hlong => ?_, fun hlong => ?_⟩
  · obtain ⟨header, hread, hbegin, hloop⟩ := read_of_startOf hlong hcheck hmade.startOf_eq hroom
    refine ⟨header, hread, hbegin, hloop loop hmade.pointer_eq, fun name => ?_⟩
    rw [CommandLine.planInfo, hread, h]
    rfl
  · obtain ⟨hcheck', hstart'⟩ := header_of_made hmade (ident_of_prepare h)
    obtain ⟨header, hread, hbegin, -⟩ := read_of_startOf hlong hcheck' hstart' hroom
    exact ⟨header, hread, hbegin⟩

/-! ## Loop points near and far -/

/-- A file whose header is as long as any, with the loop word `loop`, and the end of its stream. -/
def longFile (loop : Array UInt8) : ByteArray :=
  ⟨#[0x56, 0x67, 0x6D, 0x20] ++ Array.replicate 24 0 ++ loop ++ Array.replicate 20 0 ++
    #[0x1C, 0x00, 0x00, 0x00] ++ Array.replicate 24 0 ++ #[0x66]⟩

theorem placed_end :
    placeBlocks (mergedBlocks (sampleBlocks [⟨0x50, .endOfStream⟩])) = .ok ([], []) := by
  rw [mergedBlocks_of_sorted (by decide +kernel)]
  decide +kernel

/-- The loop point is the only command. -/
theorem readers_agree_longFile : ∃ p, prepare (longFile #[0x34, 0, 0, 0]) = .ok p ∧
    ∃ header header', Header.read (longFile #[0x34, 0, 0, 0]) = .ok header ∧
      header.start = 0x50 ∧ header.loop = 0x50 ∧
      Header.read p.data = .ok header' ∧ header'.start = 0x50 := by
  obtain ⟨p, hprepare, -, hmade⟩ := prepare_ok
    (show checkIdent (longFile #[0x34, 0, 0, 0]) = .ok () by decide +kernel)
    (show startOf (longFile #[0x34, 0, 0, 0]) = .ok 0x50 by decide +kernel)
    (show pointer (longFile #[0x34, 0, 0, 0]) .loopOffset = .ok 0x50 by decide +kernel)
    (show 0x50 ≤ (longFile #[0x34, 0, 0, 0]).size by decide +kernel)
    (show commandsFrom (longFile #[0x34, 0, 0, 0]) 0x50 = .ok [⟨0x50, .endOfStream⟩] by
      decide +kernel) placed_end
  obtain ⟨start, loop, hstart, hloop, hfile, hdata⟩ := readers_agree hprepare (by decide +kernel)
  obtain rfl := Except.ok.inj (hstart.symm.trans hmade.startOf_eq)
  obtain rfl := Except.ok.inj (hloop.symm.trans hmade.pointer_eq)
  obtain ⟨header, hread, hbegin, hpoint, -⟩ := hfile (by decide +kernel)
  obtain ⟨header', hread', hbegin'⟩ := hdata (size_of_made hmade).1
  exact ⟨p, hprepare, header, header', hread, UInt32.toNat_inj.mp hbegin,
    UInt32.toNat_inj.mp hpoint, hread', UInt32.toNat_inj.mp hbegin'⟩

/-- Not every file that is prepared has a header that can be read: one may be too short for the
clock. And a loop point may be too far away for a word. -/
theorem readers_disagree :
    (∃ p, prepare shortFile = .ok p ∧ shortFile.size < 2 ^ 32 ∧
      Header.read shortFile = .error (.truncated ⟨0x4C, 4, 0⟩)) ∧
    ∃ p header loop, prepare (longFile #[0xFF, 0xFF, 0xFF, 0xFF]) = .ok p ∧
      Header.read (longFile #[0xFF, 0xFF, 0xFF, 0xFF]) = .ok header ∧
      pointer (longFile #[0xFF, 0xFF, 0xFF, 0xFF]) .loopOffset = .ok loop ∧
      header.loop.toNat ≠ loop := by
  constructor
  · obtain ⟨p, hprepare, -⟩ := prepare_shortFile
    exact ⟨p, hprepare, by decide +kernel, by decide +kernel⟩
  · obtain ⟨p, hprepare, -, hmade⟩ := prepare_ok
      (show checkIdent (longFile #[0xFF, 0xFF, 0xFF, 0xFF]) = .ok () by decide +kernel)
      (show startOf (longFile #[0xFF, 0xFF, 0xFF, 0xFF]) = .ok 0x50 by decide +kernel)
      (show pointer (longFile #[0xFF, 0xFF, 0xFF, 0xFF]) .loopOffset = .ok 0x10000001B by
        decide +kernel)
      (show 0x50 ≤ (longFile #[0xFF, 0xFF, 0xFF, 0xFF]).size by decide +kernel)
      (show commandsFrom (longFile #[0xFF, 0xFF, 0xFF, 0xFF]) 0x50 = .ok [⟨0x50, .endOfStream⟩] by
        decide +kernel) placed_end
    obtain ⟨header, hread, -, hpoint⟩ := read_of_startOf
      (show headerSize ≤ (longFile #[0xFF, 0xFF, 0xFF, 0xFF]).size by decide +kernel)
      (show checkIdent (longFile #[0xFF, 0xFF, 0xFF, 0xFF]) = .ok () by decide +kernel)
      hmade.startOf_eq (by decide)
    refine ⟨p, header, _, hprepare, hread, hmade.pointer_eq, ?_⟩
    rw [hpoint _ hmade.pointer_eq]
    decide

end Header
end ChipReplay
