import ChipReplay.Proofs.CommandLine.Storing
import ChipReplay.Proofs.Preparation.Addresses
import ChipReplay.Proofs.Text.Hex
/-!
# The names of sample blocks

The name of a block's file tells its kind and its memory offset (`blockFileName_eq_iff`), and among
placed blocks these tell kind and ROM offset (`Placed.offset_eq_iff`). The name is a plain one of
eighteen bytes, so a file can be written under it in any directory whose path is not too long
(`storable_blockFileName`).
-/

namespace ChipReplay

theorem SampleBlock.Filled.covers {b : SampleBlock} (h : b.Filled) :
    b.Covers b.kind b.romOffset :=
  ⟨rfl, Nat.le_refl _, h⟩

namespace Placed

variable {blocks : List SampleBlock} {banks : BankMap} {b c : SampleBlock}

/-- A block begins where its bank and its ROM offset lead. -/
theorem bankAddress_romOffset {m : Nat} (h : Placed blocks banks) (hb : b ∈ blocks)
    (hfilled : b.Filled) (hfind : banks.find? b.kind (b.romOffset / bankSize) = some m) :
    bankAddress m b.romOffset = b.offset := by
  rw [h.bankAddress_eq hb hfilled.covers hfind, Nat.sub_self, Nat.add_zero]

/-- Two blocks begin at the same place in memory just when they do so in their ROM. -/
theorem offset_eq_iff (h : Placed blocks banks) (hb : b ∈ blocks) (hc : c ∈ blocks)
    (hbfilled : b.Filled) (hcfilled : c.Filled) :
    b.kind = c.kind ∧ b.offset = c.offset ↔ b.place = c.place := by
  obtain ⟨m, hm⟩ := h.find?_of_covers hb hbfilled.covers
  obtain ⟨n, hn⟩ := h.find?_of_covers hc hcfilled.covers
  have hbat := h.bankAddress_romOffset hb hbfilled hm
  have hcat := h.bankAddress_romOffset hc hcfilled hn
  constructor
  · rintro ⟨-, hoffset⟩
    obtain ⟨hkind, hrom⟩ := h.bankAddress_inj hm hn (by rw [hbat, hcat, hoffset])
    exact Prod.ext hkind hrom
  · intro hplace
    obtain ⟨hkind, hrom⟩ : b.kind = c.kind ∧ b.romOffset = c.romOffset := Prod.mk.inj hplace
    rw [hkind, hrom, hn] at hm
    obtain rfl := Option.some.inj hm
    exact ⟨hkind, by rw [← hbat, ← hcat, hrom]⟩

end Placed

namespace CommandLine

variable {b c : SampleBlock} {dir : String}

/-! ## File names -/

/-- What the name of a block's file begins with. -/
def namePrefix : SampleKind → List Char
  | .a => ['a', 'd', 'p', 'c', 'm', '-', 'a', '_']
  | .b => ['a', 'd', 'p', 'c', 'm', '-', 'b', '_']

/-- What the name of a block's file ends with. -/
def nameSuffix : List Char := ['.', 'b', 'i', 'n']

theorem toList_blockFileName (b : SampleBlock) : (blockFileName b).toList =
    namePrefix b.kind ++ ((Hex.padTo 6 (Hex.upper b.offset)).toList ++ nameSuffix) := by
  have hsuffix : ".bin".toList = nameSuffix := String.toList_ofList
  have hbar : "_".toList = ['_'] := String.toList_ofList
  have ha : "adpcm-a".toList = ['a', 'd', 'p', 'c', 'm', '-', 'a'] := String.toList_ofList
  have hb : "adpcm-b".toList = ['a', 'd', 'p', 'c', 'm', '-', 'b'] := String.toList_ofList
  unfold blockFileName
  rw [String.toList_append, String.toList_append, String.toList_append, hsuffix, hbar,
    List.append_assoc]
  cases b.kind
  · simp only [ha]
    rfl
  · simp only [hb]
    rfl

theorem length_namePrefix (k : SampleKind) : (namePrefix k).length = 8 := by
  cases k <;> rfl

theorem namePrefix_inj {k l : SampleKind} (h : namePrefix k = namePrefix l) : k = l := by
  revert h
  cases k <;> cases l <;> decide

/-- The name tells the kind and the offset of a block. -/
theorem blockFileName_eq_iff :
    blockFileName b = blockFileName c ↔ b.kind = c.kind ∧ b.offset = c.offset := by
  constructor
  · intro h
    have hchars := congrArg String.toList h
    rw [toList_blockFileName, toList_blockFileName] at hchars
    obtain ⟨hfront, hrest⟩ := List.append_inj hchars (by rw [length_namePrefix, length_namePrefix])
    exact ⟨namePrefix_inj hfront,
      Hex.padTo_upper_inj (String.toList_inj.mp (List.append_cancel_right hrest))⟩
  · rintro ⟨hkind, hoffset⟩
    unfold blockFileName
    rw [hkind, hoffset]

/-- Whether a character is ASCII and no slash. -/
def isNameChar (ch : Char) : Bool := ch.val ≤ 127 && ch != '/'

theorem all_isNameChar (b : SampleBlock) : (blockFileName b).toList.all isNameChar = true := by
  have hfront : (namePrefix b.kind).all isNameChar = true := by
    cases b.kind <;> decide
  have hdigits : Hex.upperDigits.all isNameChar = true := by decide
  have hsuffix : nameSuffix.all isNameChar = true := by decide
  rw [toList_blockFileName, List.all_append, List.all_append, hfront, hsuffix, Bool.true_and,
    Bool.and_true, List.all_eq_true]
  exact fun ch hch => List.all_eq_true.mp hdigits ch (Hex.mem_padTo_upper 6 b.offset ch hch)

theorem nameChar_blockFileName {ch : Char} (h : ch ∈ (blockFileName b).toList) :
    ch.val ≤ 127 ∧ ch ≠ '/' := by
  have hchar := List.all_eq_true.mp (all_isNameChar b) ch h
  simpa [isNameChar] using hchar

theorem plain_blockFileName (b : SampleBlock) : Path.Plain (blockFileName b) := by
  have hlong : 8 ≤ (blockFileName b).toList.length := by
    rw [toList_blockFileName, List.length_append, length_namePrefix]
    exact Nat.le_add_right 8 _
  have hne (text : String) (htext : text.toList.length < 8) : blockFileName b ≠ text := by
    rintro rfl
    omega
  refine ⟨?_, fun hslash => (nameChar_blockFileName hslash).2 rfl, hne "." (by decide),
    hne ".." (by decide)⟩
  intro hempty
  rw [hempty] at hlong
  exact absurd hlong (by decide)

theorem utf8Len_eq_length {chars : List Char} (h : ∀ ch ∈ chars, ch.val ≤ 127) :
    String.utf8Len chars = chars.length := by
  induction chars with
  | nil => rfl
  | cons ch rest ih =>
    obtain ⟨hch, hrest⟩ := List.forall_mem_cons.mp h
    rw [String.utf8Len_cons, ih hrest, Char.utf8Size_eq_one_iff.mpr hch, List.length_cons]

/-- The name of a block in sample memory has eighteen bytes. -/
theorem size_blockFileName (h : b.offset < 16 ^ 6) : (blockFileName b).utf8ByteSize = 18 := by
  have hdigits := Hex.length_padTo_upper (by decide : 0 < 6) h
  rw [← String.ofList_toList (s := blockFileName b), String.utf8ByteSize_ofList,
    utf8Len_eq_length fun _ hch => (nameChar_blockFileName hch).1, toList_blockFileName,
    List.length_append, List.length_append, length_namePrefix, hdigits]
  rfl

theorem size_join_le (dir name : String) :
    (Path.join dir name).utf8ByteSize ≤ dir.utf8ByteSize + name.utf8ByteSize + 1 := by
  unfold Path.join
  split
  · rw [String.utf8ByteSize_append]
    exact Nat.le_succ _
  · rw [String.utf8ByteSize_append, String.utf8ByteSize_append]
    have hslash : "/".utf8ByteSize = 1 := by decide
    omega

/-- The longest path of a directory for the files of blocks. -/
def maxExportPath : Nat := maxPathSize - 19

theorem storable_blockFileName (hdir : dir.utf8ByteSize ≤ maxExportPath) (h : b.offset < 16 ^ 6) :
    Storage.Storable dir (blockFileName b) := by
  have hsize := size_blockFileName h
  have hjoin := size_join_le dir (blockFileName b)
  refine ⟨plain_blockFileName b, ?_, ?_⟩
  · rw [hsize]
    decide
  · unfold maxExportPath maxPathSize at *
    omega

end CommandLine
end ChipReplay
