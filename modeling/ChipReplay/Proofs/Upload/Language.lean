import Mathlib.Data.FinEnum
import ChipReplay.Proofs.Bytes.Checked
import ChipReplay.Proofs.Upload.Sequence
/-!
# The language of control requests

`Request.Written` is the grammar of requests: what a setup stage and its data have to be to make
one. Reading accepts exactly that (`Request.decode_eq_some_iff`), leaves alone exactly what is no
vendor request (`Request.decode_eq_none_iff`), and refuses all the rest. What the host writes is in
the language, but for an upload of no bytes. A transfer that is not acknowledged leaves no trace
(`Session.acknowledged_or_unchanged`).
-/

namespace ChipReplay

open Bytes

/-! ## Setup stages -/

namespace Setup

/-- The setup stage is one of a vendor request: bits 5 and 6 of its type hold the number 2. -/
def OfVendor (s : Setup) : Prop := s.requestType.toNat / 32 % 4 = 2

/-- The setup stage is one of a vendor request to interface 0, in the direction that the highest bit
of its code says. -/
structure Addressed (s : Setup) : Prop where
  type : s.requestType = 0x41 ∨ s.requestType = 0xC1
  direction : s.requestType.toNat.testBit 7 = s.request.toNat.testBit 7
  index : s.index = 0

variable {s : Setup}

theorem isVendor_iff : s.isVendor = true ↔ s.OfVendor := by
  have h : ∀ x : UInt8, x &&& 0x60 = 0x40 ↔ x.toNat / 32 % 4 = 2 := by decide +kernel
  rw [isVendor, beq_iff_eq, h, OfVendor]

/-- Two bytes have the same direction if they do not differ in its bit. -/
theorem same_direction_iff (a b : UInt8) :
    (a ^^^ b) &&& directionIn = 0 ↔ a.toNat.testBit 7 = b.toNat.testBit 7 := by
  have h : ∀ x : UInt8, x &&& directionIn = 0 ↔ x.toNat.testBit 7 = false := by decide +kernel
  rw [h, UInt8.toNat_xor, Nat.testBit_xor, bne_eq_false_iff_eq]

/-- The three checks of a setup stage come to what its type, direction and index have to be. -/
theorem addressed_iff : s.Addressed ↔ s.isVendor = true ∧
    (s.requestType ^^^ s.request) &&& directionIn = 0 ∧ s.isInterfaceScoped = true := by
  have htype : ∀ x : UInt8, x &&& 0x60 = 0x40 ∧ x &&& 0x1F = 0x01 ↔ x = 0x41 ∨ x = 0xC1 := by
    decide +kernel
  rw [same_direction_iff, isVendor, isInterfaceScoped, Bool.and_eq_true, beq_iff_eq, beq_iff_eq,
    beq_iff_eq]
  constructor
  · intro h
    obtain ⟨hvendor, hscope⟩ := (htype _).mpr h.type
    exact ⟨hvendor, h.direction, h.index, hscope⟩
  · rintro ⟨hvendor, hdirection, hindex, hscope⟩
    exact ⟨(htype _).mp ⟨hvendor, hscope⟩, hdirection, hindex⟩

/-- Whatever its code is, the setup stage of a vendor request is addressed. -/
theorem addressed_vendor (code : UInt8) (value length : UInt16) :
    (vendor code value length).Addressed := by
  have htype : ∀ x : UInt8, (x &&& directionIn) ||| 0x40 ||| 0x01 = 0x41 ∨
      (x &&& directionIn) ||| 0x40 ||| 0x01 = 0xC1 := by decide +kernel
  have hdirection : ∀ x : UInt8,
      ((x &&& directionIn) ||| 0x40 ||| 0x01).toNat.testBit 7 = x.toNat.testBit 7 := by
    decide +kernel
  exact ⟨htype code, hdirection code, rfl⟩

end Setup

/-! ## Reading -/

theorem Destination.ofSelector_eq_ok_iff {value : UInt16} {t : Destination} :
    ofSelector value = .ok t ↔ value = t.selector := by
  constructor
  · intro h
    unfold ofSelector at h
    split at h
    · next hvalue => rw [← Except.ok.inj h, hvalue]; rfl
    · split at h
      · next hvalue => rw [← Except.ok.inj h, hvalue]; rfl
      · split at h
        · next hvalue => rw [← Except.ok.inj h, hvalue]; rfl
        · cases h
  · rintro rfl
    exact t.ofSelector_selector

namespace Request

/-- The setup stage and the data make the request. -/
inductive Written (s : Setup) (data : ByteArray) : Request → Prop
  | readStatus (haddressed : s.Addressed) (hcode : s.request = 0x80) : Written s data .readStatus
  | startPlayback (haddressed : s.Addressed) (hcode : s.request = 0x01) :
      Written s data .startPlayback
  | openUpload (haddressed : s.Addressed) (hcode : s.request = 0x00) (destination : Destination)
      (hvalue : s.value = destination.selector) (hsize : data.size = 8)
      (hlength : wordAt data 4 ≠ 0) :
      Written s data (.openUpload destination (wordAt data 0) (wordAt data 4))

variable {s : Setup} {data : ByteArray} {r : Request}

theorem Written.addressed (h : Written s data r) : s.Addressed := by
  cases h <;> assumption

theorem word32At_of_fits {i : Nat} (h : i + 4 ≤ data.size) :
    word32At data i = .ok (wordAt data i) := by
  rw [word32At, if_pos h, wordAt]

theorem decodeOpenUpload_eq_ok_iff {value : UInt16} : decodeOpenUpload value data = .ok r ↔
    ∃ t : Destination, value = t.selector ∧ data.size = 8 ∧ wordAt data 4 ≠ 0 ∧
      r = .openUpload t (wordAt data 0) (wordAt data 4) := by
  constructor
  · intro h
    obtain ⟨t, hselector, h⟩ := ok_of_bind h
    obtain ⟨hsize, h⟩ := ok_of_ite h
    obtain ⟨start, hstart, h⟩ := ok_of_bind h
    obtain ⟨-, rfl⟩ := word32At_ok (ok_of_mapError hstart)
    obtain ⟨length, hlength, h⟩ := ok_of_bind h
    obtain ⟨-, rfl⟩ := word32At_ok (ok_of_mapError hlength)
    obtain ⟨hpos, h⟩ := ok_of_ite h
    exact ⟨t, Destination.ofSelector_eq_ok_iff.mp hselector, Decidable.not_not.mp hsize, hpos,
      (Except.ok.inj h).symm⟩
  · rintro ⟨t, hvalue, hsize, hlength, rfl⟩
    have hstart := word32At_of_fits (show 0 + 4 ≤ data.size by omega)
    have hword := word32At_of_fits (show 4 + 4 ≤ data.size by omega)
    have hpayload : ¬ data.size ≠ payloadSize := fun hne => hne hsize
    unfold decodeOpenUpload
    rw [Destination.ofSelector_eq_ok_iff.mpr hvalue, hstart, hword]
    exact (if_neg hpayload).trans (if_neg hlength)

/-- What is no vendor request is not read. -/
theorem decode_of_not_vendor (h : ¬ s.OfVendor) : decode s data = .ok none := by
  rw [decode, if_pos]
  rw [Bool.not_eq_true', ← Bool.not_eq_true, Setup.isVendor_iff]
  exact h

/-- What is addressed in another way than to interface 0 is refused. -/
theorem decode_of_not_addressed (hvendor : s.OfVendor) (h : ¬ s.Addressed) :
    ∃ e, decode s data = .error e := by
  have hchecked := Setup.isVendor_iff.mpr hvendor
  rw [Setup.addressed_iff, not_and, not_and] at h
  unfold decode
  rw [hchecked, if_neg (by decide)]
  by_cases hdirection : (s.requestType ^^^ s.request) &&& Setup.directionIn = 0
  · have hscope : (!s.isInterfaceScoped) = true := by
      rw [Bool.not_eq_true', ← Bool.not_eq_true]
      exact h hchecked hdirection
    exact ⟨_, by rw [if_neg (fun hne => hne hdirection), if_pos hscope]⟩
  · exact ⟨_, if_pos hdirection⟩

/-- What is addressed to interface 0 is read by its code. -/
theorem decode_of_addressed (h : s.Addressed) : decode s data =
    if s.request = readStatusCode then .ok (some .readStatus)
    else if s.request = startPlaybackCode then .ok (some .startPlayback)
    else if s.request = openUploadCode then (decodeOpenUpload s.value data).map some
    else .error (.unknownRequest s.request) := by
  obtain ⟨hvendor, hdirection, hscope⟩ := Setup.addressed_iff.mp h
  rw [decode, hvendor, if_neg (by decide), if_neg (fun hne => hne hdirection), hscope,
    if_neg (by decide)]

/-- Reading accepts exactly what makes a request, and gives that request. -/
theorem decode_eq_some_iff : decode s data = .ok (some r) ↔ Written s data r := by
  constructor
  · intro h
    have hvendor : s.OfVendor := by
      by_contra hother
      rw [decode_of_not_vendor hother] at h
      cases h
    have haddressed : s.Addressed := by
      by_contra hother
      obtain ⟨e, he⟩ : ∃ e, decode s data = .error e := decode_of_not_addressed hvendor hother
      rw [he] at h
      cases h
    rw [decode_of_addressed haddressed] at h
    split at h
    · next hcode =>
      cases h
      exact .readStatus haddressed hcode
    · split at h
      · next hcode =>
        cases h
        exact .startPlayback haddressed hcode
      · split at h
        · next hcode =>
          cases hread : decodeOpenUpload s.value data with
          | error e =>
            rw [hread] at h
            cases h
          | ok opened =>
            rw [hread] at h
            obtain rfl : opened = r := Option.some.inj (Except.ok.inj h)
            obtain ⟨t, hvalue, hsize, hlength, rfl⟩ := decodeOpenUpload_eq_ok_iff.mp hread
            exact .openUpload haddressed hcode t hvalue hsize hlength
        · cases h
  · intro h
    rw [decode_of_addressed h.addressed]
    cases h with
    | readStatus _ hcode => rw [hcode]; rfl
    | startPlayback _ hcode => rw [hcode]; rfl
    | openUpload _ hcode t hvalue hsize hlength =>
      rw [hcode, decodeOpenUpload_eq_ok_iff.mpr ⟨t, hvalue, hsize, hlength, rfl⟩]
      rfl

/-- Nothing but what is no vendor request is left to others. -/
theorem decode_eq_none_iff : decode s data = .ok none ↔ ¬ s.OfVendor := by
  refine ⟨fun h hvendor => ?_, decode_of_not_vendor⟩
  by_cases haddressed : s.Addressed
  · rw [decode_of_addressed haddressed] at h
    split at h
    · cases h
    · split at h
      · cases h
      · split at h
        · cases hread : decodeOpenUpload s.value data <;> rw [hread] at h <;> cases h
        · cases h
  · obtain ⟨e, he⟩ : ∃ e, decode s data = .error e := decode_of_not_addressed hvendor haddressed
    rw [he] at h
    cases h

/-- A vendor request that is no request of the language is refused. -/
theorem decode_eq_error_iff :
    (∃ e, decode s data = .error e) ↔ s.OfVendor ∧ ∀ r, ¬ Written s data r := by
  constructor
  · rintro ⟨e, he⟩
    refine ⟨?_, fun r hr => ?_⟩
    · by_contra hother
      rw [decode_of_not_vendor hother] at he
      cases he
    · rw [decode_eq_some_iff.mpr hr] at he
      cases he
  · rintro ⟨hvendor, hnone⟩
    cases hread : decode s data with
    | error e => exact ⟨e, rfl⟩
    | ok found =>
      cases found with
      | none => exact absurd hvendor (decode_eq_none_iff.mp hread)
      | some r => exact absurd (decode_eq_some_iff.mp hread) (hnone r)

/-! ## Writing -/

/-- The host addresses its requests to interface 0. -/
theorem addressed_encode (r : Request) : r.encode.1.Addressed := by
  cases r <;> exact Setup.addressed_vendor _ _ _

/-- What the host writes is read back, but for an upload of no bytes. -/
theorem decode_encode (r : Request) : (∃ t start, r = .openUpload t start 0) ∨
    decode r.encode.1 r.encode.2 = .ok (some r) := by
  cases r with
  | readStatus => exact .inr (decode_eq_some_iff.mpr (.readStatus (addressed_encode _) rfl))
  | startPlayback => exact .inr (decode_eq_some_iff.mpr (.startPlayback (addressed_encode _) rfl))
  | openUpload t start length =>
    by_cases hlength : length = 0
    · exact .inl ⟨t, start, by rw [hlength]⟩
    · exact .inr (decode_openUpload t start hlength)

/-- An upload of no bytes is refused as such. -/
theorem decode_encode_empty (t : Destination) (start : UInt32) :
    decode (encode (.openUpload t start 0)).1 (encode (.openUpload t start 0)).2 =
      .error .zeroLength := by
  have hzero : word32At (le32 start ++ le32 0) 4 = .ok 0 := congrArg Except.ok (word32_le32 0)
  have hstart : word32At (le32 start ++ le32 0) 0 = .ok start :=
    congrArg Except.ok (word32_le32 start)
  have hpayload : decodeOpenUpload t.selector (le32 start ++ le32 0) = .error .zeroLength := by
    unfold decodeOpenUpload
    rw [Destination.ofSelector_selector, hstart, hzero]
    rfl
  rw [decode_of_addressed (addressed_encode _)]
  show (decodeOpenUpload t.selector (le32 start ++ le32 0)).map some = _
  rw [hpayload]
  rfl

end Request

/-! ## Answering -/

/-- A transfer that is not acknowledged leaves the session and the endpoint as they are. -/
theorem Session.acknowledged_or_unchanged (s : Session) (e : Endpoint) (setup : Setup)
    (data : ByteArray) : (s.control e setup data).1 = .ok .acknowledge ∨
      (s.control e setup data).2 = (s, e) := by
  unfold control
  rcases Request.decode setup data with _ | _ | _ | _ | ⟨t, start, length⟩
  · exact .inr rfl
  · exact .inr rfl
  · exact .inr rfl
  · exact .inl rfl
  · dsimp only
    cases s.openUpload e t start.toNat length.toNat with
    | error err => exact .inr rfl
    | ok opened => exact .inl rfl

/-- Of all setup stages and data, those of the grammar are read as their request, those that are no
vendor request are left to others, and the rest is refused. Each request is read as it is written,
but for an upload of no bytes, which is refused. A transfer that is refused, left to others or
answered with data changes neither the session nor the endpoint. -/
theorem Request.decode_exact :
    (∀ setup data r, decode setup data = .ok (some r) ↔ Written setup data r) ∧
    (∀ setup data, decode setup data = .ok none ↔ ¬ setup.OfVendor) ∧
    (∀ setup data, (∃ e, decode setup data = .error e) ↔
      setup.OfVendor ∧ ∀ r, ¬ Written setup data r) ∧
    (∀ r : Request, (∃ t start, r = .openUpload t start 0) ∨
      decode r.encode.1 r.encode.2 = .ok (some r)) ∧
    (∀ t start, decode (encode (.openUpload t start 0)).1 (encode (.openUpload t start 0)).2 =
      .error .zeroLength) ∧
    ∀ (s : Session) (e : Endpoint) setup data, (s.control e setup data).1 = .ok .acknowledge ∨
      (s.control e setup data).2 = (s, e) :=
  ⟨fun _ _ _ => decode_eq_some_iff, fun _ _ => decode_eq_none_iff, fun _ _ => decode_eq_error_iff,
    decode_encode, decode_encode_empty, Session.acknowledged_or_unchanged⟩

end ChipReplay
