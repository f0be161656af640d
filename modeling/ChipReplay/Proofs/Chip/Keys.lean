import ChipReplay.Chip.Filter
import ChipReplay.Chip.Recorder
import ChipReplay.Chip.Silence
import ChipReplay.Chip.Voices
/-!
# Keyed channels

Three writers share the key register: the log, the voices played by hand, and what silences the
chip. Whether a channel is keyed is decided by the last write for its slot code (`keyed`).
`Voices.status` sets this beside the note that is recorded for the channel, and says what playing
and muting do to both. `Owned` is what they keep in common with changes of the mask: inside the mask
no note is recorded, and outside of it a channel is keyed exactly while a note is.
-/

namespace ChipReplay

/-! ## The key register -/

/-- The write keys `channel` on or off. -/
def RegisterWrite.keys (w : RegisterWrite) (channel : Nat) : Bool :=
  w.address == Register.fmKey && FmChannel.slot? channel == some (w.data &&& 0x07)

/-- Whether `channel` is keyed after `writes`: some operator is on in the last write for it. -/
def keyed (writes : List RegisterWrite) (channel : Nat) : Bool :=
  match writes.reverse.find? (·.keys channel) with
  | some w => w.data &&& 0xF0 != 0
  | none => false

theorem keyed_concat (writes : List RegisterWrite) (w : RegisterWrite) (c : Nat) :
    keyed (writes ++ [w]) c = if w.keys c then w.data &&& 0xF0 != 0 else keyed writes c := by
  unfold keyed
  rw [List.reverse_append, List.reverse_singleton, List.singleton_append, List.find?_cons]
  cases w.keys c with
  | true => rfl
  | false => rfl

/-- Writes for other channels or registers leave a channel as it is. -/
theorem keyed_append_of_forall {ws : List RegisterWrite} {c : Nat}
    (h : ∀ w ∈ ws, w.keys c = false) (writes : List RegisterWrite) :
    keyed (writes ++ ws) c = keyed writes c := by
  induction ws generalizing writes with
  | nil => rw [List.append_nil]
  | cons w ws ih =>
    obtain ⟨hw, hws⟩ := List.forall_mem_cons.mp h
    rw [List.append_cons, ih hws, keyed_concat, hw]
    rfl

namespace FmChannel

theorem lt_of_slot? {c : Nat} {slot : UInt8} (h : slot? c = some slot) : c < fmChannelCount :=
  (List.getElem?_eq_some_iff.mp h).1

theorem exists_slot? {c : Nat} (h : c < fmChannelCount) : ∃ slot, slot? c = some slot :=
  ⟨_, List.getElem?_eq_getElem (show c < slots.length from h)⟩

/-- Slot codes tell the channels apart, and are no more than three bits long. -/
theorem slot?_inj {c c' : Nat} {slot : UInt8} (h : slot? c = some slot)
    (h' : slot? c' = some slot) : c = c' := by
  have hall : ∀ c < fmChannelCount, ∀ c' < fmChannelCount, slot? c = slot? c' → c = c' := by decide
  exact hall c (lt_of_slot? h) c' (lt_of_slot? h') (h.trans h'.symm)

theorem mem_slots {c : Nat} {slot : UInt8} (h : slot? c = some slot) : slot ∈ slots :=
  List.mem_of_getElem? h

/-- The channel that the filter finds for a slot code is the one that has it. -/
theorem ofSlot?_of_slot? {c : Nat} {slot : UInt8} (h : slot? c = some slot) :
    ofSlot? slot = some c := by
  have hall : ∀ c < fmChannelCount, (slot? c).bind ofSlot? = some c := by decide
  have hc := hall c (lt_of_slot? h)
  rwa [h] at hc

end FmChannel

/-- A write to the key register is for the channel whose slot code it holds. -/
theorem RegisterWrite.keys_eq {ch : Nat} {slot data : UInt8} (h : FmChannel.slot? ch = some slot)
    (hdata : data &&& 0x07 = slot) (c : Nat) :
    (⟨Register.fmKey, data⟩ : RegisterWrite).keys c = decide (c = ch) := by
  unfold keys
  rw [hdata, beq_self_eq_true, Bool.true_and]
  by_cases hc : c = ch
  · rw [hc, h, decide_eq_true rfl]
    exact beq_self_eq_true _
  · rw [decide_eq_false hc]
    apply beq_eq_false_iff_ne.mpr
    intro hslot
    exact hc (FmChannel.slot?_inj hslot h)

/-- The address of the key register is kept while a write waits. -/
theorem RegisterWrite.masked_fmKey (data : UInt8) :
    (⟨Register.fmKey, data⟩ : RegisterWrite).masked = ⟨Register.fmKey, data⟩ := by
  have haddress : Register.fmKey &&& 0x1FF = Register.fmKey := by decide
  show (⟨Register.fmKey &&& 0x1FF, data⟩ : RegisterWrite) = _
  rw [haddress]

theorem RegisterWrite.keys_of_ne {w : RegisterWrite} (h : w.address ≠ Register.fmKey) (c : Nat) :
    w.keys c = false := by
  rw [keys, beq_eq_false_iff_ne.mpr h, Bool.false_and]

/-! ## Playing and muting -/

namespace Voices

variable {v : Voices} {writes : List RegisterWrite} {ch : Nat} {slot : UInt8}

theorem sounding_record (v : Voices) (h : ch < fmChannelCount) (note : Option UInt8) (c : Nat) :
    (v.record ch note).sounding c = if c = ch then note else v.sounding c := by
  unfold record sounding
  by_cases hc : c = ch
  · have hset : (v.notes.setIfInBounds ch note)[ch]? = some note :=
      Vector.getElem?_setIfInBounds_self_of_lt h
    rw [if_pos hc, hc]
    show (v.notes.setIfInBounds ch note)[ch]?.join = note
    rw [hset]
    rfl
  · rw [if_neg hc, Vector.getElem?_setIfInBounds_ne (Ne.symm hc)]

/-- The note that is recorded for a channel, and whether the channel is keyed. -/
def status (v : Voices) (writes : List RegisterWrite) (c : Nat) : Option UInt8 × Bool :=
  (v.sounding c, keyed writes c)

/-- A release ends what sounds on its channel. -/
theorem keyed_release (writes : List RegisterWrite) (h : ch < fmChannelCount) (c : Nat) :
    keyed (writes ++ (release ch).map .masked) c = if c = ch then false else keyed writes c := by
  obtain ⟨slot, hslot⟩ := FmChannel.exists_slot? h
  have hcode : ∀ s ∈ FmChannel.slots, s &&& 0x07 = s ∧ (s &&& 0xF0 != 0) = false := by
    decide +kernel
  obtain ⟨hlow, hhigh⟩ := hcode slot (FmChannel.mem_slots hslot)
  have hrelease : (release ch).map .masked = [releaseWrite slot] := by
    rw [release, hslot]
    exact congrArg (fun w => [w]) (RegisterWrite.masked_fmKey slot)
  rw [hrelease, keyed_concat, releaseWrite, RegisterWrite.keys_eq hslot hlow, hhigh]
  by_cases hc : c = ch
  · simp [hc]
  · simp [hc]

/-- Pitch registers are not the key register. -/
theorem keys_pitchWrites (h : slot ∈ FmChannel.slots) (note : UInt8) {w : RegisterWrite}
    (hw : w ∈ (pitchWrites slot note).map .masked) (c : Nat) : w.keys c = false := by
  have haddress : ∀ s ∈ FmChannel.slots,
      (FmChannel.registerBase s + 0xA4) &&& 0x1FF ≠ Register.fmKey ∧
        (FmChannel.registerBase s + 0xA0) &&& 0x1FF ≠ Register.fmKey := by
    decide +kernel
  obtain ⟨hhigh, hlow⟩ := haddress slot h
  apply RegisterWrite.keys_of_ne
  rcases List.mem_cons.mp hw with rfl | hw
  · exact hhigh
  · obtain rfl := List.mem_singleton.mp hw
    exact hlow

/-- What a note that is keyed on or off makes of the status of its channel. -/
def keyedNote (on : Bool) (note : UInt8) (s : Option UInt8 × Bool) : Option UInt8 × Bool :=
  if on then (some note, true)
  else if s.1 = some note then (none, false)
  else s

/-- If a channel is keyed exactly while a note is recorded, it still is. -/
theorem isSome_keyedNote {s : Option UInt8 × Bool} (h : s.2 = s.1.isSome) (on : Bool)
    (note : UInt8) : (keyedNote on note s).2 = (keyedNote on note s).1.isSome := by
  unfold keyedNote
  split
  · rfl
  · split
    · rfl
    · exact h

theorem status_release (v : Voices) (writes : List RegisterWrite) (h : ch < fmChannelCount)
    (c : Nat) :
    status (v.record ch none) (writes ++ (release ch).map .masked) c =
      if c = ch then (none, false) else status v writes c := by
  rw [status, sounding_record v h, keyed_release writes h]
  by_cases hc : c = ch
  · rw [if_pos hc, if_pos hc, if_pos hc]
  · rw [if_neg hc, if_neg hc, if_neg hc]
    rfl

/-- Keying a note changes the status of its channel alone. -/
theorem status_key (v : Voices) (writes : List RegisterWrite) (h : ch < fmChannelCount)
    (on : Bool) (note : UInt8) (c : Nat) :
    status (v.key ch on note).1 (writes ++ (v.key ch on note).2.map .masked) c =
      if c = ch then keyedNote on (note &&& 0x7F) (status v writes c) else status v writes c := by
  obtain ⟨slot, hslot⟩ := FmChannel.exists_slot? h
  have hmem := FmChannel.mem_slots hslot
  unfold key
  rw [hslot]
  dsimp only
  cases on with
  | true =>
    have hcode : ∀ s ∈ FmChannel.slots,
        (0xF0 ||| s) &&& 0x07 = s ∧ ((0xF0 ||| s) &&& 0xF0 != 0) = true := by
      decide +kernel
    obtain ⟨hlow, hhigh⟩ := hcode slot hmem
    have hpitch := keyed_append_of_forall
      (fun w hw => keys_pitchWrites hmem (note &&& 0x7F) hw c) writes
    have hkey : [keyWrite slot].map RegisterWrite.masked =
        [(⟨Register.fmKey, 0xF0 ||| slot⟩ : RegisterWrite)] :=
      congrArg (fun w => [w]) (RegisterWrite.masked_fmKey (0xF0 ||| slot))
    rw [if_pos rfl]
    dsimp only
    rw [status, sounding_record v h, List.map_append, ← List.append_assoc, hkey, keyed_concat,
      RegisterWrite.keys_eq hslot hlow, hhigh, hpitch]
    by_cases hc : c = ch
    · simp [hc, keyedNote]
    · simp [hc, status]
  | false =>
    rw [if_neg Bool.false_ne_true]
    by_cases hsame : v.sounding ch = some (note &&& 0x7F)
    · have hrelease : [releaseWrite slot] = release ch := by rw [release, hslot]
      rw [if_pos hsame]
      dsimp only
      rw [hrelease, status_release v writes h]
      by_cases hc : c = ch
      · rw [if_pos hc, if_pos hc, hc, keyedNote, if_neg Bool.false_ne_true]
        exact (if_pos hsame).symm
      · rw [if_neg hc, if_neg hc]
    · rw [if_neg hsame]
      dsimp only
      rw [List.map_nil, List.append_nil]
      by_cases hc : c = ch
      · rw [if_pos hc, hc, keyedNote, if_neg Bool.false_ne_true]
        exact (if_neg hsame).symm
      · rw [if_neg hc]

/-- What is done to several channels changes the status of each of them once. -/
theorem status_forEach {act : Voices → Nat → Voices × List RegisterWrite}
    {f : Option UInt8 × Bool → Option UInt8 × Bool}
    (hact : ∀ v writes ch, ch < fmChannelCount → ∀ c,
      status (act v ch).1 (writes ++ (act v ch).2.map .masked) c =
        if c = ch then f (status v writes c) else status v writes c)
    {channels : List Nat} (hnodup : channels.Nodup) (hlt : ∀ ch ∈ channels, ch < fmChannelCount)
    (v : Voices) (writes : List RegisterWrite) (c : Nat) :
    status (v.forEach channels act).1 (writes ++ (v.forEach channels act).2.map .masked) c =
      if c ∈ channels then f (status v writes c) else status v writes c := by
  induction channels generalizing v writes with
  | nil =>
    rw [if_neg List.not_mem_nil, forEach, List.map_nil, List.append_nil]
  | cons ch channels ih =>
    obtain ⟨hch, hlt⟩ := List.forall_mem_cons.mp hlt
    obtain ⟨hfresh, hnodup⟩ := List.nodup_cons.mp hnodup
    rw [forEach, List.map_append, ← List.append_assoc, ih hnodup hlt, hact v writes ch hch]
    by_cases hc : c = ch
    · rw [if_pos hc, hc, if_neg hfresh, if_pos List.mem_cons_self]
    · by_cases hmem : c ∈ channels
      · rw [if_pos hmem, if_neg hc, if_pos (List.mem_cons_of_mem _ hmem)]
      · rw [if_neg hmem, if_neg hc, if_neg (by simp [hc, hmem])]

theorem nodup_toList (mask : ChannelSet) : mask.toList.Nodup := List.nodup_range.filter _

theorem status_keyAll (v : Voices) (writes : List RegisterWrite) (mask : ChannelSet) (on : Bool)
    (note : UInt8) (c : Nat) :
    status (v.keyAll mask on note).1 (writes ++ (v.keyAll mask on note).2.map .masked) c =
      if mask.contains c then keyedNote on (note &&& 0x7F) (status v writes c)
      else status v writes c := by
  rw [keyAll, status_forEach (fun v writes ch h => status_key v writes h on note)
    (nodup_toList mask) fun ch h => ChannelSet.lt_of_contains (ChannelSet.mem_toList.mp h)]
  simp only [ChannelSet.mem_toList]

theorem status_mute (v : Voices) (writes : List RegisterWrite) (mask : ChannelSet) (c : Nat) :
    status (v.mute mask).1 (writes ++ (v.mute mask).2.map .masked) c =
      if mask.contains c then (none, false) else status v writes c := by
  rw [mute, status_forEach (f := fun _ => (none, false))
    (fun v writes ch h => status_release v writes h)
    (nodup_toList mask) fun ch h => ChannelSet.lt_of_contains (ChannelSet.mem_toList.mp h)]
  simp only [ChannelSet.mem_toList]

theorem sounding_eq_none (v : Voices) {c : Nat} (h : fmChannelCount ≤ c) : v.sounding c = none := by
  have hnone : v.notes[c]? = none := Vector.getElem?_eq_none h
  rw [sounding, hnone]
  rfl

/-- A note off ends its note on the channels that are keyed off, whichever they are. -/
theorem sounding_keyOff (v : Voices) (mask : ChannelSet) (note : UInt8) {c : Nat}
    (hc : mask.contains c = false → v.sounding c ≠ some (note &&& 0x7F)) :
    (v.keyAll mask false note).1.sounding c ≠ some (note &&& 0x7F) := by
  have hstatus := congrArg Prod.fst (status_keyAll v [] mask false note c)
  replace hstatus : (v.keyAll mask false note).1.sounding c = _ := hstatus
  rw [hstatus]
  cases hcontains : mask.contains c with
  | false =>
    rw [if_neg Bool.false_ne_true]
    exact hc hcontains
  | true =>
    rw [if_pos rfl, keyedNote, if_neg Bool.false_ne_true]
    by_cases hsounds : (v.status [] c).1 = some (note &&& 0x7F)
    · rw [if_pos hsounds]
      exact Option.some_ne_none _ ∘ Eq.symm
    · rw [if_neg hsounds]
      exact hsounds

/-- Channels that are released are not keyed, and the others are as they were. -/
theorem keyed_releases (channels : List Nat) (hlt : ∀ ch ∈ channels, ch < fmChannelCount)
    (writes : List RegisterWrite) (c : Nat) :
    keyed (writes ++ (channels.flatMap release).map .masked) c =
      if c ∈ channels then false else keyed writes c := by
  induction channels generalizing writes with
  | nil => rw [if_neg List.not_mem_nil, List.flatMap_nil, List.map_nil, List.append_nil]
  | cons ch channels ih =>
    obtain ⟨hch, hlt⟩ := List.forall_mem_cons.mp hlt
    rw [List.flatMap_cons, List.map_append, ← List.append_assoc, ih hlt, keyed_release writes hch]
    by_cases hmem : c ∈ channels
    · rw [if_pos hmem, if_pos (List.mem_cons_of_mem _ hmem)]
    · by_cases hc : c = ch
      · rw [if_neg hmem, if_pos hc, if_pos (by simp [hc])]
      · rw [if_neg hmem, if_neg hc, if_neg (by simp [hc, hmem])]

end Voices

/-! ## The filter and the mask -/

namespace ChannelSet

theorem contains_complement {mask : ChannelSet} {c : Nat} (h : c < fmChannelCount) :
    mask.complement.contains c = !mask.contains c := by
  unfold complement contains
  rw [BitVec.getLsbD_not, decide_eq_true (show c < 6 from h), Bool.true_and]

theorem contains_diff (s t : ChannelSet) (c : Nat) :
    (s.diff t).contains c = (s.contains c && !t.contains c) := by
  unfold diff contains
  rw [BitVec.getLsbD_and, BitVec.getLsbD_not]
  by_cases hc : c < 6
  · rw [decide_eq_true hc, Bool.true_and]
  · rw [BitVec.getLsbD_of_ge s.bits c (by omega), Bool.false_and, Bool.false_and]

end ChannelSet

/-- The filter lets the log key a channel only inside the mask. -/
theorem ChannelFilter.contains_of_keys {f : ChannelFilter} {w : RegisterWrite} {c : Nat}
    (hallowed : (f.verdict w.address w.data).isAllowed = true) (hkeys : w.keys c = true) :
    f.mask.contains c = true := by
  obtain ⟨haddress, hslot⟩ := Bool.and_eq_true_iff.mp hkeys
  have hchannel := FmChannel.ofSlot?_of_slot? (eq_of_beq hslot)
  cases hcontains : f.mask.contains c with
  | true => rfl
  | false =>
    have hmasked : f.keysMasked w.data = true := by
      rw [keysMasked, hchannel]
      dsimp only
      rw [hcontains]
      rfl
    unfold verdict at hallowed
    rw [haddress, hmasked] at hallowed
    dsimp only at hallowed
    split at hallowed
    · exact absurd hallowed Bool.false_ne_true
    · split at hallowed
      · exact absurd hallowed Bool.false_ne_true
      · exact absurd hallowed Bool.false_ne_true

theorem Silence.keys_all {w : RegisterWrite} (h : w ∈ Silence.all.map .masked) (c : Nat) :
    w.keys c = false := by
  have haddress : ∀ w ∈ Silence.all.map RegisterWrite.masked, w.address ≠ Register.fmKey := by
    decide
  exact RegisterWrite.keys_of_ne (haddress w h) c

/-! ## Ownership -/

/-- The log owns the channels of `mask`: no note is recorded for them. The others are played by
hand: each is keyed exactly while a note is recorded for it. -/
structure Owned (mask : ChannelSet) (v : Voices) (writes : List RegisterWrite) : Prop where
  silent : ∀ c, mask.contains c = true → v.sounding c = none
  keyed : ∀ c, mask.contains c = false → keyed writes c = (v.sounding c).isSome

namespace Owned

variable {mask : ChannelSet} {v : Voices} {writes : List RegisterWrite}

/-- Writes that key no channel outside the mask change nothing. -/
theorem append (h : Owned mask v writes) {ws : List RegisterWrite}
    (hws : ∀ w ∈ ws, ∀ c, w.keys c = true → mask.contains c = true) :
    Owned mask v (writes ++ ws) where
  silent := h.silent
  keyed := by
    intro c hc
    rw [← h.keyed c hc]
    apply keyed_append_of_forall
    intro w hw
    cases hkeys : w.keys c with
    | false => rfl
    | true => exact absurd (hws w hw c hkeys) (by simp [hc])

/-- Ownership says something about the status of each channel. -/
theorem iff_status : Owned mask v writes ↔
    ∀ c, (mask.contains c = true → (v.status writes c).1 = none) ∧
      (mask.contains c = false → (v.status writes c).2 = (v.status writes c).1.isSome) :=
  ⟨fun h c => ⟨h.silent c, h.keyed c⟩, fun h => ⟨fun c => (h c).1, fun c => (h c).2⟩⟩

/-- The notes played by hand sound outside the mask. -/
theorem keyAll (h : Owned mask v writes) (on : Bool) (note : UInt8) :
    Owned mask (v.keyAll mask.complement on note).1
      (writes ++ (v.keyAll mask.complement on note).2.map .masked) := by
  rw [iff_status] at h ⊢
  intro c
  obtain ⟨hsilent, hmatch⟩ := h c
  rw [Voices.status_keyAll]
  constructor
  · intro hc
    rw [ChannelSet.contains_complement (ChannelSet.lt_of_contains hc), hc, if_neg (by simp)]
    exact hsilent hc
  · intro hc
    split
    · exact Voices.isSome_keyedNote (hmatch hc) on _
    · exact hmatch hc

/-- Muting every channel ends all notes. -/
theorem muteAll (h : Owned mask v writes) :
    Owned mask (v.mute .all).1 (writes ++ (v.mute .all).2.map .masked) := by
  rw [iff_status] at h ⊢
  intro c
  rw [Voices.status_mute]
  split
  · exact ⟨fun _ => rfl, fun _ => rfl⟩
  · exact h c

/-- Channels that leave the mask are released, and those that join it lose their notes. -/
theorem setMask (h : Owned mask v writes) (mask' : ChannelSet) :
    Owned mask' (v.mute (mask'.diff mask)).1
      (writes ++ ((mask.diff mask').toList.flatMap Voices.release ++
        (v.mute (mask'.diff mask)).2).map .masked) := by
  rw [List.map_append, ← List.append_assoc, iff_status]
  intro c
  rw [Voices.status_mute, ChannelSet.contains_diff]
  have hreleased := Voices.keyed_releases (mask.diff mask').toList
    (fun c hc => ChannelSet.lt_of_contains (ChannelSet.mem_toList.mp hc)) writes c
  simp only [ChannelSet.mem_toList, ChannelSet.contains_diff] at hreleased
  unfold Voices.status
  rw [hreleased]
  -- where the channel was, and where it is now
  cases hold : mask.contains c with
  | true =>
    have hsilent := h.silent c hold
    cases hnew : mask'.contains c <;> simp [hsilent]
  | false =>
    have hmatch := h.keyed c hold
    cases hnew : mask'.contains c <;> simp [hmatch]

end Owned
end ChipReplay
