import ChipReplay.Proofs.Bytes.Contents
import ChipReplay.Proofs.Player.Asking
/-!
# What refills leave in the window

Two things live here:

* `settled`, the window once a list of refills has been served from a stream, and which of its
  bytes that can change;
* `Shown`, that a part of the window holds a part of the stream. A refill of a region makes it
  true there (`shown_filled`), and leaves it true in every other region (`Shown.after_refills`).

Refills may reach past the end of the stream. What the window holds there is not said.
-/

namespace ChipReplay

/-! ## Serving -/

/-- The window after `r` is served from `stream`. -/
def filled (stream : ByteArray) (w : Window) (r : Refill) : Window :=
  Playback.overwritten w r.target.toNat
    (stream.extract r.source.toNat (r.source.toNat + r.length.toNat))

/-- The window after the refills are served one after the other. -/
def settled (stream : ByteArray) (w : Window) (rs : List Refill) : Window :=
  rs.foldl (filled stream) w

theorem serve_eq (g : Playback) (r : Refill) :
    g.serve r = { g with window := filled g.stream g.window r, served := r :: g.served } := by
  simp only [Playback.serve, filled, Playback.part]

@[simp] theorem settled_nil (stream : ByteArray) (w : Window) : settled stream w [] = w :=
  List.foldl_nil

@[simp] theorem settled_cons (stream : ByteArray) (w : Window) (r : Refill) (rs : List Refill) :
    settled stream w (r :: rs) = settled stream (filled stream w r) rs :=
  List.foldl_cons ..

theorem settled_append (stream : ByteArray) (w : Window) (rs ss : List Refill) :
    settled stream w (rs ++ ss) = settled stream (settled stream w rs) ss :=
  List.foldl_append

/-- Serving a refill changes no byte that it does not cover. -/
theorem byte_filled_of_not_covers (stream : ByteArray) (w : Window) {r : Refill} {i : Nat}
    (h : ¬ r.Covers i) : (filled stream w r).byte i = w.byte i := by
  unfold filled Playback.overwritten
  split
  · next hfits =>
    -- the stream may end before the refill does
    have hsize : (stream.extract r.source.toNat (r.source.toNat + r.length.toNat)).size ≤
        r.length.toNat := by
      rw [ByteArray.size_extract]; omega
    rw [Window.byte_put, if_neg]
    intro hi
    exact h ⟨hi.1, by omega⟩
  · rfl

theorem byte_settled_of_not_covers (stream : ByteArray) (w : Window) {rs : List Refill} {i : Nat}
    (h : ∀ r ∈ rs, ¬ r.Covers i) : (settled stream w rs).byte i = w.byte i := by
  induction rs generalizing w with
  | nil => rfl
  | cons r rs ih =>
    rw [settled_cons, ih _ fun s hs => h s (List.mem_cons_of_mem _ hs),
      byte_filled_of_not_covers _ _ (h r List.mem_cons_self)]

/-! ## Parts of the stream -/

/-- The window holds, from `offset` on, the stream from `source` on, as far as there is one. -/
def Shown (stream : ByteArray) (w : Window) (offset source length : Nat) : Prop :=
  ∀ k < length, source + k < stream.size → w.byte (offset + k) = Bytes.peek stream (source + k)

/-- A region that has been refilled shows what was asked for. -/
theorem shown_filled (stream : ByteArray) (w : Window) {region : Region} (h : region ≠ .linear)
    (source : UInt32) :
    Shown stream (filled stream w (.ofRegion region source)) region.start source.toNat
      regionSize := by
  intro k hk hend
  unfold filled Playback.overwritten
  rw [Refill.target_ofRegion, Refill.length_ofRegion]
  have hsource : (Refill.ofRegion region source).source = source := rfl
  have hsize : (stream.extract source.toNat (source.toNat + regionSize)).size =
      min (source.toNat + regionSize) stream.size - source.toNat := ByteArray.size_extract
  -- a region's refill always fits, so it is not dropped
  have hfits : region.start +
      (stream.extract source.toNat (source.toNat + regionSize)).size ≤ windowSize := by
    have := region.stop_le_windowSize
    rw [Region.stop_eq h] at this
    omega
  rw [hsource, dif_pos hfits, Window.byte_put, if_pos (by omega), Nat.add_sub_cancel_left,
    Bytes.peek_extract, if_pos (by omega)]

/-- What a region shows it still shows after refills of other regions. -/
theorem Shown.after_refills {stream : ByteArray} {w : Window} {region : Region}
    {offset source length : Nat} (h : Shown stream w offset source length)
    (hspans : region.Spans offset length) {rs : List Refill}
    (hother : ∀ r ∈ rs, ∃ other source, other ≠ .linear ∧ other ≠ region ∧
      r = .ofRegion other source) :
    Shown stream (settled stream w rs) offset source length := by
  intro k hk hend
  rw [byte_settled_of_not_covers, h k hk hend]
  intro r hr hcovers
  obtain ⟨other, source, hlinear, hne, rfl⟩ := hother r hr
  rw [Refill.covers_ofRegion hlinear] at hcovers
  obtain ⟨hstart, hstop⟩ := hspans
  exact hne (Region.eq_of_mem hcovers ⟨by omega, by omega⟩)

end ChipReplay
