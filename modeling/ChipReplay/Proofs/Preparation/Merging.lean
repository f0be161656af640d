import ChipReplay.Preparation.Prepared
import Mathlib.Data.List.Basic
/-!
# Sorting and joining sample blocks

Blocks are sorted by kind and ROM offset, and a block that continues the one before it is joined to
that one. What comes out is still sorted (`sorted_mergedBlocks`) and covers the same ROM addresses
(`covered_mergedBlocks`). The first follows from where blocks begin: joining them only leaves out
places, so it keeps their order.
-/

namespace ChipReplay

theorem SampleKind.rank_inj {k l : SampleKind} (h : k.rank = l.rank) : k = l := by
  cases k <;> cases l <;> first | rfl | exact absurd h (by decide)

namespace SampleBlock

variable {b c last next : SampleBlock} {bs rest : List SampleBlock} {k : SampleKind} {a : Nat}

/-- ROM address `a` of kind `k` lies in the block. -/
def Covers (b : SampleBlock) (k : SampleKind) (a : Nat) : Prop :=
  b.kind = k ∧ b.romOffset ≤ a ∧ a < b.romStop

/-- ROM address `a` of kind `k` lies in one of the blocks. -/
def Covered (bs : List SampleBlock) (k : SampleKind) (a : Nat) : Prop := ∃ b ∈ bs, b.Covers k a

theorem covered_cons : Covered (b :: bs) k a ↔ b.Covers k a ∨ Covered bs k a :=
  List.exists_mem_cons_iff _ _ _

/-! ## Order -/

/-- Where a block begins. -/
def place (b : SampleBlock) : SampleKind × Nat := (b.kind, b.romOffset)

/-- The order of places: by kind, and by offset where the kind is the same. -/
def PlaceLe (p q : SampleKind × Nat) : Prop := p.1.rank < q.1.rank ∨ p.1 = q.1 ∧ p.2 ≤ q.2

instance (p q : SampleKind × Nat) : Decidable (PlaceLe p q) :=
  inferInstanceAs (Decidable (_ ∨ _))

theorem precedes_iff : b.precedes c = true ↔ PlaceLe b.place c.place := by
  simp [precedes, PlaceLe, place]

theorem PlaceLe.trans {p q r : SampleKind × Nat} (hpq : PlaceLe p q) (hqr : PlaceLe q r) :
    PlaceLe p r := by
  rcases hpq with hlt | ⟨hkind, hle⟩
  · rcases hqr with hlt' | ⟨hkind', -⟩
    · exact .inl (Nat.lt_trans hlt hlt')
    · exact .inl (hkind' ▸ hlt)
  · rcases hqr with hlt' | ⟨hkind', hle'⟩
    · exact .inl (hkind ▸ hlt')
    · exact .inr ⟨hkind.trans hkind', Nat.le_trans hle hle'⟩

theorem PlaceLe.total (p q : SampleKind × Nat) : PlaceLe p q ∨ PlaceLe q p := by
  rcases Nat.lt_trichotomy p.1.rank q.1.rank with hlt | heq | hgt
  · exact .inl (.inl hlt)
  · have hkind := SampleKind.rank_inj heq
    exact (Nat.le_total p.2 q.2).imp (fun hle => .inr ⟨hkind, hle⟩)
      (fun hle => .inr ⟨hkind.symm, hle⟩)
  · exact .inr (.inl hgt)

/-- The blocks are in order. -/
def Sorted (bs : List SampleBlock) : Prop := (bs.map place).Pairwise PlaceLe

theorem precedes_trans (b c d : SampleBlock) (hbc : b.precedes c = true)
    (hcd : c.precedes d = true) : b.precedes d = true :=
  precedes_iff.mpr ((precedes_iff.mp hbc).trans (precedes_iff.mp hcd))

theorem precedes_total (b c : SampleBlock) : (b.precedes c || c.precedes b) = true := by
  rw [Bool.or_eq_true, precedes_iff, precedes_iff]
  exact PlaceLe.total b.place c.place

theorem sorted_mergeSort (bs : List SampleBlock) : Sorted (bs.mergeSort precedes) := by
  rw [Sorted, List.pairwise_map]
  exact (List.pairwise_mergeSort precedes_trans precedes_total bs).imp precedes_iff.mp

/-- Sorting leaves blocks as they are that are in order among themselves. -/
theorem filter_mergeSort {bs : List SampleBlock} {keep : SampleBlock → Bool}
    (h : (bs.filter keep).Pairwise fun b c => b.precedes c = true) :
    (bs.mergeSort precedes).filter keep = bs.filter keep := by
  have hsub : (bs.filter keep).Sublist (bs.mergeSort precedes) :=
    List.sublist_mergeSort precedes_trans precedes_total h List.filter_sublist
  have hkept := hsub.filter keep
  rw [List.filter_filter, show (fun b => keep b && keep b) = keep by simp] at hkept
  have hlength := ((List.mergeSort_perm bs precedes).filter keep).length_eq
  exact (hkept.eq_of_length hlength.symm).symm

instance (bs : List SampleBlock) : Decidable (Sorted bs) :=
  inferInstanceAs (Decidable (List.Pairwise PlaceLe _))

/-! ## Joining -/

theorem continues_iff :
    b.continues next = true ↔ b.kind = next.kind ∧ b.romStop = next.romOffset := by
  simp [continues]

theorem romStop_append : (b.append next).romStop = b.romStop + next.data.size := by
  rw [romStop, romStop, append, ByteArray.size_append, Nat.add_assoc]

/-- A block and the one that continues it cover together what they cover apart. -/
theorem covers_append (h : b.continues next = true) :
    (b.append next).Covers k a ↔ b.Covers k a ∨ next.Covers k a := by
  obtain ⟨hkind, hstop⟩ := continues_iff.mp h
  have hnext : next.romStop = b.romStop + next.data.size := by rw [hstop, romStop]
  unfold Covers
  rw [romStop_append, ← hnext, show (b.append next).kind = b.kind from rfl,
    show (b.append next).romOffset = b.romOffset from rfl, ← hkind, ← hstop]
  have hle : b.romOffset ≤ b.romStop := Nat.le_add_right _ _
  constructor
  · rintro ⟨hk, hlow, hhigh⟩
    by_cases hfirst : a < b.romStop
    · exact .inl ⟨hk, hlow, hfirst⟩
    · exact .inr ⟨hk, by omega, hhigh⟩
  · rintro (⟨hk, hlow, hhigh⟩ | ⟨hk, hlow, hhigh⟩)
    · exact ⟨hk, hlow, by omega⟩
    · exact ⟨hk, by omega, hhigh⟩

theorem mergeOnto_of_continues (h : last.continues next = true) (rest : List SampleBlock) :
    mergeOnto last (next :: rest) = mergeOnto (last.append next) rest := by
  rw [mergeOnto, if_pos h]

theorem mergeOnto_of_apart (h : ¬ last.continues next = true) (rest : List SampleBlock) :
    mergeOnto last (next :: rest) = last :: mergeOnto next rest := by
  rw [mergeOnto, if_neg h]

/-- What holds of blocks and is kept when one continues another holds of the joined blocks. -/
theorem forall_mergeOnto {P : SampleBlock → Prop}
    (happend : ∀ b c, b.continues c = true → P b → P c → P (b.append c)) (hlast : P last)
    (hrest : ∀ b ∈ rest, P b) : ∀ b ∈ mergeOnto last rest, P b := by
  induction rest generalizing last with
  | nil =>
    intro b hb
    rwa [List.mem_singleton.mp hb]
  | cons next rest ih =>
    have hnext := hrest next List.mem_cons_self
    have hrest' : ∀ b ∈ rest, P b := fun b hb => hrest b (List.mem_cons_of_mem _ hb)
    by_cases hjoin : last.continues next = true
    · rw [mergeOnto_of_continues hjoin]
      exact ih (happend last next hjoin hlast hnext) hrest'
    · rw [mergeOnto_of_apart hjoin]
      intro b hb
      rcases List.mem_cons.mp hb with rfl | hb
      · exact hlast
      · exact ih hnext hrest' b hb

theorem covered_mergeOnto :
    Covered (mergeOnto last rest) k a ↔ last.Covers k a ∨ Covered rest k a := by
  induction rest generalizing last with
  | nil => exact covered_cons
  | cons next rest ih =>
    rw [covered_cons]
    by_cases hjoin : last.continues next = true
    · rw [mergeOnto_of_continues hjoin, ih, covers_append hjoin, or_assoc]
    · rw [mergeOnto_of_apart hjoin, covered_cons, ih]

/-- Joined blocks begin where blocks did before. -/
theorem place_mergeOnto :
    ((mergeOnto last rest).map place).Sublist ((last :: rest).map place) := by
  induction rest generalizing last with
  | nil => exact List.Sublist.refl _
  | cons next rest ih =>
    by_cases hjoin : last.continues next = true
    · rw [mergeOnto_of_continues hjoin]
      have hsub : ((mergeOnto (last.append next) rest).map place).Sublist
          (last.place :: rest.map place) := ih
      exact hsub.trans ((List.sublist_cons_self _ _).cons_cons _)
    · rw [mergeOnto_of_apart hjoin]
      exact ih.cons_cons _

end SampleBlock

namespace Preparation

open SampleBlock

theorem forall_mergedBlocks {P : SampleBlock → Prop} {found : List SampleBlock}
    (happend : ∀ b c, b.continues c = true → P b → P c → P (b.append c))
    (h : ∀ b ∈ found, P b) : ∀ b ∈ mergedBlocks found, P b := by
  have hsorted : ∀ b ∈ found.mergeSort precedes, P b := fun b hb => h b (List.mem_mergeSort.mp hb)
  unfold mergedBlocks
  cases hblocks : found.mergeSort precedes with
  | nil =>
    intro b hb
    exact absurd hb List.not_mem_nil
  | cons first rest =>
    rw [hblocks] at hsorted
    exact forall_mergeOnto happend (hsorted first List.mem_cons_self)
      fun b hb => hsorted b (List.mem_cons_of_mem _ hb)

/-- Sorting and joining keep what is covered. -/
theorem covered_mergedBlocks {found : List SampleBlock} {k : SampleKind} {a : Nat} :
    Covered (mergedBlocks found) k a ↔ Covered found k a := by
  have hsorted : Covered (found.mergeSort precedes) k a ↔ Covered found k a := by
    unfold Covered
    simp only [List.mem_mergeSort]
  rw [← hsorted, mergedBlocks]
  cases found.mergeSort precedes with
  | nil => exact Iff.rfl
  | cons first rest => exact covered_mergeOnto.trans covered_cons.symm

/-- Blocks that come in order are only joined. -/
theorem mergedBlocks_of_sorted {found : List SampleBlock} (h : Sorted found) :
    mergedBlocks found = merge found := by
  rw [Sorted, List.pairwise_map] at h
  rw [mergedBlocks, List.mergeSort_of_pairwise (h.imp precedes_iff.mpr)]

theorem sorted_mergedBlocks (found : List SampleBlock) : Sorted (mergedBlocks found) := by
  have hsorted := sorted_mergeSort found
  unfold mergedBlocks
  cases hblocks : found.mergeSort precedes with
  | nil => exact List.Pairwise.nil
  | cons first rest =>
    rw [hblocks] at hsorted
    exact List.Pairwise.sublist place_mergeOnto hsorted

end Preparation
end ChipReplay
