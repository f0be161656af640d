import ChipReplay.Proofs.Preparation.Writing
/-!
# Segments

The address counters of the ADPCM units stay in a segment of 1 MiB, so samples that lie one behind
the other in a ROM must not be torn apart between two segments of sample memory. A group that fits
into one segment lies in one (`BankGroup.Sound.targetFrom_segment`), and blocks that follow each
other without a gap are of one group, since they were joined (`joined_mergedBlocks`). From this
`segments_kept` follows. A group that no segment can hold goes to the next free bank as it is, and
two blocks that meet at the end of a bank are two groups if a third one kept them from being
joined; then samples can be torn apart (`segments_crossed`).
-/

namespace ChipReplay

open SampleBlock

/-! ## Joining -/

/-- What stands between two places of one kind is of that kind. -/
theorem SampleBlock.PlaceLe.between {x y z : SampleKind × Nat} (hxy : PlaceLe x y)
    (hyz : PlaceLe y z) (hkind : x.1 = z.1) : y.1 = x.1 ∧ x.2 ≤ y.2 ∧ y.2 ≤ z.2 := by
  rcases hxy with hlt | ⟨heq, hle⟩
  · rw [hkind] at hlt
    rcases hyz with hlt' | ⟨heq', -⟩
    · exact absurd (Nat.lt_trans hlt hlt') (Nat.lt_irrefl _)
    · rw [heq'] at hlt
      exact absurd hlt (Nat.lt_irrefl _)
  · rcases hyz with hlt' | ⟨-, hle'⟩
    · rw [← heq, hkind] at hlt'
      exact absurd hlt' (Nat.lt_irrefl _)
    · exact ⟨heq.symm, hle, hle'⟩

/-- No ROM address of kind `k` lies in both blocks. -/
def SampleBlock.ApartIn (k : SampleKind) (b c : SampleBlock) : Prop :=
  ∀ a, b.Covers k a → ¬ c.Covers k a

/-- No ROM address of kind `k` lies in both blocks. -/
def DataBlock.ApartIn (k : SampleKind) (b c : DataBlock) : Prop :=
  ∀ a, b.Covers k a → ¬ c.Covers k a

namespace SampleBlock

variable {b c last next : SampleBlock} {bs rest : List SampleBlock} {k : SampleKind} {a : Nat}

/-- Blocks that are in order, have bytes, and do not overlap where they are of kind `k`. -/
structure Laid (k : SampleKind) (bs : List SampleBlock) : Prop where
  sorted : Sorted bs
  filled : ∀ b ∈ bs, b.Filled
  apart : bs.Pairwise (ApartIn k)

theorem Laid.tail (h : Laid k (b :: bs)) : Laid k bs where
  sorted := List.Pairwise.of_cons h.sorted
  filled := (List.forall_mem_cons.mp h.filled).2
  apart := List.Pairwise.of_cons h.apart

theorem Laid.join (h : Laid k (last :: next :: rest)) (hjoin : last.continues next = true) :
    Laid k (last.append next :: rest) where
  sorted := List.Pairwise.sublist ((List.sublist_cons_self _ _).cons_cons _) h.sorted
  filled := List.forall_mem_cons.mpr
    ⟨(h.filled last List.mem_cons_self).append, h.tail.tail.filled⟩
  apart := by
    refine List.pairwise_cons.mpr ⟨fun c hc a hcov => ?_, h.tail.tail.apart⟩
    rcases (covers_append hjoin).mp hcov with hcov | hcov
    · exact List.rel_of_pairwise_cons h.apart (List.mem_cons_of_mem _ hc) a hcov
    · exact List.rel_of_pairwise_cons h.tail.apart hc a hcov

/-- The first block begins before every later one of its kind. -/
theorem Laid.le (h : Laid k (b :: bs)) (hc : c ∈ bs) (hkind : b.kind = c.kind) :
    b.romOffset ≤ c.romOffset := by
  have hplace : PlaceLe b.place c.place :=
    List.rel_of_pairwise_cons h.sorted (List.mem_map_of_mem hc)
  exact (hplace.between (.inr ⟨rfl, Nat.le_refl _⟩) hkind).2.1

/-- A block that ends where a later one begins is continued by the one right behind it. -/
theorem Laid.continues (h : Laid k (last :: next :: rest)) (hlast : last.Covers k a)
    (hnot : ¬ last.Covers k (a + 1)) (hcovered : Covered (next :: rest) k (a + 1)) :
    last.continues next = true := by
  obtain ⟨c, hc, hcov⟩ := hcovered
  have hlow := hlast.2.1
  have hhigh := hlast.2.2
  have hlow' := hcov.2.1
  have hhigh' := hcov.2.2
  have hstop : last.romStop = a + 1 := by
    have hend : ¬ a + 1 < last.romStop := fun hlt => hnot ⟨hlast.1, by omega, hlt⟩
    omega
  -- `c` begins at the end of `last`, or it would overlap it
  have hbegin : c.romOffset = a + 1 := by
    have hnone : ¬ c.romOffset ≤ a := fun hle =>
      List.rel_of_pairwise_cons h.apart hc a hlast ⟨hcov.1, hle, by omega⟩
    omega
  have hnextc : PlaceLe next.place c.place := by
    rcases List.mem_cons.mp hc with rfl | hc
    · exact .inr ⟨rfl, Nat.le_refl _⟩
    · exact List.rel_of_pairwise_cons h.tail.sorted (List.mem_map_of_mem hc)
  have hnext : PlaceLe last.place next.place :=
    List.rel_of_pairwise_cons h.sorted List.mem_cons_self
  obtain ⟨hkind, hafter, hbefore⟩ := hnext.between hnextc (hlast.1.trans hcov.1.symm)
  have hkind : next.kind = last.kind := hkind
  have hafter : last.romOffset ≤ next.romOffset := hafter
  have hbefore : next.romOffset ≤ c.romOffset := hbefore
  -- so does the block right behind `last`
  have hbehind : ¬ next.romOffset < last.romStop := by
    intro hlt
    have hfilled : next.romOffset < next.romStop := h.tail.filled next List.mem_cons_self
    exact List.rel_of_pairwise_cons h.apart List.mem_cons_self next.romOffset
      ⟨hlast.1, hafter, hlt⟩ ⟨hkind.trans hlast.1, Nat.le_refl _, hfilled⟩
  exact continues_iff.mpr ⟨hkind.symm, by omega⟩

/-- Two neighbouring addresses come to lie in one block. -/
theorem joined_mergeOnto (h : Laid k (last :: rest)) (hcov : Covered (last :: rest) k a)
    (hcov' : Covered (last :: rest) k (a + 1)) :
    ∃ b ∈ mergeOnto last rest, b.Covers k a ∧ b.Covers k (a + 1) := by
  induction rest generalizing last with
  | nil =>
    rw [covered_cons] at hcov hcov'
    have hnone (a : Nat) : ¬ Covered [] k a := fun ⟨b, hb, _⟩ => absurd hb List.not_mem_nil
    exact ⟨last, List.mem_singleton.mpr rfl, hcov.resolve_right (hnone a),
      hcov'.resolve_right (hnone (a + 1))⟩
  | cons next rest ih =>
    by_cases hjoin : last.continues next = true
    · have hcovers (a : Nat) :
          Covered (last.append next :: rest) k a ↔ Covered (last :: next :: rest) k a := by
        rw [covered_cons, covers_append hjoin, or_assoc, ← covered_cons, ← covered_cons]
      rw [mergeOnto_of_continues hjoin]
      exact ih (h.join hjoin) ((hcovers a).mpr hcov) ((hcovers (a + 1)).mpr hcov')
    · rw [mergeOnto_of_apart hjoin]
      rcases covered_cons.mp hcov with hfirst | hlater
      · by_cases hfirst' : last.Covers k (a + 1)
        · exact ⟨last, List.mem_cons_self, hfirst, hfirst'⟩
        · have hlater := (covered_cons.mp hcov').resolve_left hfirst'
          exact absurd (h.continues hfirst hfirst' hlater) hjoin
      · rcases covered_cons.mp hcov' with hfirst' | hlater'
        · -- a later block would begin before the first one, or overlap it
          obtain ⟨c, hc, hccov⟩ := hlater
          have hle := h.le hc (hfirst'.1.trans hccov.1.symm)
          have hlow := hccov.2.1
          have hhigh := hfirst'.2.2
          exact absurd hccov (List.rel_of_pairwise_cons h.apart hc a
            ⟨hfirst'.1, by omega, by omega⟩)
        · obtain ⟨b, hb, hboth⟩ := ih h.tail hlater hlater'
          exact ⟨b, List.mem_cons_of_mem _ hb, hboth⟩

end SampleBlock

/-! ## Groups -/

namespace BankGroup

variable {g : BankGroup} {b : SampleBlock} {free : Nat}

/-- Any two neighbouring banks of the group have a block in common. -/
def Linked (g : BankGroup) : Prop :=
  ∀ n, g.firstBank ≤ n → n < g.lastBank →
    ∃ b ∈ g.members, b.Touches g.kind n ∧ b.Touches g.kind (n + 1)

theorem linked_single (b : SampleBlock) : (single b).Linked := by
  intro n hlow hhigh
  have hlow : b.firstBank ≤ n := hlow
  have hhigh : n < b.lastBank := hhigh
  exact ⟨b, List.mem_singleton.mpr rfl, ⟨rfl, hlow, by omega⟩, rfl, by omega, by omega⟩

theorem Linked.add (hg : g.Linked) (hshare : g.shares b = true) : (g.add b).Linked := by
  obtain ⟨hkind, hfirst⟩ := shares_iff.mp hshare
  intro n hlow hhigh
  have hhigh : n < max g.lastBank b.lastBank := hhigh
  by_cases hn : n < g.lastBank
  · obtain ⟨c, hc, hboth⟩ := hg n hlow hn
    exact ⟨c, List.mem_cons_of_mem _ hc, hboth⟩
  · exact ⟨b, List.mem_cons_self, ⟨hkind, by omega, by omega⟩, hkind, by omega, by omega⟩

theorem linked_collect (bs : List SampleBlock) : ∀ g ∈ collect bs, g.Linked :=
  forall_collect (fun b _ => linked_single b) fun _ _ _ hg hshare => hg.add hshare

/-- A group of no more banks than a segment has lies in one segment of memory. If it would not do
so from the next free bank on, it begins with a segment. -/
theorem Sound.targetFrom_segment (hg : g.Sound)
    (hshort : g.lastBank < g.firstBank + banksPerSegment) :
    g.targetFrom free / banksPerSegment =
      (g.targetFrom free + (g.lastBank - g.firstBank)) / banksPerSegment := by
  have hlast := hg.lastBank
  have hfilled := hg.filled
  have hle := hg.firstBank_le
  have hfits : g.low + g.length ≤ segmentSize := by
    unfold low length segmentSize
    unfold firstBank at hle hshort
    unfold bankSize at hlast hle hshort ⊢
    unfold banksPerSegment at hshort ⊢
    omega
  unfold targetFrom
  by_cases hmoved : g.startAt free / segmentSize ≠ g.lastAt free / segmentSize ∧
      g.low + g.length ≤ segmentSize
  · rw [if_pos hmoved]
    unfold banksPerSegment at hshort ⊢
    omega
  · rw [if_neg hmoved]
    have hsame : g.startAt free / segmentSize = g.lastAt free / segmentSize := by
      by_contra hne
      exact hmoved ⟨hne, hfits⟩
    unfold startAt lastAt startAt low length segmentSize at hsame
    unfold firstBank at hle hshort ⊢
    unfold bankSize at hlast hle hshort hsame ⊢
    unfold banksPerSegment at hshort hsame ⊢
    omega

end BankGroup

/-! ## Runs of banks -/

namespace BankRun

variable {r : BankRun} {blocks : List SampleBlock} {b : SampleBlock} {k : SampleKind} {a n : Nat}

/-- What placing makes of a group: the banks of the run hang together, and if they are no more than
a segment has, their places in memory are in one segment. -/
structure Settled (r : BankRun) (blocks : List SampleBlock) : Prop where
  linked : ∀ n, r.first ≤ n → n < r.last →
    ∃ b ∈ blocks, b.Touches r.kind n ∧ b.Touches r.kind (n + 1)
  segment : r.last < r.first + banksPerSegment →
    r.target / banksPerSegment = r.top / banksPerSegment

theorem Settled.mono {blocks' : List SampleBlock} (h : r.Settled blocks) (hsub : blocks ⊆ blocks') :
    r.Settled blocks' where
  linked := by
    intro n hlow hhigh
    obtain ⟨b, hb, hboth⟩ := h.linked n hlow hhigh
    exact ⟨b, hsub hb, hboth⟩
  segment := h.segment

/-- ROM address `a` of kind `k` lies in the banks of the run. -/
def Spans (r : BankRun) (k : SampleKind) (a : Nat) : Prop :=
  r.kind = k ∧ r.first ≤ a / bankSize ∧ a / bankSize ≤ r.last

theorem Holds.spans (hold : r.Holds b) (hcov : b.Covers k a) : r.Spans k a :=
  ⟨hold.kind.symm.trans hcov.1, Nat.le_trans hold.first hcov.touches.2.1,
    Nat.le_trans hcov.touches.2.2 hold.last⟩

/-- What a block gives as the place of an address is where the run puts it. -/
theorem Holds.address_eq (hold : r.Holds b) (hcov : b.Covers k a) :
    b.offset + (a - b.romOffset) = r.address a := by
  have hlow := hcov.2.1
  have hfirst : r.first ≤ b.romOffset / bankSize := hold.first
  have hstart : r.first * bankSize ≤ b.romOffset :=
    Nat.le_trans (Nat.mul_le_mul_right _ hfirst) (Nat.div_mul_le_self _ _)
  rw [hold.offset, address, address]
  omega

/-- The addresses of a run that lies in one segment of memory are in that segment. -/
theorem Spans.segment_eq (h : r.Spans k a)
    (hsegment : r.target / banksPerSegment = r.top / banksPerSegment) :
    r.address a / segmentSize = r.target / banksPerSegment := by
  obtain ⟨-, hfirst, hlast⟩ := h
  rw [BankRun.address_eq hfirst]
  unfold top at hsegment
  unfold segmentSize
  unfold bankSize at hfirst hlast ⊢
  unfold banksPerSegment at hsegment ⊢
  omega

/-- If all blocks that have a part in the banks `first` to `last` lie in them, so does a run that
has a part in them. -/
theorem Settled.within (h : r.Settled blocks) {first last : Nat} (hn : r.first ≤ n)
    (hn' : n ≤ r.last) (hfirst : first ≤ n) (hlast : n ≤ last)
    (henclosed : ∀ b ∈ blocks, b.kind = r.kind → b.firstBank ≤ last → first ≤ b.lastBank →
      first ≤ b.firstBank ∧ b.lastBank ≤ last) : first ≤ r.first ∧ r.last ≤ last := by
  -- from bank to bank, upwards and downwards, over the blocks that link them
  have hup : ∀ m, n ≤ m → m ≤ r.last → m ≤ last := by
    intro m hm
    induction m, hm using Nat.le_induction with
    | base => exact fun _ => hlast
    | succ m hm ih =>
      intro hmlast
      have hle := ih (by omega)
      obtain ⟨b, hb, hin, hin'⟩ := h.linked m (by omega) hmlast
      have hb' := henclosed b hb hin.1 (Nat.le_trans hin.2.1 hle) (by have := hin.2.2; omega)
      exact Nat.le_trans hin'.2.2 hb'.2
  have hdown : ∀ d, r.first ≤ n - d → d ≤ n → first ≤ n - d := by
    intro d
    induction d with
    | zero => exact fun _ _ => hfirst
    | succ d ih =>
      intro hd hdn
      have hle := ih (by omega) (by omega)
      obtain ⟨b, hb, hin, hin'⟩ := h.linked (n - (d + 1)) hd (by omega)
      have hstep : n - (d + 1) + 1 = n - d := by omega
      rw [hstep] at hin'
      have hb' := henclosed b hb hin.1 (by have := hin.2.1; omega) (Nat.le_trans hle hin'.2.2)
      exact Nat.le_trans hb'.1 hin.2.1
  refine ⟨?_, hup r.last hn' (Nat.le_refl _)⟩
  have hlow := hdown (n - r.first) (by omega) (by omega)
  omega

end BankRun

theorem settled_placeGroups {free : Nat} {groups : List BankGroup} {blocks : List SampleBlock}
    {banks : BankMap} (hsound : ∀ g ∈ groups, g.Sound) (hlinked : ∀ g ∈ groups, g.Linked)
    (h : placeGroups free groups = .ok (blocks, banks)) : ∀ r ∈ banks, r.Settled blocks := by
  induction groups generalizing free blocks banks with
  | nil =>
    cases h
    exact fun r hr => absurd hr List.not_mem_nil
  | cons g groups ih =>
    obtain ⟨hg, hgroups⟩ := List.forall_mem_cons.mp hsound
    obtain ⟨hglinked, hlinked'⟩ := List.forall_mem_cons.mp hlinked
    obtain ⟨-, blocks', banks', hrest, rfl, rfl⟩ := placeGroups_target h
    refine List.forall_mem_cons.mpr ⟨⟨?_, fun hshort => hg.targetFrom_segment hshort⟩, ?_⟩
    · -- placing changes the offset of a block in memory, not its banks in the ROM
      intro n hlow hhigh
      obtain ⟨b, hb, hin, hin'⟩ := hglinked n hlow hhigh
      refine ⟨_, List.mem_append_left _ (List.mem_map_of_mem (List.mem_reverse.mpr hb)), ?_⟩
      exact ⟨(b.touches_moved _).mpr hin, (b.touches_moved _).mpr hin'⟩
    · intro r hr
      exact (ih hgroups hlinked' hrest r hr).mono (List.subset_append_right _ _)

namespace Preparation

variable {file : ByteArray} {p : Prepared} {start loop : Nat} {commands : List Located}
variable {banks : BankMap} {blocks : List SampleBlock} {k : SampleKind} {a lo hi : Nat}

theorem Made.settled (h : Made file p start loop commands banks) :
    ∀ r ∈ banks, r.Settled p.blocks :=
  settled_placeGroups (BankGroup.sound_collect (sorted_mergedBlocks _) filled_mergedBlocks)
    (BankGroup.linked_collect _) h.placed

/-! ## Intervals -/

/-- The ROM addresses from `lo` to `hi` of kind `k` are in the blocks, and all of them in one
segment of memory. -/
def InOneSegment (blocks : List SampleBlock) (k : SampleKind) (lo hi : Nat) : Prop :=
  ∃ segment, ∀ a, lo ≤ a → a ≤ hi → Covered blocks k a ∧
    ∀ b ∈ blocks, b.Covers k a → (b.offset + (a - b.romOffset)) / segmentSize = segment

/-- The blocks of kind `k` that have a part in the ROM banks `first` to `last` lie in them. -/
def Enclosed (blocks : List SampleBlock) (k : SampleKind) (first last : Nat) : Prop :=
  ∀ b ∈ blocks, b.kind = k → b.firstBank ≤ last → first ≤ b.lastBank →
    first ≤ b.firstBank ∧ b.lastBank ≤ last

/-- Where an interval of addresses crosses from one bank into the next, one block has both sides. -/
def Bridged (blocks : List SampleBlock) (k : SampleKind) (lo hi : Nat) : Prop :=
  ∀ a, lo ≤ a → a < hi → (a + 1) % bankSize = 0 → ∃ b ∈ blocks, b.Covers k a ∧ b.Covers k (a + 1)

/-- A block that covers an address of a run is a block of the run. -/
theorem holds_of_spans (hplaced : Placed blocks banks) {r : BankRun} (hr : r ∈ banks)
    {b : SampleBlock} (hb : b ∈ blocks) (hspans : r.Spans k a) (hcov : b.Covers k a) :
    r.Holds b := by
  obtain ⟨s, hs, hold⟩ := hplaced.held b hb
  obtain ⟨hkind, hfirst, hlast⟩ := hspans
  obtain ⟨hkind', hfirst', hlast'⟩ := hold.spans hcov
  rcases hplaced.eq_or_apart hr hs with rfl | hapart | hapart
  · exact hold
  · have hlt := hapart.rom (hkind.trans hkind'.symm)
    omega
  · have hlt := hapart.rom (hkind'.trans hkind.symm)
    omega

theorem spans_of_bridged (hplaced : Placed blocks banks) (hbridged : Bridged blocks k lo hi)
    {r : BankRun} (hr : r ∈ banks) (hlo : r.Spans k lo) :
    ∀ a, lo ≤ a → a ≤ hi → r.Spans k a := by
  intro a hlow
  induction a, hlow using Nat.le_induction with
  | base => exact fun _ => hlo
  | succ a hlow ih =>
    intro hhigh
    have hspans := ih (by omega)
    -- inside a bank there is nothing to show, and the block over its end is of the same run
    by_cases hcross : (a + 1) % bankSize = 0
    · obtain ⟨b, hb, hcov, hcov'⟩ := hbridged a hlow hhigh hcross
      exact (holds_of_spans hplaced hr hb hspans hcov).spans hcov'
    · have hbank : (a + 1) / bankSize = a / bankSize := by
        unfold bankSize at hcross ⊢
        omega
      unfold BankRun.Spans at hspans ⊢
      rwa [hbank]

theorem joined_mergedBlocks {found : List SampleBlock} (hfilled : ∀ b ∈ found, b.Filled)
    (hapart : found.Pairwise (SampleBlock.ApartIn k)) (hcov : Covered found k a)
    (hcov' : Covered found k (a + 1)) :
    ∃ b ∈ mergedBlocks found, b.Covers k a ∧ b.Covers k (a + 1) := by
  have hmem : ∀ b, b ∈ found.mergeSort precedes ↔ b ∈ found := fun b => List.mem_mergeSort
  have hlaid : Laid k (found.mergeSort precedes) := by
    refine ⟨sorted_mergeSort found, fun b hb => hfilled b ((hmem b).mp hb), ?_⟩
    exact ((List.mergeSort_perm found precedes).pairwise_iff
      fun hbc a hcov hcov' => hbc a hcov' hcov).mpr hapart
  simp only [Covered, ← hmem] at hcov hcov'
  unfold mergedBlocks
  cases hblocks : found.mergeSort precedes with
  | nil =>
    rw [hblocks] at hcov
    obtain ⟨b, hb, -⟩ := hcov
    exact absurd hb List.not_mem_nil
  | cons first rest =>
    rw [hblocks] at hlaid hcov hcov'
    exact joined_mergeOnto hlaid hcov hcov'

theorem apartIn_sampleBlocks
    (hapart : (commands.filterMap fun c => c.command.block?).Pairwise (DataBlock.ApartIn k)) :
    (sampleBlocks commands).Pairwise (SampleBlock.ApartIn k) :=
  pairwise_sampleBlocks (fun b c hbc a hcov hcov' =>
    hbc a ((covers_ofDataBlock b).mp hcov) ((covers_ofDataBlock c).mp hcov')) hapart

/-- Where no two blocks of the file overlap, a covered interval crosses no bank without a block. -/
theorem Made.bridged_of_apart (h : Made file p start loop commands banks)
    (hapart : (dataBlocks file).Pairwise (DataBlock.ApartIn k))
    (hcovered : ∀ a, lo ≤ a → a ≤ hi → Covered p.blocks k a) : Bridged p.blocks k lo hi := by
  intro a hlow hhigh _
  have hfound : ∀ a, Covered p.blocks k a ↔ Covered (sampleBlocks commands) k a :=
    fun a => (covered_placed h.placed).trans covered_mergedBlocks
  have hjoined := joined_mergedBlocks filled_sampleBlocks
    (apartIn_sampleBlocks (h.dataBlocks_eq ▸ hapart))
    ((hfound a).mp (hcovered a hlow (by omega)))
    ((hfound (a + 1)).mp (hcovered (a + 1) (by omega) hhigh))
  exact (exists_placed (fun _ => Iff.rfl) h.placed).mpr hjoined

/-- Samples that belong together stay in one segment. Let an interval of ROM addresses be covered,
and let the blocks of its kind not overlap, or let each bank's end inside the interval lie in the
middle of an output block. Then the interval's place in memory is in one segment if its group lies
in as many banks of the ROM as a segment has. It also is if the group was moved by whole segments
and the interval was in one segment of the ROM. -/
theorem segments_kept (hprepare : prepare file = .ok p) (hle : lo ≤ hi)
    (hcovered : ∀ a, lo ≤ a → a ≤ hi → ∃ b ∈ dataBlocks file, b.Covers k a)
    (hjoined : (dataBlocks file).Pairwise (DataBlock.ApartIn k) ∨ Bridged p.blocks k lo hi)
    (hfits : (∃ first last, last < first + banksPerSegment ∧ first ≤ lo / bankSize ∧
        hi / bankSize ≤ last ∧ Enclosed p.blocks k first last) ∨
      lo / segmentSize = hi / segmentSize ∧ ∃ b ∈ p.blocks, b.Covers k lo ∧
        b.offset % segmentSize = b.romOffset % segmentSize) :
    InOneSegment p.blocks k lo hi := by
  obtain ⟨start, loop, commands, banks, hmade⟩ := made_of_prepare hprepare
  have hplaced := hmade.placedBlocks
  have hcovered' : ∀ a, lo ≤ a → a ≤ hi → Covered p.blocks k a :=
    fun a hlow hhigh => hmade.covered_dataBlocks.mpr (hcovered a hlow hhigh)
  have hbridged : Bridged p.blocks k lo hi := by
    rcases hjoined with hapart | hbridged
    · exact hmade.bridged_of_apart hapart hcovered'
    · exact hbridged
  obtain ⟨c, hc, hccov⟩ := hcovered' lo (Nat.le_refl _) hle
  obtain ⟨r, hr, hold⟩ := hplaced.held c hc
  have hspans := spans_of_bridged hplaced hbridged hr (hold.spans hccov)
  have haddress : ∀ a, lo ≤ a → a ≤ hi → ∀ b ∈ p.blocks, b.Covers k a →
      b.offset + (a - b.romOffset) = r.address a := fun a hlow hhigh b hb hcov =>
    (holds_of_spans hplaced hr hb (hspans a hlow hhigh) hcov).address_eq hcov
  -- it remains to see that the run has the whole interval in one segment
  suffices hone : ∃ segment, ∀ a, lo ≤ a → a ≤ hi → r.address a / segmentSize = segment by
    obtain ⟨segment, hone⟩ := hone
    refine ⟨segment, fun a hlow hhigh => ⟨hcovered' a hlow hhigh, fun b hb hcov => ?_⟩⟩
    rw [haddress a hlow hhigh b hb hcov]
    exact hone a hlow hhigh
  rcases hfits with
    ⟨first, last, hshort, hfirst, hlast, henclosed⟩ | ⟨hsegment, b, hb, hcov, hmoved⟩
  · obtain ⟨hkind, hlow, hhigh⟩ := hspans lo (Nat.le_refl _) hle
    have hbanks : lo / bankSize ≤ hi / bankSize := Nat.div_le_div_right hle
    have hwithin := (hmade.settled r hr).within hlow hhigh hfirst (Nat.le_trans hbanks hlast)
      (hkind ▸ henclosed)
    have hsettled := (hmade.settled r hr).segment (by omega)
    exact ⟨_, fun a ha ha' => (hspans a ha ha').segment_eq hsettled⟩
  · refine ⟨r.address lo / segmentSize, fun a hlow hhigh => ?_⟩
    have hstart := haddress lo (Nat.le_refl _) hle b hb hcov
    have hbefore := hcov.2.1
    have hinside : r.first * bankSize ≤ lo :=
      Nat.le_trans (Nat.mul_le_mul_right _ (hspans lo (Nat.le_refl _) hle).2.1)
        (Nat.div_mul_le_self _ _)
    have hnext : r.address a = r.address lo + (a - lo) := by
      unfold BankRun.address
      omega
    rw [hnext, ← hstart]
    unfold segmentSize bankSize banksPerSegment at hsegment hmoved ⊢
    omega

/-- One byte in each of the first 15 banks of a ROM. -/
def fifteenBanks : List DataBlock :=
  (List.range 15).map fun n => ⟨.a, 0x200000, UInt32.ofNat (n * bankSize), ⟨#[1]⟩⟩

/-- Banks that are in use, and then two blocks that meet at the end of a bank. -/
def meetingBlocks : List DataBlock :=
  fifteenBanks ++
    [⟨.a, 0x200000, 0x10FFFE, ⟨#[2, 3]⟩⟩, ⟨.a, 0x200000, 0x110000, ⟨#[4]⟩⟩]

/-- The two blocks are joined, and what they make would cross the end of a segment behind the banks
that are in use. It goes to the next one. -/
theorem segments_kept_meetingBlocks : ∃ p, prepare (fileOf meetingBlocks) = .ok p ∧
    p.blocks = fifteenBanks.map SampleBlock.ofDataBlock ++
      [⟨.a, 0x10FFFE, 0x10FFFE, 0x200000, ⟨#[2, 3, 4]⟩⟩] ∧
    InOneSegment p.blocks .a 0x10FFFE 0x110000 := by
  obtain ⟨p, hprepare, hblocks, hfound⟩ := prepare_fileOf meetingBlocks
    (fifteenBanks.map SampleBlock.ofDataBlock ++
      [⟨.a, 0x10FFFE, 0x10FFFE, 0x200000, ⟨#[2, 3, 4]⟩⟩])
    ((List.range 15).map (fun n => ⟨.a, n, n, n⟩) ++ [⟨.a, 0x10, 0x11, 0x10⟩])
    (by decide +kernel) (by
      rw [mergedBlocks_of_sorted (by decide +kernel)]
      decide +kernel)
  refine ⟨p, hprepare, hblocks, ?_⟩
  have hjoined : (⟨.a, 0x10FFFE, 0x10FFFE, 0x200000, ⟨#[2, 3, 4]⟩⟩ : SampleBlock) ∈ p.blocks :=
    hblocks ▸ List.mem_append_right _ List.mem_cons_self
  refine segments_kept hprepare (by decide) ?_ (.inr ?_)
    (.inl ⟨0x10, 0x11, by decide, by decide, by decide, ?_⟩)
  · intro a hlow hhigh
    rw [hfound]
    by_cases hfirst : a < 0x110000
    · exact ⟨⟨.a, 0x200000, 0x10FFFE, ⟨#[2, 3]⟩⟩, by decide +kernel, rfl, hlow, hfirst⟩
    · exact ⟨⟨.a, 0x200000, 0x110000, ⟨#[4]⟩⟩, by decide +kernel, rfl, Nat.not_lt.mp hfirst,
        Nat.lt_succ_of_le hhigh⟩
  · intro a hlow hhigh _
    refine ⟨_, hjoined, ⟨rfl, hlow, ?_⟩, rfl, Nat.le_succ_of_le hlow, ?_⟩
    · exact Nat.lt_succ_of_lt hhigh
    · exact Nat.succ_lt_succ hhigh
  · rw [hblocks]
    unfold Enclosed
    decide +kernel

/-! ## Samples that are torn apart -/

/-- Every interval of ROM addresses that lies in one segment of the ROM and is covered comes to lie
in one segment of memory. -/
def KeepsSegments (file : ByteArray) : Prop :=
  ∀ p, prepare file = .ok p → ∀ k lo hi, lo / segmentSize = hi / segmentSize →
    (∀ a, lo ≤ a → a ≤ hi → ∃ b ∈ dataBlocks file, b.Covers k a) → InOneSegment p.blocks k lo hi

/-- Sixteen blocks over the ends of the first 16 banks of a ROM, and a bank of the other ROM that
comes before them. They are one group of 17 banks. -/
def longGroup : List DataBlock :=
  ⟨.a, 0x200000, 0, ⟨#[1]⟩⟩ :: (List.range 16).map fun n =>
    ⟨.b, 0x200000, UInt32.ofNat ((n + 1) * bankSize - 1), ⟨#[2, 3]⟩⟩

/-- The two blocks of `meetingBlocks` with a third one between them, which overlaps the first. -/
def overlappedBlocks : List DataBlock :=
  fifteenBanks ++
    [⟨.a, 0x200000, 0x10FFFE, ⟨#[2, 3]⟩⟩, ⟨.a, 0x200000, 0x10FFFE, ⟨#[5]⟩⟩,
      ⟨.a, 0x200000, 0x110000, ⟨#[4]⟩⟩]

theorem InOneSegment.same {b c : SampleBlock} {x y : Nat} (h : InOneSegment blocks k lo hi)
    (hb : b ∈ blocks) (hcov : b.Covers k x) (hlow : lo ≤ x) (hhigh : x ≤ hi) (hc : c ∈ blocks)
    (hcov' : c.Covers k y) (hlow' : lo ≤ y) (hhigh' : y ≤ hi) :
    (b.offset + (x - b.romOffset)) / segmentSize =
      (c.offset + (y - c.romOffset)) / segmentSize := by
  obtain ⟨segment, hone⟩ := h
  exact ((hone x hlow hhigh).2 b hb hcov).trans ((hone y hlow' hhigh').2 c hc hcov').symm

theorem segments_crossed :
    ¬ KeepsSegments (fileOf longGroup) ∧ ¬ KeepsSegments (fileOf overlappedBlocks) := by
  constructor
  · obtain ⟨p, hprepare, hblocks, hfound⟩ := prepare_fileOf longGroup
      (longGroup.map fun b => { SampleBlock.ofDataBlock b with
        offset := if b.kind = .a then 0 else b.romOffset.toNat + bankSize })
      [⟨.a, 0, 0, 0⟩, ⟨.b, 0, 0x10, 1⟩]
      (by decide +kernel) (by
      rw [mergedBlocks_of_sorted (by decide +kernel)]
      decide +kernel)
    intro hkeeps
    have hone := hkeeps p hprepare .b 0xEFFFF 0xF0000 (by decide) (fun a hlow hhigh => by
      rw [hfound]
      exact ⟨⟨.b, 0x200000, 0xEFFFF, ⟨#[2, 3]⟩⟩, by decide +kernel, rfl, hlow,
        Nat.lt_succ_of_le hhigh⟩)
    have hmem : (⟨.b, 0xFFFFF, 0xEFFFF, 0x200000, ⟨#[2, 3]⟩⟩ : SampleBlock) ∈ p.blocks := by
      rw [hblocks]
      decide +kernel
    have hsame := hone.same hmem ⟨rfl, Nat.le_refl _, by decide⟩ (Nat.le_refl _) (by decide) hmem
      ⟨rfl, Nat.le_succ _, by decide⟩ (Nat.le_succ _) (Nat.le_refl _)
    exact absurd hsame (by decide)
  · obtain ⟨p, hprepare, hblocks, hfound⟩ := prepare_fileOf overlappedBlocks
      (fifteenBanks.map SampleBlock.ofDataBlock ++
        [⟨.a, 0xFFFFE, 0x10FFFE, 0x200000, ⟨#[2, 3]⟩⟩,
          ⟨.a, 0xFFFFE, 0x10FFFE, 0x200000, ⟨#[5]⟩⟩, ⟨.a, 0x100000, 0x110000, 0x200000, ⟨#[4]⟩⟩])
      ((List.range 15).map (fun n => ⟨.a, n, n, n⟩) ++
        [⟨.a, 0x10, 0x10, 0xF⟩, ⟨.a, 0x11, 0x11, 0x10⟩])
      (by decide +kernel) (by
      rw [mergedBlocks_of_sorted (by decide +kernel)]
      decide +kernel)
    intro hkeeps
    have hone := hkeeps p hprepare .a 0x10FFFF 0x110000 (by decide) (fun a hlow hhigh => by
      rw [hfound]
      by_cases hfirst : a < 0x110000
      · exact ⟨⟨.a, 0x200000, 0x10FFFE, ⟨#[2, 3]⟩⟩, by decide +kernel, rfl,
          Nat.le_of_succ_le hlow, hfirst⟩
      · exact ⟨⟨.a, 0x200000, 0x110000, ⟨#[4]⟩⟩, by decide +kernel, rfl, Nat.not_lt.mp hfirst,
          Nat.lt_succ_of_le hhigh⟩)
    have hmem : (⟨.a, 0xFFFFE, 0x10FFFE, 0x200000, ⟨#[2, 3]⟩⟩ : SampleBlock) ∈ p.blocks := by
      rw [hblocks]
      decide +kernel
    have hmem' : (⟨.a, 0x100000, 0x110000, 0x200000, ⟨#[4]⟩⟩ : SampleBlock) ∈ p.blocks := by
      rw [hblocks]
      decide +kernel
    have hsame := hone.same hmem ⟨rfl, Nat.le_succ _, by decide⟩ (Nat.le_refl _) (by decide) hmem'
      ⟨rfl, Nat.le_refl _, by decide⟩ (Nat.le_succ _) (Nat.le_refl _)
    exact absurd hsame (by decide)

end Preparation
end ChipReplay
