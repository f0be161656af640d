import ChipReplay.Preparation.Bank
import ChipReplay.Proofs.Preparation.Merging
/-!
# Groups of blocks and their banks

Two things live here.

A group is `Sound` when its fields say what its blocks are: where they begin and end, and that no
bank between its first and its last is without samples. Collecting keeps groups sound, and two
groups of one kind have no ROM bank in common (`apart_collect`).

`Placed` says what placing groups gives: every block lies in the memory banks of one run, and no
two runs share a ROM bank of one kind or a bank of memory (`placed_placeBlocks`). That is all that
the addresses of samples depend on.
-/

namespace ChipReplay

open SampleBlock

variable {b c : SampleBlock} {bs rest : List SampleBlock} {k : SampleKind} {n free : Nat}

/-- ROM bank `n` of kind `k` holds a byte of the block. -/
def SampleBlock.Touches (b : SampleBlock) (k : SampleKind) (n : Nat) : Prop :=
  b.kind = k ∧ b.firstBank ≤ n ∧ n ≤ b.lastBank

/-- The block has bytes. -/
def SampleBlock.Filled (b : SampleBlock) : Prop := b.romOffset < b.romStop

/-- Where a block lies in memory does not change which banks it touches. -/
theorem SampleBlock.touches_moved (b : SampleBlock) (offset : Nat) :
    ({ b with offset } : SampleBlock).Touches k n ↔ b.Touches k n := Iff.rfl

theorem SampleBlock.lastBank_moved (b : SampleBlock) (offset : Nat) :
    ({ b with offset } : SampleBlock).lastBank = b.lastBank := rfl

namespace BankGroup

variable {g h : BankGroup}

/-- The fields of a group describe its blocks. -/
structure Sound (g : BankGroup) : Prop where
  kind : ∀ b ∈ g.members, b.kind = g.kind
  start : ∀ b ∈ g.members, g.romStart ≤ b.romOffset
  stop : ∀ b ∈ g.members, b.romStop ≤ g.romStop
  filled : g.romStart < g.romStop
  lastBank : g.lastBank = (g.romStop - 1) / bankSize
  touched : ∀ n, g.firstBank ≤ n → n ≤ g.lastBank → ∃ b ∈ g.members, b.Touches g.kind n

theorem Sound.firstBank_le (hg : g.Sound) : g.firstBank ≤ g.lastBank := by
  rw [hg.lastBank]
  exact Nat.div_le_div_right (Nat.le_sub_one_of_lt hg.filled)

/-- Where a group begins. -/
def place (g : BankGroup) : SampleKind × Nat := (g.kind, g.romStart)

/-- The group and then the blocks are in order. -/
def Before (g : BankGroup) (bs : List SampleBlock) : Prop :=
  (g.place :: bs.map SampleBlock.place).Pairwise PlaceLe

theorem Before.head (h : g.Before (b :: bs)) : PlaceLe g.place b.place :=
  List.rel_of_pairwise_cons h List.mem_cons_self

theorem Before.add (h : g.Before (b :: bs)) : (g.add b).Before bs :=
  List.Pairwise.sublist ((List.sublist_cons_self _ _).cons_cons _) h

theorem Before.single (h : g.Before (b :: bs)) : (single b).Before bs := List.Pairwise.of_cons h

theorem shares_iff : g.shares b = true ↔ b.kind = g.kind ∧ b.firstBank ≤ g.lastBank := by
  simp [shares]

theorem collectOnto_of_shares (h : g.shares b = true) (rest : List SampleBlock) :
    collectOnto g (b :: rest) = collectOnto (g.add b) rest := by rw [collectOnto, if_pos h]

theorem collectOnto_of_apart (h : ¬ g.shares b = true) (rest : List SampleBlock) :
    collectOnto g (b :: rest) = g :: collectOnto (single b) rest := by rw [collectOnto, if_neg h]

/-! ## Collecting -/

theorem sound_single (hb : b.Filled) : (single b).Sound where
  kind := by
    intro c hc
    rw [List.mem_singleton.mp hc]
    rfl
  start := by
    intro c hc
    rw [List.mem_singleton.mp hc]
    exact Nat.le_refl _
  stop := by
    intro c hc
    rw [List.mem_singleton.mp hc]
    exact Nat.le_refl _
  filled := hb
  lastBank := rfl
  touched := fun n hlow hhigh => ⟨b, List.mem_singleton.mpr rfl, rfl, hlow, hhigh⟩

/-- A block that shares a bank with a sound group leaves it sound. The bank that they share is what
leaves no bank empty between them. -/
theorem Sound.add (hg : g.Sound) (hshare : g.shares b = true)
    (hbefore : PlaceLe g.place b.place) : (g.add b).Sound := by
  obtain ⟨hkind, hfirst⟩ := shares_iff.mp hshare
  have hstart : g.romStart ≤ b.romOffset := by
    rcases hbefore with hlt | ⟨-, hle⟩
    · have hrank : g.kind.rank < b.kind.rank := hlt
      rw [hkind] at hrank
      exact absurd hrank (Nat.lt_irrefl _)
    · exact hle
  exact {
    kind := List.forall_mem_cons.mpr ⟨hkind, hg.kind⟩
    start := List.forall_mem_cons.mpr ⟨hstart, hg.start⟩
    stop := List.forall_mem_cons.mpr
      ⟨Nat.le_max_right _ _, fun c hc => Nat.le_trans (hg.stop c hc) (Nat.le_max_left _ _)⟩
    filled := Nat.lt_of_lt_of_le hg.filled (Nat.le_max_left _ _)
    lastBank := by
      have hlast : (g.add b).lastBank = max ((g.romStop - 1) / bankSize) b.lastBank := by
        rw [← hg.lastBank]
        rfl
      have hstop : (g.add b).romStop = max g.romStop b.romStop := rfl
      rw [hlast, hstop, SampleBlock.lastBank]
      unfold bankSize
      omega
    touched := by
      intro n hlow hhigh
      have hhigh : n ≤ max g.lastBank b.lastBank := hhigh
      by_cases hn : n ≤ g.lastBank
      · obtain ⟨c, hc, htouch⟩ := hg.touched n hlow hn
        exact ⟨c, List.mem_cons_of_mem _ hc, htouch⟩
      · exact ⟨b, List.mem_cons_self, hkind, by omega, by omega⟩ }

theorem sound_collectOnto (hg : g.Sound) (hbefore : g.Before bs) (hbs : ∀ b ∈ bs, b.Filled) :
    ∀ h ∈ collectOnto g bs, h.Sound := by
  induction bs generalizing g with
  | nil =>
    intro h hh
    rwa [List.mem_singleton.mp hh]
  | cons b rest ih =>
    have hb := hbs b List.mem_cons_self
    have hrest : ∀ c ∈ rest, c.Filled := fun c hc => hbs c (List.mem_cons_of_mem _ hc)
    by_cases hshare : g.shares b = true
    · rw [collectOnto_of_shares hshare]
      exact ih (hg.add hshare hbefore.head) hbefore.add hrest
    · rw [collectOnto_of_apart hshare]
      exact List.forall_mem_cons.mpr ⟨hg, ih (sound_single hb) hbefore.single hrest⟩

/-- What holds of a group of one block and is kept when a block joins holds of all groups. -/
theorem forall_collectOnto {P : BankGroup → Prop} (hsingle : ∀ b ∈ bs, P (BankGroup.single b))
    (hadd : ∀ g, ∀ b ∈ bs, P g → g.shares b = true → P (g.add b)) (hg : P g) :
    ∀ h ∈ collectOnto g bs, P h := by
  induction bs generalizing g with
  | nil =>
    intro h hh
    rwa [List.mem_singleton.mp hh]
  | cons b rest ih =>
    have hb := List.mem_cons_self (a := b) (l := rest)
    have hsingle' : ∀ c ∈ rest, P (BankGroup.single c) :=
      fun c hc => hsingle c (List.mem_cons_of_mem _ hc)
    have hadd' : ∀ g, ∀ c ∈ rest, P g → g.shares c = true → P (g.add c) :=
      fun g c hc => hadd g c (List.mem_cons_of_mem _ hc)
    by_cases hshare : g.shares b = true
    · rw [collectOnto_of_shares hshare]
      exact ih hsingle' hadd' (hadd g b hb hg hshare)
    · rw [collectOnto_of_apart hshare]
      exact List.forall_mem_cons.mpr ⟨hg, ih hsingle' hadd' (hsingle b hb)⟩

theorem forall_collect {P : BankGroup → Prop} (hsingle : ∀ b ∈ bs, P (BankGroup.single b))
    (hadd : ∀ g, ∀ b ∈ bs, P g → g.shares b = true → P (g.add b)) : ∀ g ∈ collect bs, P g := by
  cases bs with
  | nil => exact fun g hg => absurd hg List.not_mem_nil
  | cons b rest =>
    exact forall_collectOnto (fun c hc => hsingle c (List.mem_cons_of_mem _ hc))
      (fun g c hc => hadd g c (List.mem_cons_of_mem _ hc)) (hsingle b List.mem_cons_self)

/-- No group begins before the one that is collected onto. -/
theorem place_collectOnto (hbefore : g.Before bs) :
    ∀ h ∈ collectOnto g bs, PlaceLe g.place h.place := by
  have hrefl (g : BankGroup) : PlaceLe g.place g.place := .inr ⟨rfl, Nat.le_refl _⟩
  induction bs generalizing g with
  | nil =>
    intro h hh
    rw [List.mem_singleton.mp hh]
    exact hrefl g
  | cons b rest ih =>
    by_cases hshare : g.shares b = true
    · rw [collectOnto_of_shares hshare]
      exact ih hbefore.add
    · rw [collectOnto_of_apart hshare]
      exact List.forall_mem_cons.mpr
        ⟨hrefl g, fun h hh => hbefore.head.trans (ih hbefore.single h hh)⟩

/-- Two groups of one kind have no bank in common. -/
def Apart (g h : BankGroup) : Prop := g.kind = h.kind → g.lastBank < h.firstBank

theorem apart_collectOnto (hbefore : g.Before bs) : (collectOnto g bs).Pairwise Apart := by
  induction bs generalizing g with
  | nil => exact List.pairwise_singleton _ _
  | cons b rest ih =>
    by_cases hshare : g.shares b = true
    · rw [collectOnto_of_shares hshare]
      exact ih hbefore.add
    · rw [collectOnto_of_apart hshare]
      refine List.pairwise_cons.mpr ⟨fun h hh hkind => ?_, ih hbefore.single⟩
      have hgb := hbefore.head
      have hbh : PlaceLe b.place h.place := place_collectOnto hbefore.single h hh
      -- `b` stands between two groups of one kind, so it is of that kind too
      have hrank : b.kind.rank = g.kind.rank := by
        have hlow : g.kind.rank ≤ b.kind.rank := by
          rcases hgb with hlt | ⟨heq, -⟩
          · exact Nat.le_of_lt hlt
          · exact Nat.le_of_eq (congrArg SampleKind.rank heq)
        have hhigh : b.kind.rank ≤ g.kind.rank := by
          rw [hkind]
          rcases hbh with hlt | ⟨heq, -⟩
          · exact Nat.le_of_lt hlt
          · exact Nat.le_of_eq (congrArg SampleKind.rank heq)
        exact Nat.le_antisymm hhigh hlow
      have hkind' : b.kind = g.kind := SampleKind.rank_inj hrank
      have hfirst : g.lastBank < b.firstBank := by
        by_contra hle
        exact hshare (shares_iff.mpr ⟨hkind', Nat.not_lt.mp hle⟩)
      rcases hbh with hlt | ⟨-, hle⟩
      · have hlt : b.kind.rank < h.kind.rank := hlt
        rw [hkind', hkind] at hlt
        exact absurd hlt (Nat.lt_irrefl _)
      · exact Nat.lt_of_lt_of_le hfirst (Nat.div_le_div_right hle)

/-- The groups hold the blocks, in order. -/
theorem members_collectOnto :
    (collectOnto g bs).flatMap (fun h => h.members.reverse) = g.members.reverse ++ bs := by
  induction bs generalizing g with
  | nil => rw [collectOnto, List.flatMap_singleton, List.append_nil]
  | cons b rest ih =>
    by_cases hshare : g.shares b = true
    · rw [collectOnto_of_shares hshare, ih, show (g.add b).members = b :: g.members from rfl,
        List.reverse_cons, List.append_assoc, List.singleton_append]
    · rw [collectOnto_of_apart hshare, List.flatMap_cons, ih]
      rfl

theorem sound_collect (hsorted : Sorted bs) (hbs : ∀ b ∈ bs, b.Filled) :
    ∀ g ∈ collect bs, g.Sound := by
  cases bs with
  | nil => exact fun g hg => absurd hg List.not_mem_nil
  | cons b rest =>
    obtain ⟨hb, hrest⟩ := List.forall_mem_cons.mp hbs
    exact sound_collectOnto (sound_single hb) hsorted hrest

theorem apart_collect (hsorted : Sorted bs) : (collect bs).Pairwise Apart := by
  cases bs with
  | nil => exact List.Pairwise.nil
  | cons b rest => exact apart_collectOnto hsorted

theorem members_collect : (collect bs).flatMap (fun g => g.members.reverse) = bs := by
  cases bs with
  | nil => rfl
  | cons b rest => exact members_collectOnto

/-! ## Placing -/

theorem le_targetFrom (g : BankGroup) (free : Nat) : free ≤ g.targetFrom free := by
  unfold targetFrom banksPerSegment
  split
  · omega
  · exact Nat.le_refl _

/-- The memory banks that the group takes from `bank` on. -/
def run (g : BankGroup) (bank : Nat) : BankRun := ⟨g.kind, g.firstBank, g.lastBank, bank⟩

end BankGroup

namespace BankRun

variable {r s : BankRun}

/-- The memory bank that holds the run's last ROM bank. -/
def top (r : BankRun) : Nat := r.target + (r.last - r.first)

/-- Where ROM address `a` goes with the run. -/
def address (r : BankRun) (a : Nat) : Nat := r.target * bankSize + (a - r.first * bankSize)

/-- The block lies where the run puts it. -/
structure Holds (r : BankRun) (b : SampleBlock) : Prop where
  kind : b.kind = r.kind
  first : r.first ≤ b.firstBank
  last : b.lastBank ≤ r.last
  offset : b.offset = r.address b.romOffset

/-- Two runs share no ROM bank of one kind, and no bank of memory. -/
structure Apart (r s : BankRun) : Prop where
  rom : r.kind = s.kind → r.last < s.first
  memory : r.top < s.target

/-- A run moves whole banks: what an address is inside its bank does not change. -/
theorem address_eq {a : Nat} (h : r.first ≤ a / bankSize) :
    r.address a = (r.target + (a / bankSize - r.first)) * bankSize + a % bankSize := by
  unfold address
  unfold bankSize at h ⊢
  omega

end BankRun

/-- The first group gets its target, and the others the banks behind it. -/
theorem placeGroups_target {g : BankGroup} {groups : List BankGroup} {blocks : List SampleBlock}
    {banks : BankMap} (h : placeGroups free (g :: groups) = .ok (blocks, banks)) :
    g.lastAt (g.targetFrom free) < sampleMemorySize ∧ ∃ blocks' banks',
      placeGroups (g.targetFrom free + g.lastBank - g.firstBank + 1) groups =
        .ok (blocks', banks') ∧
      blocks = g.placed (g.targetFrom free) ++ blocks' ∧
      banks = g.run (g.targetFrom free) :: banks' := by
  unfold placeGroups at h
  dsimp only at h
  by_cases hfull : sampleMemorySize ≤ g.lastAt (g.targetFrom free)
  · rw [if_pos hfull] at h
    cases h
  · rw [if_neg hfull] at h
    cases hrest : placeGroups (g.targetFrom free + g.lastBank - g.firstBank + 1) groups with
    | error e =>
      rw [hrest] at h
      cases h
    | ok placed =>
      obtain ⟨blocks', banks'⟩ := placed
      rw [hrest] at h
      cases h
      exact ⟨Nat.not_le.mp hfull, _, _, rfl, rfl, rfl⟩

theorem placeGroups_cons {g : BankGroup} {groups : List BankGroup} {blocks : List SampleBlock}
    {banks : BankMap} (h : placeGroups free (g :: groups) = .ok (blocks, banks)) :
    ∃ target blocks' banks', free ≤ target ∧ g.lastAt target < sampleMemorySize ∧
      placeGroups (target + g.lastBank - g.firstBank + 1) groups = .ok (blocks', banks') ∧
      blocks = g.placed target ++ blocks' ∧ banks = g.run target :: banks' := by
  obtain ⟨hfits, blocks', banks', hrest, hblocks, hbanks⟩ := placeGroups_target h
  exact ⟨_, blocks', banks', g.le_targetFrom free, hfits, hrest, hblocks, hbanks⟩

/-- Blocks placed in the memory banks of runs. -/
structure Placed (blocks : List SampleBlock) (banks : BankMap) : Prop where
  held : ∀ b ∈ blocks, ∃ r ∈ banks, r.Holds b
  fits : ∀ b ∈ blocks, b.stop ≤ sampleMemorySize
  touched : ∀ r ∈ banks, ∀ n, r.first ≤ n → n ≤ r.last → ∃ b ∈ blocks, b.Touches r.kind n
  apart : banks.Pairwise BankRun.Apart

/-- A group that fits is placed as its run says. -/
theorem BankGroup.Sound.placed {g : BankGroup} (hg : g.Sound) {target : Nat}
    (hfits : g.lastAt target < sampleMemorySize) : Placed (g.placed target) [g.run target] where
  held := by
    intro b hb
    obtain ⟨c, hc, rfl⟩ := List.mem_map.mp hb
    have hc := List.mem_reverse.mp hc
    have hlast : c.lastBank ≤ g.lastBank := by
      rw [hg.lastBank]
      exact Nat.div_le_div_right (Nat.sub_le_sub_right (hg.stop c hc) 1)
    exact ⟨_, List.mem_singleton.mpr rfl, hg.kind c hc, Nat.div_le_div_right (hg.start c hc),
      Nat.le_trans (Nat.le_of_eq (c.lastBank_moved _)) hlast, rfl⟩
  fits := by
    intro b hb
    obtain ⟨c, hc, rfl⟩ := List.mem_map.mp hb
    have hc := List.mem_reverse.mp hc
    have hstart := hg.start c hc
    have hstop : c.romOffset + c.data.size ≤ g.romStop := hg.stop c hc
    have hfilled := hg.filled
    show target * bankSize + (c.romOffset - g.firstBank * bankSize) + c.data.size
      ≤ sampleMemorySize
    unfold BankGroup.lastAt BankGroup.startAt BankGroup.low BankGroup.length at hfits
    unfold BankGroup.firstBank
    unfold bankSize at hfits ⊢
    omega
  touched := by
    intro r hr n hlow hhigh
    rw [List.mem_singleton.mp hr] at hlow hhigh ⊢
    obtain ⟨b, hb, htouch⟩ := hg.touched n hlow hhigh
    exact ⟨_, List.mem_map_of_mem (List.mem_reverse.mpr hb), (b.touches_moved _).mpr htouch⟩
  apart := List.pairwise_singleton _ _

theorem Placed.append {blocks blocks' : List SampleBlock} {banks banks' : BankMap}
    (h : Placed blocks banks) (h' : Placed blocks' banks')
    (hapart : ∀ r ∈ banks, ∀ s ∈ banks', r.Apart s) :
    Placed (blocks ++ blocks') (banks ++ banks') where
  held := by
    intro b hb
    rcases List.mem_append.mp hb with hb | hb
    · obtain ⟨r, hr, hold⟩ := h.held b hb
      exact ⟨r, List.mem_append_left _ hr, hold⟩
    · obtain ⟨r, hr, hold⟩ := h'.held b hb
      exact ⟨r, List.mem_append_right _ hr, hold⟩
  fits := by
    intro b hb
    rcases List.mem_append.mp hb with hb | hb
    · exact h.fits b hb
    · exact h'.fits b hb
  touched := by
    intro r hr n hlow hhigh
    rcases List.mem_append.mp hr with hr | hr
    · obtain ⟨b, hb, htouch⟩ := h.touched r hr n hlow hhigh
      exact ⟨b, List.mem_append_left _ hb, htouch⟩
    · obtain ⟨b, hb, htouch⟩ := h'.touched r hr n hlow hhigh
      exact ⟨b, List.mem_append_right _ hb, htouch⟩
  apart := List.pairwise_append.mpr ⟨h.apart, h'.apart, hapart⟩

/-- Runs are those of groups, in banks that were free. -/
theorem runs_placeGroups {groups : List BankGroup} {blocks : List SampleBlock} {banks : BankMap}
    (hsound : ∀ g ∈ groups, g.Sound) (h : placeGroups free groups = .ok (blocks, banks)) :
    ∀ r ∈ banks, free ≤ r.target ∧ ∃ g ∈ groups, r = g.run r.target := by
  induction groups generalizing free blocks banks with
  | nil =>
    cases h
    exact fun r hr => absurd hr List.not_mem_nil
  | cons g groups ih =>
    obtain ⟨hg, hgroups⟩ := List.forall_mem_cons.mp hsound
    obtain ⟨target, blocks', banks', hfree, -, hrest, -, rfl⟩ := placeGroups_cons h
    refine List.forall_mem_cons.mpr ⟨⟨hfree, g, List.mem_cons_self, rfl⟩, fun r hr => ?_⟩
    obtain ⟨hlater, g', hg', hrun⟩ := ih hgroups hrest r hr
    have hle := hg.firstBank_le
    exact ⟨by omega, g', List.mem_cons_of_mem _ hg', hrun⟩

theorem placed_placeGroups {groups : List BankGroup} {blocks : List SampleBlock} {banks : BankMap}
    (hsound : ∀ g ∈ groups, g.Sound) (hapart : groups.Pairwise BankGroup.Apart)
    (h : placeGroups free groups = .ok (blocks, banks)) : Placed blocks banks := by
  induction groups generalizing free blocks banks with
  | nil =>
    cases h
    exact ⟨fun b hb => absurd hb List.not_mem_nil, fun b hb => absurd hb List.not_mem_nil,
      fun r hr => absurd hr List.not_mem_nil, List.Pairwise.nil⟩
  | cons g groups ih =>
    obtain ⟨hg, hgroups⟩ := List.forall_mem_cons.mp hsound
    obtain ⟨hhead, htail⟩ := List.pairwise_cons.mp hapart
    obtain ⟨target, blocks', banks', -, hfits, hrest, rfl, rfl⟩ := placeGroups_cons h
    refine (hg.placed hfits).append (ih hgroups htail hrest) fun r hr s hs => ?_
    rw [List.mem_singleton.mp hr]
    obtain ⟨hlater, g', hg', hrun⟩ := runs_placeGroups hgroups hrest s hs
    rw [hrun]
    refine ⟨hhead g' hg', ?_⟩
    show target + (g.lastBank - g.firstBank) < s.target
    have hle := hg.firstBank_le
    omega

/-- Placing changes nothing of a block but its offset in memory. -/
theorem placeGroups_blocks {groups : List BankGroup} {blocks : List SampleBlock} {banks : BankMap}
    (h : placeGroups free groups = .ok (blocks, banks)) :
    blocks.map (fun b => { b with offset := 0 }) =
      (groups.flatMap fun g => g.members.reverse).map fun b => { b with offset := 0 } := by
  induction groups generalizing free blocks banks with
  | nil =>
    cases h
    rfl
  | cons g groups ih =>
    obtain ⟨target, blocks', banks', -, -, hrest, rfl, rfl⟩ := placeGroups_cons h
    have hplaced : (g.placed target).map (fun b => { b with offset := 0 })
        = g.members.reverse.map fun b => { b with offset := 0 } := by
      rw [BankGroup.placed, List.map_map]
      rfl
    rw [List.map_append, List.flatMap_cons, List.map_append, hplaced, ih hrest]

variable {blocks : List SampleBlock} {banks : BankMap}

theorem placed_placeBlocks (hsorted : Sorted bs) (hbs : ∀ b ∈ bs, b.Filled)
    (h : placeBlocks bs = .ok (blocks, banks)) : Placed blocks banks :=
  placed_placeGroups (BankGroup.sound_collect hsorted hbs) (BankGroup.apart_collect hsorted) h

theorem placeBlocks_blocks (h : placeBlocks bs = .ok (blocks, banks)) :
    blocks.map (fun b => { b with offset := 0 }) = bs.map fun b => { b with offset := 0 } := by
  rw [placeGroups_blocks h, BankGroup.members_collect]

end ChipReplay
