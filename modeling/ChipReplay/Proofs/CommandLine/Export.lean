import ChipReplay.Proofs.CommandLine.Naming
/-!
# Sample blocks as files

The sample blocks of a prepared file go into one directory, each under its name. Blocks of one kind
that begin at the same ROM offset have one name, so of these the last is found there. All others
are found whole (`exported_run`).
-/

namespace ChipReplay.CommandLine

/-! ## The last of a name -/

section LastOf

variable {α β γ : Type} {xs : List α} {x : α}

theorem lastOf_map {f : α → β} {key : β → γ} {y : β} :
    LastOf key (xs.map f) y ↔ ∃ x, LastOf (fun x => key (f x)) xs x ∧ y = f x := by
  constructor
  · rintro ⟨before, after, heq, hlast⟩
    obtain ⟨before, rest, rfl, -, hrest⟩ := List.map_eq_append_iff.mp heq
    obtain ⟨x, after, rfl, rfl, rfl⟩ := List.map_eq_cons_iff.mp hrest
    exact ⟨x, ⟨before, after, rfl, fun z hz => hlast _ (List.mem_map_of_mem hz)⟩, rfl⟩
  · rintro ⟨x, ⟨before, after, rfl, hlast⟩, rfl⟩
    refine ⟨before.map f, after.map f, by rw [List.map_append, List.map_cons], ?_⟩
    intro y hy
    obtain ⟨z, hz, rfl⟩ := List.mem_map.mp hy
    exact hlast z hz

/-- Keys that tell the same members apart have the same last ones. -/
theorem lastOf_congr {key : α → β} {key' : α → γ}
    (h : ∀ x ∈ xs, ∀ y ∈ xs, key x = key y ↔ key' x = key' y) :
    LastOf key xs x ↔ LastOf key' xs x := by
  unfold LastOf
  refine exists_congr fun before => exists_congr fun after => and_congr_right ?_
  rintro rfl
  exact forall₂_congr fun y hy => not_congr (h y (by simp [hy]) x (by simp))

theorem nodup_map_congr {key : α → β} {key' : α → γ}
    (h : ∀ x ∈ xs, ∀ y ∈ xs, key x = key y ↔ key' x = key' y) :
    (xs.map key).Nodup ↔ (xs.map key').Nodup := by
  unfold List.Nodup
  rw [List.pairwise_map, List.pairwise_map]
  exact List.Pairwise.iff_of_mem fun hx hy => not_congr (h _ hx _ hy)

end LastOf

/-! ## The files of placed blocks -/

/-- The file of a block. -/
def blockFile (b : SampleBlock) : String × ByteArray := (blockFileName b, b.data)

/-- What is found of `blocks` in a directory that holds `files`. -/
structure Exported (blocks : List SampleBlock) (files : List (String × ByteArray)) : Prop where
  /-- No name is there twice. -/
  distinct : (files.map Prod.fst).Nodup
  /-- Blocks share a file when they begin at the same place of their ROM, and not else. -/
  named : ∀ b ∈ blocks, ∀ c ∈ blocks, blockFileName b = blockFileName c ↔ b.place = c.place
  /-- There is a file for the last block of every such place, with all its bytes, and no other. -/
  whole : ∀ f, f ∈ files ↔ ∃ b, LastOf SampleBlock.place blocks b ∧ f = blockFile b
  /-- The files are the blocks, one by one, just when no two begin at the same place. -/
  complete : files = blocks.map blockFile ↔ (blocks.map SampleBlock.place).Nodup

variable {blocks : List SampleBlock} {banks : BankMap} {dir : String} {p : Prepared}

theorem exported_of_placed (h : Placed blocks banks) (hfilled : ∀ b ∈ blocks, b.Filled) :
    Exported blocks ((blocks.map blockFile).foldl replaceFile []).reverse := by
  have hnamed : ∀ b ∈ blocks, ∀ c ∈ blocks,
      blockFileName b = blockFileName c ↔ b.place = c.place := by
    intro b hb c hc
    rw [blockFileName_eq_iff, h.offset_eq_iff hb hc (hfilled b hb) (hfilled c hc)]
  refine ⟨?_, hnamed, ?_, ?_⟩
  · rw [List.map_reverse, List.nodup_reverse]
    exact nodup_writes
  · intro f
    rw [List.mem_reverse, mem_writes, lastOf_map]
    exact exists_congr fun b => and_congr_left fun _ => lastOf_congr hnamed
  · rw [reverse_writes_eq_iff, List.map_map]
    exact nodup_map_congr hnamed

/-! ## The program -/

/-- The arguments ask for the task `t` with the file `vgm` as its input. -/
def Asks (args : List String) (stdin : ByteArray) (s : Storage) (t : Task) (vgm : ByteArray) :
    Prop :=
  ∃ verb settings name raw, readArguments args = .ok (verb, settings) ∧
    Task.ofSettings verb settings = t ∧ s.readInput stdin (inputOf settings) = .ok (name, raw) ∧
    unpack raw = .ok vgm

variable {args : List String} {stdin vgm : ByteArray} {s written created : Storage}
variable {out : String} {place : Place}

/-- The program writes the prepared file and then its blocks. -/
theorem run_of_applyAll {s' : Storage} (hasked : Asks args stdin s (.prepare out (some dir)) vgm)
    (haccepted : prepare vgm = .ok p)
    (happlied : s.applyAll (.writeFile out p.data :: exportEffects dir p.blocks) = (none, s')) :
    run args stdin s = ({ exit := 0, out := (blockTable p.blocks).lines }, s') := by
  obtain ⟨verb, settings, name, raw, hargs, htask, hinput, hunpack⟩ := hasked
  have hplan : (Task.ofSettings verb settings).plan name raw =
      .ok ⟨.writeFile out p.data :: exportEffects dir p.blocks, (blockTable p.blocks).lines⟩ := by
    rw [htask]
    simp only [Task.plan, planPrepare, hunpack, haccepted, inContext, bind, Except.bind]
    rfl
  unfold run
  simp only [hargs, hinput, hplan, happlied, bind, Except.bind]

/-- The blocks of a prepared file are written into a fresh directory. -/
theorem run_writes (hasked : Asks args stdin s (.prepare out (some dir)) vgm)
    (haccepted : prepare vgm = .ok p) (hwritten : s.writeFile out p.data = .ok written)
    (hcreated : written.createDirectory dir = (.ok (), created))
    (hfresh : created.open? dir = .ok (place, .directory []))
    (hdir : dir.utf8ByteSize ≤ maxExportPath) :
    ∃ s', run args stdin s = ({ exit := 0, out := (blockTable p.blocks).lines }, s') ∧
      s'.open? dir = .ok (place, .ofFiles ((p.blocks.map blockFile).foldl replaceFile [])) := by
  obtain ⟨start, loop, commands, banks, hmade⟩ := Preparation.made_of_prepare haccepted
  have hnames : ∀ f ∈ p.blocks.map blockFile, Storage.Storable dir f.1 := by
    refine List.forall_mem_map.mpr fun b hb => storable_blockFileName hdir ?_
    have hfits := hmade.placedBlocks.fits b hb
    have hfilled : b.romOffset < b.romOffset + b.data.size := hmade.filled b hb
    unfold SampleBlock.stop sampleMemorySize at hfits
    omega
  have hempty : created.open? dir = .ok (place, .ofFiles []) := hfresh
  obtain ⟨s', hblocks, hopen⟩ := Storage.applyAll_writeFiles hnames hempty
  rw [List.map_map] at hblocks
  refine ⟨s', run_of_applyAll hasked haccepted ?_, hopen⟩
  simp only [exportEffects, Storage.applyAll, Storage.apply, hwritten, hcreated]
  exact hblocks

/-! ## A run in a working directory of its own -/

/-- Arguments that ask for the blocks of standard input. -/
def exportArgs : List String := ["preprocess", "-", "-o", "out.vgm", "--pcm-dir", "pcm"]

/-- A working directory in which `entries` lie. -/
def workHolding (entries : List (String × Entry)) : Storage :=
  ⟨["work"], .directory [("work", .directory entries)]⟩

theorem asks_exportArgs (h : Gzip.isGzip vgm = false) :
    Asks exportArgs vgm (.fresh ["work"]) (.prepare "out.vgm" (some "pcm")) vgm := by
  have hstdin : isStandardInput "-" = true := by cbv
  have hinput : Storage.readInput (.fresh ["work"]) vgm "-" = .ok (standardInputName, vgm) := by
    rw [Storage.readInput, if_pos hstdin]
  have hunpack : unpack vgm = .ok vgm := by
    unfold unpack
    rw [h]
    rfl
  exact ⟨.prepare, [.file "-", .output "out.vgm", .pcmDir "pcm"], standardInputName, vgm, rfl, rfl,
    hinput, hunpack⟩

theorem writeFile_fresh (data : ByteArray) :
    (Storage.fresh ["work"]).writeFile "out.vgm" data =
      .ok (workHolding [("out.vgm", .file data)]) := by
  have hplain : Path.Plain "out.vgm" := ⟨by decide, by decide, by decide, by decide⟩
  have hread : Path.read "out.vgm" = .ok ⟨false, ["out.vgm"], false⟩ :=
    Storage.read_eq_ok.mpr ⟨by decide, by decide, Path.ofText_plain hplain⟩
  rw [Storage.writeFile, hread]
  rfl

theorem createDirectory_work (data : ByteArray) :
    (workHolding [("out.vgm", .file data)]).createDirectory "pcm" =
      (.ok (), workHolding [("pcm", .directory []), ("out.vgm", .file data)]) := by
  cbv

theorem open?_work (data : ByteArray) :
    (workHolding [("pcm", .directory []), ("out.vgm", .file data)]).open? "pcm" =
      .ok (["work", "pcm"], .directory []) := by
  cbv

/-! ## What is found in the directory -/

/-- For every file that is accepted, the directory holds the last block of each place in the sample
ROMs after the program. Nothing is lost just when no two blocks begin at the same place. -/
theorem exported_run (hasked : Asks args stdin s (.prepare out (some dir)) vgm)
    (haccepted : prepare vgm = .ok p) (hwritten : s.writeFile out p.data = .ok written)
    (hcreated : written.createDirectory dir = (.ok (), created))
    (hfresh : created.open? dir = .ok (place, .directory []))
    (hdir : dir.utf8ByteSize ≤ maxExportPath) :
    ∃ s', run args stdin s = ({ exit := 0, out := (blockTable p.blocks).lines }, s') ∧
      s'.open? dir = .ok (place, .ofFiles (s'.filesIn place).reverse) ∧
      Exported p.blocks (s'.filesIn place) := by
  obtain ⟨start, loop, commands, banks, hmade⟩ := Preparation.made_of_prepare haccepted
  obtain ⟨s', hrun, hopen⟩ := run_writes hasked haccepted hwritten hcreated hfresh hdir
  refine ⟨s', hrun, ?_, ?_⟩
  · rw [Storage.filesIn_eq hopen, List.reverse_reverse]
    exact hopen
  · rw [Storage.filesIn_eq hopen]
    exact exported_of_placed hmade.placedBlocks hmade.filled

/-- Two blocks of different kinds are both found. -/
theorem exported_run_twoRoms : ∃ p s', prepare Preparation.twoRoms = .ok p ∧
    run exportArgs Preparation.twoRoms (.fresh ["work"]) =
      ({ exit := 0, out := (blockTable p.blocks).lines }, s') ∧
    Exported p.blocks (s'.filesIn ["work", "pcm"]) ∧
    s'.filesIn ["work", "pcm"] = [("adpcm-a_000005.bin", ⟨#[0x11, 0x22]⟩),
      ("adpcm-b_01FFFE.bin", ⟨#[0x33, 0x44]⟩)] := by
  obtain ⟨p, haccepted, hblocks, -⟩ := Preparation.prepare_twoRoms
  obtain ⟨s', hrun, -, hexported⟩ := exported_run (asks_exportArgs (by decide +kernel)) haccepted
    (writeFile_fresh p.data) (createDirectory_work p.data) (open?_work p.data) (by decide)
  refine ⟨p, s', haccepted, hrun, hexported, ?_⟩
  have hplaces : (p.blocks.map SampleBlock.place).Nodup := by
    rw [hblocks]
    decide
  rw [hexported.complete.mpr hplaces, hblocks]
  decide +kernel

/-- A file with two blocks of one kind that begin at the same ROM offset. -/
def levelBlocks : ByteArray :=
  ⟨#[0x56, 0x67, 0x6D, 0x20] ++ Array.replicate 60 0 ++
    #[0x67, 0x66, 0x82, 10, 0, 0, 0, 0, 0, 1, 0, 0, 0, 0, 0, 0x11, 0x22,
      0x67, 0x66, 0x82, 9, 0, 0, 0, 0, 0, 1, 0, 0, 0, 0, 0, 0x33, 0x66]⟩

/-- What `levelBlocks` holds behind its header. -/
def levelBlocksCommands : List Located :=
  [⟨0x40, .block ⟨.a, 0x10000, 0, ⟨#[0x11, 0x22]⟩⟩⟩, ⟨0x51, .block ⟨.a, 0x10000, 0, ⟨#[0x33]⟩⟩⟩,
    ⟨0x61, .endOfStream⟩]

open Preparation in
theorem prepare_levelBlocks : ∃ p, prepare levelBlocks = .ok p ∧
    p.blocks = [⟨.a, 0, 0, 0x10000, ⟨#[0x11, 0x22]⟩⟩, ⟨.a, 0, 0, 0x10000, ⟨#[0x33]⟩⟩] := by
  have hplaced : placeBlocks (mergedBlocks (sampleBlocks levelBlocksCommands)) =
      .ok ([⟨.a, 0, 0, 0x10000, ⟨#[0x11, 0x22]⟩⟩, ⟨.a, 0, 0, 0x10000, ⟨#[0x33]⟩⟩],
        [⟨.a, 0, 0, 0⟩]) := by
    rw [mergedBlocks_of_sorted (by decide +kernel)]
    decide +kernel
  obtain ⟨p, haccepted, hblocks, -⟩ := prepare_ok
    (show checkIdent levelBlocks = .ok () by decide +kernel)
    (show startOf levelBlocks = .ok 0x40 by decide +kernel)
    (show pointer levelBlocks .loopOffset = .ok 0 by decide +kernel)
    (show 0x40 ≤ levelBlocks.size by decide +kernel)
    (show commandsFrom levelBlocks 0x40 = .ok levelBlocksCommands by decide +kernel) hplaced
  exact ⟨p, haccepted, hblocks⟩

/-- The program ends as if all were well, but of two blocks that begin together the first is not
found. -/
theorem lost_levelBlocks : ∃ p s', prepare levelBlocks = .ok p ∧
    run exportArgs levelBlocks (.fresh ["work"]) =
      ({ exit := 0, out := (blockTable p.blocks).lines }, s') ∧
    p.blocks.map blockFile = [("adpcm-a_000000.bin", ⟨#[0x11, 0x22]⟩),
      ("adpcm-a_000000.bin", ⟨#[0x33]⟩)] ∧
    s'.filesIn ["work", "pcm"] = [("adpcm-a_000000.bin", ⟨#[0x33]⟩)] := by
  obtain ⟨p, haccepted, hblocks⟩ := prepare_levelBlocks
  obtain ⟨s', hrun, hopen⟩ := run_writes (asks_exportArgs (by decide +kernel)) haccepted
    (writeFile_fresh p.data) (createDirectory_work p.data) (open?_work p.data) (by decide)
  have hfiles : p.blocks.map blockFile = [("adpcm-a_000000.bin", ⟨#[0x11, 0x22]⟩),
      ("adpcm-a_000000.bin", ⟨#[0x33]⟩)] := by
    rw [hblocks]
    decide +kernel
  refine ⟨p, s', haccepted, hrun, hfiles, ?_⟩
  rw [Storage.filesIn_eq hopen, hfiles]
  decide +kernel

end ChipReplay.CommandLine
