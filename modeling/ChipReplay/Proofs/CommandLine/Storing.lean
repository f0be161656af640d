import Mathlib.Data.List.Induction
import Mathlib.Data.List.Nodup
import ChipReplay.CommandLine.Program
import ChipReplay.Proofs.Bytes.Checked
import ChipReplay.Proofs.CommandLine.Paths
/-!
# Files written into a directory

An entry that takes no directory's place leaves all paths leading where they led (`walk_of_kept`).
So a file that is written under a plain name joins those of its directory, or replaces the one of
its name (`writeFile_join`), and the directory is still found under the path it was found under.
After any number of such writes the directory holds what `replaceFile` makes of them
(`applyAll_writeFiles`).
-/

namespace ChipReplay.CommandLine

/-- The files of a directory, the last written first, once one more is written. -/
def replaceFile (files : List (String × ByteArray)) (file : String × ByteArray) :
    List (String × ByteArray) :=
  file :: files.filter fun f => f.1 ≠ file.1

/-- Nothing behind `x` in the list has its key. -/
def LastOf {α β : Type} (key : α → β) (xs : List α) (x : α) : Prop :=
  ∃ before after, xs = before ++ x :: after ∧ ∀ y ∈ after, key y ≠ key x

theorem lastOf_concat {α β : Type} {key : α → β} {xs : List α} {x y : α} :
    LastOf key (xs ++ [y]) x ↔ x = y ∨ LastOf key xs x ∧ key y ≠ key x := by
  constructor
  · rintro ⟨before, after, heq, hlast⟩
    rcases List.eq_nil_or_concat after with rfl | ⟨init, z, rfl⟩
    · exact .inl (List.singleton_injective (List.append_inj_right' heq rfl)).symm
    · rw [List.concat_eq_append, ← List.cons_append, ← List.append_assoc] at heq
      obtain ⟨rfl, hz⟩ := List.append_inj' heq rfl
      obtain rfl := List.singleton_injective hz
      exact .inr ⟨⟨before, init, rfl, fun z hz => hlast z (by simp [hz])⟩, hlast y (by simp)⟩
  · rintro (rfl | ⟨⟨before, after, rfl, hlast⟩, hne⟩)
    · exact ⟨xs, [], rfl, by simp⟩
    · refine ⟨before, after ++ [y], by simp, ?_⟩
      exact List.forall_mem_append.mpr ⟨hlast, List.forall_mem_singleton.mpr hne⟩

/-! ## Files that are left after writes -/

section Writes

variable {files new : List (String × ByteArray)} {f g : String × ByteArray}

theorem mem_replaceFile : f ∈ replaceFile files g ↔ f = g ∨ f ∈ files ∧ g.1 ≠ f.1 := by
  rw [replaceFile, List.mem_cons, List.mem_filter, decide_eq_true_iff]
  exact or_congr_right (and_congr_right fun _ => ne_comm)

/-- The last write of a name is the one whose bytes are found. -/
theorem mem_writes : f ∈ new.foldl replaceFile [] ↔ LastOf Prod.fst new f := by
  induction new using List.reverseRecOn with
  | nil => simp [LastOf]
  | append_singleton rest g ih =>
    rw [List.foldl_concat, mem_replaceFile, ih, lastOf_concat]

theorem nodup_writes : ((new.foldl replaceFile []).map Prod.fst).Nodup := by
  induction new using List.reverseRecOn with
  | nil => exact List.nodup_nil
  | append_singleton rest g ih =>
    rw [List.foldl_concat, replaceFile, List.map_cons, List.nodup_cons]
    refine ⟨?_, ih.sublist (List.filter_sublist.map _)⟩
    intro hmem
    obtain ⟨f, hf, hname⟩ := List.mem_map.mp hmem
    exact of_decide_eq_true (List.mem_filter.mp hf).2 hname

/-- Every write is left, in order, just when no two are of one name. -/
theorem reverse_writes_eq_iff :
    (new.foldl replaceFile []).reverse = new ↔ (new.map Prod.fst).Nodup := by
  constructor
  · intro h
    rw [← h, List.map_reverse, List.nodup_reverse]
    exact nodup_writes
  · intro h
    induction new using List.reverseRecOn with
    | nil => rfl
    | append_singleton rest g ih =>
      rw [List.map_append, List.map_singleton, ← List.concat_eq_append] at h
      obtain ⟨hnew, hnames⟩ := (List.nodup_concat _ _).mp h
      have hrest := ih hnames
      have hall : (rest.foldl replaceFile []).filter (fun f => f.1 ≠ g.1) =
          rest.foldl replaceFile [] := by
        refine List.filter_eq_self.mpr fun f hf => decide_eq_true fun hname => hnew ?_
        rw [← hrest, List.map_reverse, List.mem_reverse, ← hname]
        exact List.mem_map_of_mem hf
      rw [List.foldl_concat, replaceFile, hall, List.reverse_cons, hrest]

end Writes

namespace Entry

variable {entry new : Entry} {place : Place} {name m n : String}
variable {entries : List (String × Entry)}

/-- A directory in which `files` lie and nothing else. -/
def ofFiles (files : List (String × ByteArray)) : Entry :=
  directory (files.map fun f => (f.1, file f.2))

/-! ## What a new entry changes -/

theorem lookup_filter_ne (h : m ≠ n) :
    (entries.filter fun e => e.1 ≠ n).lookup m = entries.lookup m := by
  induction entries with
  | nil => rfl
  | cons e rest ih =>
    by_cases hn : e.1 = n
    · have hm : (m == e.1) = false := by simpa [hn] using h
      rw [List.filter_cons_of_neg (by simpa using hn), ih, List.lookup_cons, hm]
    · rw [List.filter_cons_of_pos (by simpa using hn), List.lookup_cons, List.lookup_cons, ih]

theorem put_directory (new : Entry) (entries : List (String × Entry)) (name : String)
    (rest : Place) : put new (directory entries) (name :: rest) =
      directory ((name, put new ((entries.lookup name).getD (directory [])) rest) ::
        entries.filter fun e => e.1 ≠ name) := by
  rw [put]

theorem find?_directory (entries : List (String × Entry)) (name : String) (rest : Place) :
    (directory entries).find? (name :: rest) = (entries.lookup name).bind (·.find? rest) := by
  rw [find?]
  cases entries.lookup name <;> rfl

/-- Only a directory has something behind it, which is found from one of its entries. -/
theorem find?_cons_eq_some {found : Entry} {rest : Place}
    (h : entry.find? (name :: rest) = some found) :
    ∃ entries next, entry = directory entries ∧ entries.lookup name = some next ∧
      next.find? rest = some found := by
  match entry with
  | .file data =>
    rw [find?] at h
    cases h
  | .directory entries =>
    rw [find?_directory] at h
    obtain ⟨next, hnext, h⟩ := Option.bind_eq_some_iff.mp h
    exact ⟨entries, next, rfl, hnext, h⟩

/-- What stands at `name` in a directory is what the directory has under that name. -/
theorem find?_concat (h : entry.find? place = some (directory entries)) :
    entry.find? (place ++ [name]) = entries.lookup name := by
  induction place generalizing entry with
  | nil =>
    obtain rfl := Option.some.inj h
    rw [List.nil_append, find?_directory]
    cases entries.lookup name with
    | none => rfl
    | some found => rw [Option.bind_some, find?]
  | cons m rest ih =>
    obtain ⟨es, next, rfl, hnext, h⟩ := find?_cons_eq_some h
    rw [List.cons_append, find?_directory, hnext]
    exact ih h

/-- The directory of the new entry has it in front. -/
theorem find?_put (h : entry.find? place = some (directory entries)) :
    (put new entry (place ++ [name])).find? place =
      some (directory ((name, new) :: entries.filter fun e => e.1 ≠ name)) := by
  induction place generalizing entry with
  | nil =>
    obtain rfl := Option.some.inj h
    rw [List.nil_append, put_directory]
    simp only [put, find?]
  | cons m rest ih =>
    obtain ⟨es, next, rfl, hnext, h⟩ := find?_cons_eq_some h
    rw [List.cons_append, put_directory, hnext, find?_directory, List.lookup_cons_self]
    exact ih h

/-- Whatever stood somewhere has something in its place, and a directory has a directory. -/
def Kept (entry entry' : Entry) : Prop :=
  ∀ q found, entry.find? q = some found → ∃ found', entry'.find? q = some found' ∧
    ∀ entries, found = directory entries → ∃ entries', found' = directory entries'

/-- A new entry that takes no directory's place keeps everything. -/
theorem kept_put (h : ∀ entries, entry.find? place ≠ some (directory entries)) :
    entry.Kept (put new entry place) := by
  induction place generalizing entry with
  | nil =>
    have hfile : ∀ entries, entry ≠ directory entries := by
      rintro entries rfl
      exact h entries rfl
    intro q found hfound
    cases q with
    | nil =>
      obtain rfl := Option.some.inj hfound
      exact ⟨new, by rw [put, find?], fun entries hdir => absurd hdir (hfile entries)⟩
    | cons m q =>
      obtain ⟨es, -, hdir, -, -⟩ := find?_cons_eq_some hfound
      exact absurd hdir (hfile es)
  | cons n rest ih =>
    intro q found hfound
    cases q with
    | nil =>
      obtain rfl := Option.some.inj hfound
      refine ⟨_, by rw [find?], ?_⟩
      rintro entries rfl
      exact ⟨_, put_directory ..⟩
    | cons m q =>
      obtain ⟨es, next, rfl, hnext, hnextfound⟩ := find?_cons_eq_some hfound
      rw [put_directory, find?_directory]
      by_cases hm : m = n
      · subst hm
        have hrest : ∀ entries, next.find? rest ≠ some (directory entries) := by
          intro entries hdir
          refine h entries ?_
          rw [find?_directory, hnext]
          exact hdir
        rw [List.lookup_cons_self, hnext]
        exact ih hrest q found hnextfound
      · have hne : (m == n) = false := by simpa using hm
        rw [List.lookup_cons, hne, lookup_filter_ne hm, hnext]
        exact ⟨found, hnextfound, fun entries hdir => ⟨entries, hdir⟩⟩

end Entry

namespace Storage

variable {s s' : Storage} {dir name : String} {place q : Place} {names : List String}
variable {entries : List (String × Entry)} {data : ByteArray} {files : List (String × ByteArray)}

theorem isDirectory_iff : s.isDirectory place = true ↔
    ∃ entries, s.find? place = some (.directory entries) := by
  unfold isDirectory
  constructor
  · intro h
    split at h
    · next entries hfound => exact ⟨entries, hfound⟩
    · cases h
  · rintro ⟨entries, hfound⟩
    rw [hfound]

/-! ## Paths lead where they led -/

theorem look_isSome_of_kept {found : Entry} (hroot : s.root.Kept s'.root)
    (h : s.look place name = .ok (some found)) :
    ∃ found', s'.look place name = .ok (some found') := by
  unfold look at h ⊢
  split at h
  · cases h
  · next hsize =>
    obtain ⟨found', hfound', -⟩ := hroot _ _ (Except.ok.inj h)
    exact ⟨found', by rw [if_neg hsize]; exact congrArg _ hfound'⟩

theorem enter_of_kept (hroot : s.root.Kept s'.root) (h : s.enter place name = .ok q) :
    s'.enter place name = .ok q := by
  unfold enter at h ⊢
  split at h
  · next hdot => rw [if_pos hdot, h]
  · next hdot =>
    rw [if_neg hdot]
    split at h
    · next hdots => rw [if_pos hdots, h]
    · next hdots =>
      rw [if_neg hdots]
      split at h
      · cases h
      · cases h
      · next found hlook =>
        obtain ⟨found', hlook'⟩ := look_isSome_of_kept hroot hlook
        rw [hlook', ← h]

theorem walk_cons (s : Storage) (place : Place) (name : String) (rest : List String) :
    s.walk place (name :: rest) =
      if s.isDirectory place = true then s.enter place name >>= (s.walk · rest)
      else .error .notDirectory := by
  rw [walk]
  cases s.isDirectory place <;> rfl

theorem walk_of_kept (hroot : s.root.Kept s'.root) (h : s.walk place names = .ok q) :
    s'.walk place names = .ok q := by
  induction names generalizing place with
  | nil => exact h
  | cons name rest ih =>
    rw [walk_cons] at h ⊢
    split at h
    · next hdir =>
      obtain ⟨entries, hfound⟩ := isDirectory_iff.mp hdir
      obtain ⟨found', hfound', hdir'⟩ := hroot _ _ hfound
      obtain ⟨entries', rfl⟩ := hdir' entries rfl
      obtain ⟨next, hnext, h⟩ := ok_of_bind h
      rw [if_pos (isDirectory_iff.mpr ⟨entries', hfound'⟩), enter_of_kept hroot hnext]
      exact ih h
    · cases h

/-! ## Writing under a name of a directory -/

theorem read_eq_ok {text : String} {p : Path} : Path.read text = .ok p ↔
    text ≠ "" ∧ text.utf8ByteSize ≤ maxPathSize ∧ Path.ofText text = p := by
  unfold Path.read
  split
  · next hempty => simp [hempty]
  · next hempty =>
    split
    · next hlong => simp [Nat.not_le.mpr hlong]
    · next hlong => simp [hempty, Nat.not_lt.mp hlong]

theorem open?_eq_directory : s.open? dir = .ok (place, .directory entries) ↔
    ∃ p, Path.read dir = .ok p ∧ s.walk (s.start p) p.names = .ok place ∧
      s.find? place = some (.directory entries) := by
  unfold open?
  constructor
  · intro h
    obtain ⟨p, hp, h⟩ := ok_of_bind h
    obtain ⟨q, hq, h⟩ := ok_of_bind h
    refine ⟨p, hp, ?_⟩
    split at h
    · cases h
    · next es hfound =>
      cases h
      exact ⟨hq, hfound⟩
    · split at h <;> cases h
  · rintro ⟨p, hp, hwalk, hfound⟩
    simp only [hp, hwalk, hfound, bind, Except.bind]
    rfl

/-- A directory that is kept is opened by the same path. -/
theorem open?_of_kept {es : List (String × Entry)} (hroot : s.root.Kept s'.root)
    (hworking : s'.working = s.working) (hfound : s'.find? place = some (.directory es))
    (h : s.open? dir = .ok (place, .directory entries)) :
    s'.open? dir = .ok (place, .directory es) := by
  obtain ⟨p, hp, hwalk, -⟩ := open?_eq_directory.mp h
  have hstart : s'.start p = s.start p := by rw [start, start, hworking]
  refine open?_eq_directory.mpr ⟨p, hp, ?_, hfound⟩
  rw [hstart]
  exact walk_of_kept hroot hwalk

/-- The name under which a file can be written in the directory of the path `dir`. -/
structure Storable (dir name : String) : Prop where
  plain : Path.Plain name
  name_fits : name.utf8ByteSize ≤ maxNameSize
  path_fits : (Path.join dir name).utf8ByteSize ≤ maxPathSize

theorem target_join (hname : Path.Plain name) (hdir : dir ≠ "")
    (hwalk : s.walk (s.start (Path.ofText dir)) (Path.ofText dir).names = .ok place)
    (hfound : s.find? place = some (.directory entries)) :
    s.target (Path.ofText (Path.join dir name)) = .ok (some (place, name)) := by
  have hstart : s.start (Path.ofText (Path.join dir name)) = s.start (Path.ofText dir) := by
    rw [start, start, Path.absolute_join hdir]
  have hisdir : s.isDirectory place = true := isDirectory_iff.mpr ⟨entries, hfound⟩
  have hnodots : ¬ (name = "." ∨ name = "..") := fun h => h.elim hname.ne_dot hname.ne_dots
  unfold target
  rw [Path.names_join hname, List.getLast?_concat, List.dropLast_concat, hstart]
  simp only [hwalk, hisdir, if_neg hnodots, bind, Except.bind]
  rfl

/-- A file that takes no directory's place is written. -/
theorem writeFile_eq (hname : Storable dir name)
    (hopen : s.open? dir = .ok (place, .directory entries))
    (hfree : ∀ es, entries.lookup name ≠ some (.directory es)) :
    s.writeFile (Path.join dir name) data = .ok (s.put (place ++ [name]) (.file data)) := by
  obtain ⟨p, hp, hwalk, hfound⟩ := open?_eq_directory.mp hopen
  obtain ⟨hdir, -, rfl⟩ := read_eq_ok.mp hp
  obtain ⟨between, hjoin, -⟩ := Path.toList_join dir name
  have hne : Path.join dir name ≠ "" := by
    intro h
    rw [h] at hjoin
    exact hname.plain.ne_nil (List.append_eq_nil_iff.mp hjoin.symm).2
  have hread := read_eq_ok.mpr ⟨hne, hname.path_fits, rfl⟩
  have hlook : s.look place name = .ok (entries.lookup name) := by
    rw [look, if_neg (Nat.not_lt.mpr hname.name_fits), find?, Entry.find?_concat hfound]
  unfold writeFile
  simp only [hread, target_join hname.plain hdir hwalk hfound, Path.closed_join hname.plain, hlook,
    bind, Except.bind]
  rfl

theorem lookup_ofFiles (files : List (String × ByteArray)) (name : String) :
    (files.map fun f => (f.1, Entry.file f.2)).lookup name = (files.lookup name).map .file := by
  induction files with
  | nil => rfl
  | cons f rest ih =>
    rw [List.map_cons, List.lookup_cons, List.lookup_cons]
    cases name == f.1 with
    | true => rfl
    | false => exact ih

/-- In a directory of files, a file of any name can be written. It joins them or replaces the one
of its name. -/
theorem writeFile_join (data : ByteArray) (hname : Storable dir name)
    (hopen : s.open? dir = .ok (place, .ofFiles files)) :
    ∃ s', s.writeFile (Path.join dir name) data = .ok s' ∧
      s'.open? dir = .ok (place, .ofFiles (replaceFile files (name, data))) := by
  have hfree : ∀ es, (files.map fun f => (f.1, Entry.file f.2)).lookup name ≠
      some (.directory es) := by
    intro es hes
    rw [lookup_ofFiles] at hes
    obtain ⟨data, -, hdata⟩ := Option.map_eq_some_iff.mp hes
    cases hdata
  obtain ⟨-, -, -, hfound⟩ := open?_eq_directory.mp hopen
  have hkept : s.root.Kept (s.put (place ++ [name]) (.file data)).root :=
    Entry.kept_put fun es hes => hfree es (by rw [← Entry.find?_concat hfound, hes])
  have hput : (s.put (place ++ [name]) (.file data)).find? place =
      some (.ofFiles (replaceFile files (name, data))) := by
    rw [find?, put, Entry.find?_put hfound, List.filter_map]
    rfl
  exact ⟨_, writeFile_eq hname hopen hfree, open?_of_kept hkept rfl hput hopen⟩

/-- Files are written one after the other, each under its name in one directory. -/
theorem applyAll_writeFiles {new : List (String × ByteArray)}
    (hnames : ∀ f ∈ new, Storable dir f.1) (hopen : s.open? dir = .ok (place, .ofFiles files)) :
    ∃ s', s.applyAll (new.map fun f => .writeFile (Path.join dir f.1) f.2) = (none, s') ∧
      s'.open? dir = .ok (place, .ofFiles (new.foldl replaceFile files)) := by
  induction new generalizing s files with
  | nil => exact ⟨s, rfl, hopen⟩
  | cons f rest ih =>
    obtain ⟨hf, hrest⟩ := List.forall_mem_cons.mp hnames
    obtain ⟨next, hwrite, hnext⟩ := writeFile_join f.2 hf hopen
    obtain ⟨s', hall, hs'⟩ := ih hrest hnext
    refine ⟨s', ?_, hs'⟩
    rw [List.map_cons, applyAll, apply, hwrite]
    exact hall

/-- The files of a directory are those that were put into it, the first written first. -/
theorem filesIn_eq (hopen : s.open? dir = .ok (place, .ofFiles files)) :
    s.filesIn place = files.reverse := by
  obtain ⟨-, -, -, hfound⟩ := open?_eq_directory.mp hopen
  unfold filesIn
  rw [hfound]
  simp only [← List.map_reverse, List.filterMap_map]
  exact List.filterMap_some

end Storage
end ChipReplay.CommandLine
