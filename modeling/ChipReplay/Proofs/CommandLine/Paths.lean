import Mathlib.Data.String.Basic
import ChipReplay.CommandLine.Storage
/-!
# The path of a name in a directory

A text is split at its slashes as the list of its characters is (`splitOn_slash`). So the path of a
plain name in a directory goes through the names of the directory's path and then to that name
(`names_join`), wherever slashes stand in the directory's path.
-/

namespace ChipReplay.CommandLine

open String

/-! ## Splitting at slashes -/

section Split

variable {l m r : List Char} {c : Char} {parts : List String}

theorem atEnd_iff_nil : Pos.Raw.atEnd (ofList (l ++ m ++ r)) ⟨utf8Len l + utf8Len m⟩ = true ↔
    r = [] := by
  rw [atEnd_iff, rawEndPos_ofList, utf8Len_append, utf8Len_append, Pos.Raw.mk_le_mk,
    ← utf8Len_eq_zero]
  omega

theorem get_behind : Pos.Raw.get (ofList (l ++ m ++ c :: r)) ⟨utf8Len l + utf8Len m⟩ = c := by
  rw [← utf8Len_append, get_of_valid]
  rfl

theorem next_behind : Pos.Raw.next (ofList (l ++ m ++ c :: r)) ⟨utf8Len l + utf8Len m⟩ =
    ⟨utf8Len l + utf8Len m + c.utf8Size⟩ := by
  rw [← utf8Len_append, next_of_valid]

/-- Behind the last character, what has been passed since the last slash is the last part. -/
theorem splitOnAux_nil : splitOnAux (ofList (l ++ m ++ [])) "/" ⟨utf8Len l⟩
    ⟨utf8Len l + utf8Len m⟩ 0 parts = (ofList m :: parts).reverse := by
  have hpart := extract_of_valid l m []
  unfold splitOnAux
  rw [if_pos (atEnd_iff_nil.mpr rfl)]
  dsimp only
  rw [hpart]

/-- At a slash, what has been passed since the last one is a part. -/
theorem splitOnAux_cons_slash : splitOnAux (ofList (l ++ m ++ '/' :: r)) "/" ⟨utf8Len l⟩
    ⟨utf8Len l + utf8Len m⟩ 0 parts =
      splitOnAux (ofList (l ++ m ++ '/' :: r)) "/" ⟨utf8Len l + utf8Len m + 1⟩
        ⟨utf8Len l + utf8Len m + 1⟩ 0 (ofList m :: parts) := by
  have hpart : Pos.Raw.extract (ofList (l ++ m ++ '/' :: r)) ⟨utf8Len l⟩
      (Pos.Raw.unoffsetBy ⟨utf8Len l + utf8Len m + 1⟩ ⟨1⟩) = ofList m :=
    extract_of_valid l m ('/' :: r)
  conv_lhs => unfold splitOnAux
  rw [if_neg (mt atEnd_iff_nil.mp (List.cons_ne_nil _ r)), get_behind,
    show Pos.Raw.get "/" 0 = '/' by decide, show Pos.Raw.next "/" 0 = ⟨1⟩ by decide,
    if_pos (by decide)]
  dsimp only
  rw [if_pos (by decide), next_behind, show '/'.utf8Size = 1 from rfl, hpart]

/-- Any other character is passed. -/
theorem splitOnAux_cons_of_ne (hc : c ≠ '/') : splitOnAux (ofList (l ++ m ++ c :: r)) "/"
    ⟨utf8Len l⟩ ⟨utf8Len l + utf8Len m⟩ 0 parts =
      splitOnAux (ofList (l ++ m ++ c :: r)) "/" ⟨utf8Len l⟩
        ⟨utf8Len l + utf8Len m + c.utf8Size⟩ 0 parts := by
  conv_lhs => unfold splitOnAux
  rw [if_neg (mt atEnd_iff_nil.mp (List.cons_ne_nil _ r)), get_behind,
    show Pos.Raw.get "/" 0 = '/' by decide, if_neg (by simpa using hc)]
  show splitOnAux _ "/" _ (Pos.Raw.next _ ⟨utf8Len l + utf8Len m⟩) 0 parts = _
  rw [next_behind]

/-- What is left to split is `m`, which holds no slash, and `r`; `l` has been split into `parts`. -/
theorem splitOnAux_slash (l m r : List Char) (parts : List String) :
    splitOnAux (ofList (l ++ m ++ r)) "/" ⟨utf8Len l⟩ ⟨utf8Len l + utf8Len m⟩ 0 parts =
      parts.reverse ++ (List.splitOnPPrepend (· == '/') r m.reverse).map ofList := by
  induction r generalizing l m parts with
  | nil =>
    rw [splitOnAux_nil, List.reverse_cons, List.splitOnPPrepend, List.reverse_reverse]
    rfl
  | cons c r ih =>
    rw [List.splitOnPPrepend_cons_eq_if]
    by_cases hc : c = '/'
    · -- the next part begins behind the slash
      subst hc
      have hstart : utf8Len (l ++ m ++ ['/']) = utf8Len l + utf8Len m + 1 := by
        rw [utf8Len_append, utf8Len_append]
        rfl
      have hrest := ih (l ++ m ++ ['/']) [] (ofList m :: parts)
      rw [hstart, utf8Len_nil, Nat.add_zero, List.append_nil, List.append_assoc (l ++ m),
        List.singleton_append] at hrest
      rw [splitOnAux_cons_slash, hrest, if_pos (by decide), List.map_cons, List.reverse_reverse,
        List.reverse_cons, List.append_assoc]
      rfl
    · have hstop : utf8Len (m ++ [c]) = utf8Len m + c.utf8Size := by
        rw [utf8Len_append, utf8Len_cons, utf8Len_nil, Nat.zero_add]
      have hrest := ih l (m ++ [c]) parts
      rw [hstop, ← Nat.add_assoc, ← List.append_assoc, List.append_assoc (l ++ m),
        List.singleton_append, List.reverse_append, List.reverse_singleton,
        List.singleton_append] at hrest
      rw [splitOnAux_cons_of_ne hc, hrest, if_neg (by simpa using hc)]

end Split

/-- A text is split at its slashes as its characters are. -/
theorem splitOn_slash (s : String) : s.splitOn "/" = (s.toList.splitOn '/').map ofList := by
  have h := splitOnAux_slash [] [] s.toList []
  rw [List.nil_append, List.nil_append, ofList_toList] at h
  exact h

theorem endsWith_slash_iff {s : String} : s.endsWith "/" = true ↔ ['/'] <:+ s.toList := by
  have h : s.toSlice.endsWith "/" = true ↔ "/".toList <:+ s.toSlice.copy.toList :=
    Slice.endsWith_string_iff
  rwa [copy_toSlice] at h

theorem startsWith_slash_iff {s : String} : s.startsWith "/" = true ↔ ['/'] <+: s.toList :=
  startsWith_string_iff

namespace Path

variable {dir name text : String}

/-! ## A name in a directory -/

/-- The name of something in a directory, as one that is no way to another directory. -/
structure Plain (name : String) : Prop where
  ne_nil : name.toList ≠ []
  noSlash : '/' ∉ name.toList
  ne_dot : name ≠ "."
  ne_dots : name ≠ ".."

theorem ofText_names (text : String) :
    (ofText text).names = ((text.toList.splitOn '/').map ofList).filter (· ≠ "") := by
  rw [ofText, splitOn_slash]

/-- A plain name is a path of its own. -/
theorem ofText_plain (hname : Plain name) : ofText name = ⟨false, [name], false⟩ := by
  have hstart : name.startsWith "/" = false := by
    refine Bool.eq_false_iff.mpr fun h => hname.noSlash ?_
    exact (startsWith_slash_iff.mp h).subset (List.mem_singleton_self _)
  have hend : name.endsWith "/" = false := by
    refine Bool.eq_false_iff.mpr fun h => hname.noSlash ?_
    exact (endsWith_slash_iff.mp h).subset (List.mem_singleton_self _)
  have hnames : name.splitOn "/" = [name] := by
    rw [splitOn_slash, List.splitOn_eq_singleton hname.noSlash, List.map_singleton, ofList_toList]
  have hne : name ≠ "" := fun heq => hname.ne_nil (congrArg toList heq)
  rw [ofText, hstart, hend, hnames, List.filter_cons_of_pos (by simpa using hne), List.filter_nil]

/-- Behind a slash there is one more name. -/
theorem names_of_slash {before : List Char} (hname : Plain name)
    (h : text.toList = before ++ '/' :: name.toList) : (ofText text).names =
      ((before.splitOn '/').map ofList).filter (· ≠ "") ++ [name] := by
  have hne : name ≠ "" := fun heq => hname.ne_nil (congrArg toList heq)
  have hkept : [name].filter (· ≠ "") = [name] := by
    rw [List.filter_cons_of_pos (by simpa using hne), List.filter_nil]
  rw [ofText_names, h, List.splitOn_append_cons_self, List.splitOn_eq_singleton hname.noSlash,
    List.map_append, List.filter_append, List.map_singleton, ofList_toList, hkept]

/-- The path of a name in a directory is the directory's, with the name behind it. -/
theorem names_join (hname : Plain name) :
    (ofText (join dir name)).names = (ofText dir).names ++ [name] := by
  unfold join
  split
  · next hslash =>
    obtain ⟨before, hbefore⟩ := endsWith_slash_iff.mp hslash
    have htext : (dir ++ name).toList = before ++ '/' :: name.toList := by
      rw [toList_append, ← hbefore, List.append_assoc, List.singleton_append]
    have hdir : (dir.toList.splitOn '/') = before.splitOn '/' ++ [[]] := by
      rw [← hbefore, List.splitOn_append_cons_self]
      rfl
    rw [names_of_slash hname htext, ofText_names, hdir, List.map_append, List.filter_append]
    congr 1
    exact (List.append_nil _).symm
  · have htext : (dir ++ "/" ++ name).toList = dir.toList ++ '/' :: name.toList := by
      rw [toList_append, toList_append, List.append_assoc]
      rfl
    rw [names_of_slash hname htext, ofText_names]

theorem toList_join (dir name : String) :
    ∃ between, (join dir name).toList = dir.toList ++ between ++ name.toList ∧
      between.length ≤ 1 := by
  unfold join
  split
  · exact ⟨[], by rw [toList_append, List.append_nil], Nat.zero_le 1⟩
  · exact ⟨['/'], by rw [toList_append, toList_append]; rfl, Nat.le_refl 1⟩

theorem absolute_join (hdir : dir ≠ "") :
    (ofText (join dir name)).absolute = (ofText dir).absolute := by
  obtain ⟨between, hjoin, -⟩ := toList_join dir name
  obtain ⟨first, rest, hfirst⟩ := List.exists_cons_of_ne_nil fun h => hdir (toList_inj.mp h)
  apply Bool.eq_iff_iff.mpr
  show (join dir name).startsWith "/" = true ↔ dir.startsWith "/" = true
  rw [startsWith_slash_iff, startsWith_slash_iff, hjoin, hfirst]
  simp only [List.cons_append, List.cons_prefix_cons, List.nil_prefix]

/-- The path does not end with a slash. -/
theorem closed_join (hname : Plain name) : (ofText (join dir name)).closed = false := by
  obtain ⟨between, hjoin, -⟩ := toList_join dir name
  apply Bool.eq_false_iff.mpr
  intro hclosed
  obtain ⟨before, hbefore⟩ := endsWith_slash_iff.mp hclosed
  have hlast := congrArg List.getLast? hbefore
  rw [hjoin, List.getLast?_concat, List.getLast?_append_of_ne_nil _ hname.ne_nil] at hlast
  exact hname.noSlash (List.mem_of_getLast? hlast.symm)

end Path
end ChipReplay.CommandLine
