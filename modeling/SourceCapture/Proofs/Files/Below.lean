/-
Entries of a folder by their names. A name that is joined to the path of a folder is one more
segment after those of the path. So the place of the entry is the name in the folder to which
the path leads, and entries with different names are at different places.
-/

import SourceCapture.Proofs.Files.Changes

namespace SourceCapture

namespace Path

/-- Whether a text is the name of an entry when it is joined to a path: one segment that goes
neither up nor nowhere. -/
structure IsEntryName (name : String) : Prop where
  noSlash : '/' ∉ name.toList
  nonempty : name.toList ≠ []
  notDot : name.toList ≠ ['.']
  notDots : name.toList ≠ ['.', '.']

/-- The segments of a path that stand before a name joined to it. -/
def segmentsBefore (path : Path) : List (List Char) :=
  if path.text.isEmpty || path.text.toList.getLast? = some '/' then
    (path.text.toList.splitOn '/').dropLast
  else path.text.toList.splitOn '/'

variable {path : Path} {name other : String}

theorem head?_ne_of_not_mem (noSlash : '/' ∉ name.toList) : name.toList.head? ≠ some '/' :=
  fun slash => noSlash (List.mem_of_head? slash)

theorem IsEntryName.head?_ne (named : IsEntryName name) : name.toList.head? ≠ some '/' :=
  head?_ne_of_not_mem named.noSlash

theorem text_join (path : Path) (relative : name.toList.head? ≠ some '/') :
    (path.join name).text =
      if path.text.isEmpty || path.text.toList.getLast? = some '/' then path.text ++ name
      else path.text ++ "/" ++ name := by
  rw [join, if_neg relative]
  split
  · rfl
  · rfl

theorem splitOn_join (path : Path) (relative : name.toList.head? ≠ some '/') :
    (path.join name).text.toList.splitOn '/' = path.segmentsBefore ++ name.toList.splitOn '/' := by
  rw [text_join path relative, segmentsBefore]
  split
  case isTrue ends =>
    rw [String.toList_append]
    rw [Bool.or_eq_true, String.isEmpty_iff, decide_eq_true_iff] at ends
    rcases ends with empty | slash
    · rw [empty]
      rfl
    · obtain ⟨front, ended⟩ := List.getLast?_eq_some_iff.mp slash
      rw [ended, List.append_assoc, List.singleton_append, List.splitOn_append_cons_self,
        List.splitOn_append_cons_self, List.splitOn_nil, List.dropLast_concat]
  case isFalse =>
    rw [String.toList_append, String.toList_append, List.append_assoc]
    show List.splitOn '/' (path.text.toList ++ '/' :: name.toList) = _
    rw [List.splitOn_append_cons_self]

/-- Behind the segments before a joined name there is nothing more in a path than an end. -/
theorem exists_splitOn_eq (path : Path) : ∃ idle : List (List Char),
    path.text.toList.splitOn '/' = path.segmentsBefore ++ idle ∧ ∀ segment ∈ idle, segment = [] := by
  rw [segmentsBefore]
  split
  case isFalse => exact ⟨[], (List.append_nil _).symm, fun _ member => nomatch member⟩
  case isTrue ends =>
    refine ⟨[[]], ?_, fun segment member => List.mem_singleton.mp member⟩
    rw [Bool.or_eq_true, String.isEmpty_iff, decide_eq_true_iff] at ends
    rcases ends with empty | slash
    · rw [empty]
      rfl
    · obtain ⟨front, ended⟩ := List.getLast?_eq_some_iff.mp slash
      rw [ended, List.splitOn_append_cons_self, List.splitOn_nil, List.dropLast_concat]

theorem IsEntryName.splitOn_join (path : Path) (named : IsEntryName name) :
    (path.join name).text.toList.splitOn '/' = path.segmentsBefore ++ [name.toList] := by
  rw [Path.splitOn_join path named.head?_ne, List.splitOn_eq_singleton named.noSlash]

theorem isAbsolute_join (path : Path) (relative : name.toList.head? ≠ some '/') :
    (path.join name).isAbsolute = path.isAbsolute := by
  rw [isAbsolute, isAbsolute, text_join path relative]
  by_cases empty : path.text = ""
  · rw [empty]
    exact decide_eq_decide.mpr (iff_of_false relative (fun same => nomatch same))
  · have first : ∀ more : List Char, (path.text.toList ++ more).head? = path.text.toList.head? := by
      intro more
      rw [List.head?_append_of_ne_nil]
      exact fun nothing => empty (String.toList_eq_nil_iff.mp nothing)
    split
    · rw [String.toList_append, first]
    · rw [String.toList_append, String.toList_append, List.append_assoc, first]

theorem isAbsolute_join_of_isAbsolute {path : Path} (absolute : path.isAbsolute = true)
    (below : String) : (path.join below).isAbsolute = true := by
  by_cases slash : below.toList.head? = some '/'
  · rw [join, if_pos slash, isAbsolute, decide_eq_true_iff]
    exact slash
  · exact (isAbsolute_join path slash).trans absolute

/-- Different names have different paths, even where they are not names of entries. -/
theorem join_inj (path : Path) (relative : name.toList.head? ≠ some '/')
    (otherRelative : other.toList.head? ≠ some '/') (same : path.join name = path.join other) :
    name = other := by
  have texts := text_join path relative
  rw [same, text_join path otherRelative] at texts
  split at texts
  · exact ((String.append_right_inj _).mp texts).symm
  · exact ((String.append_right_inj _).mp texts).symm

end Path

namespace FileStore

variable {store : FileStore} {path : Path} {name : String}

theorem startOf_join (path : Path) (named : Path.IsEntryName name) :
    store.startOf (path.join name) = store.startOf path := by
  rw [startOf, startOf, Path.isAbsolute_join path named.head?_ne]

/-- The place of a name that is joined to a path is in a folder which only depends on the
path. -/
theorem exists_folder_of_join {spot : Spot} (named : Path.IsEntryName name)
    (located : store.locate (path.join name) = .ok spot) :
    ∃ around, store.Leads around ∧
      store.Follows [] (store.startOf path ++ path.segmentsBefore)
        (.taken (placeOf around) (store.folderOf around)) ∧
      spot.place = placeOf around ++ [name] := by
  obtain ⟨-, follows⟩ := (locate_eq_ok_iff _ spot).mp located
  rw [startOf_join path named, named.splitOn_join path, ← List.append_assoc] at follows
  obtain ⟨around, leads, first, place⟩ :=
    follows.exists_folder_of_concat leads_nil named.nonempty named.notDot named.notDots
  rw [String.ofList_toList] at place
  exact ⟨around, leads, first, place⟩

/-- Different names have different places. -/
theorem eq_of_place?_join {other : String} {place : Place} (named : Path.IsEntryName name)
    (otherNamed : Path.IsEntryName other) (here : store.place? (path.join name) = some place)
    (there : store.place? (path.join other) = some place) : name = other := by
  obtain ⟨entry, located⟩ := (place?_eq_some_iff _).mp here
  obtain ⟨otherEntry, otherLocated⟩ := (place?_eq_some_iff _).mp there
  obtain ⟨around, -, -, same⟩ := exists_folder_of_join named located
  obtain ⟨otherAround, -, -, otherSame⟩ := exists_folder_of_join otherNamed otherLocated
  have ends : placeOf around ++ [name] = placeOf otherAround ++ [other] := same.symm.trans otherSame
  obtain ⟨-, last⟩ := List.append_inj' ends rfl
  exact List.singleton_inj.mp last

/-- The segments of a path lead where those before a joined name lead. -/
theorem follows_segments {around : Trail} (rooted : store.Rooted) (leads : store.Leads around)
    (nonempty : path.text ≠ "")
    (follows : store.Follows [] (store.startOf path ++ path.segmentsBefore)
      (.taken (placeOf around) (store.folderOf around))) :
    store.Follows [] (store.startOf path ++ path.text.toList.splitOn '/')
      (.taken (placeOf around) (store.folderOf around)) := by
  rw [Path.segmentsBefore, String.isEmpty_eq_false_iff.mpr nonempty, Bool.false_or] at follows
  by_cases slash : path.text.toList.getLast? = some '/'
  · obtain ⟨front, ended⟩ := List.getLast?_eq_some_iff.mp slash
    rw [if_pos (decide_eq_true slash), ended, List.splitOn_append_cons_self, List.splitOn_nil,
      List.dropLast_concat] at follows
    obtain ⟨entries, folder⟩ := leads.hasFolder rooted
    rw [entryAt?_placeOf leads] at folder
    rw [Option.some.inj folder] at follows ⊢
    obtain ⟨last, leadsLast, same, further⟩ := follows.exists_trail_of_folder leads_nil
    have arrived := further [[]] _ (.stay (Or.inl rfl) (.arrived last))
    have here := (entryAt?_placeOf leadsLast).symm.trans (same ▸ entryAt?_placeOf leads)
    rw [same, Option.some.inj here, Option.some.inj folder] at arrived
    rw [ended, List.splitOn_append_cons_self, List.splitOn_nil, ← List.append_assoc]
    exact arrived
  · rw [if_neg fun holds => slash (of_decide_eq_true holds)] at follows
    exact follows

theorem faultOf?_of_join (nonempty : path.text ≠ "") (relative : name.toList.head? ≠ some '/')
    (faultless : faultOf? (path.join name) = none) : faultOf? path = none := by
  have starts : ∃ more, (path.join name).text = path.text ++ more := by
    rw [Path.text_join path relative]
    split
    · exact ⟨name, rfl⟩
    · exact ⟨"/" ++ name, String.append_assoc⟩
  obtain ⟨more, text⟩ := starts
  rw [faultOf?, text] at faultless
  split at faultless
  · cases faultless
  split at faultless
  · cases faultless
  split at faultless
  · cases faultless
  case isFalse noNul _ short =>
    rw [String.toList_append, List.contains_eq_mem, decide_eq_true_iff, List.mem_append,
      not_or] at noNul
    rw [String.utf8ByteSize_append, Nat.not_lt] at short
    rw [faultOf?, if_neg (by simpa using noNul.1), if_neg (by simpa using nonempty),
      if_neg (by omega)]

/-- A name that is joined to a path that is not empty is in the folder to which the path
leads. -/
theorem place?_of_join {place : Place} (rooted : store.Rooted) (nonempty : path.text ≠ "")
    (named : Path.IsEntryName name) (here : store.place? (path.join name) = some place) :
    ∃ around, store.place? path = some around ∧ place = around ++ [name] := by
  obtain ⟨entry, located⟩ := (place?_eq_some_iff _).mp here
  obtain ⟨around, leads, first, same⟩ := exists_folder_of_join named located
  refine ⟨placeOf around, (place?_eq_some_iff path).mpr ⟨store.folderOf around, ?_⟩, same⟩
  rw [locate_eq_ok_iff]
  refine ⟨faultOf?_of_join nonempty named.head?_ne ((locate_eq_ok_iff _ _).mp located).1, ?_⟩
  exact follows_segments rooted leads nonempty first

end FileStore

end SourceCapture
