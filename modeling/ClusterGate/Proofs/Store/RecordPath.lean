import ClusterGate.Proofs.Store.FileTree
import ClusterGate.Store.Files

/-!
# Paths of records

The file name of a record tells its name, also when this name ends in `.json` itself, and its path can
be used if kind and name are short enough.
-/

namespace ClusterGate.FileStore

open FileTree

/-- The kind makes a path below the root that file systems take. -/
structure KindFits (root kind : String) : Prop where
  isName : Path.IsName kind
  short : kind.utf8ByteSize ≤ Path.maxName
  path : (kindPath root kind).utf8ByteSize < Path.maxPath

/-- The kind and the name make a path below the root that file systems take. -/
structure Fits (root kind name : String) : Prop where
  isKind : Path.IsName kind
  shortKind : kind.utf8ByteSize ≤ Path.maxName
  nonempty : name ≠ ""
  noSlash : '/' ∉ name.toList
  noZero : '\x00' ∉ name.toList
  short : name.utf8ByteSize + 5 ≤ Path.maxName
  path : (recordPath root kind name).utf8ByteSize < Path.maxPath

variable {root kind name file : String}

theorem toList_file (name : String) : (name ++ ".json").toList = name.toList ++ ".json".toList :=
  String.toList_append

theorem recordName?_file (h : name ≠ "") : recordName? (name ++ ".json") = some name := by
  have hstem : name.toList.reverse ≠ [] := by
    rw [Ne, List.reverse_eq_nil_iff]
    exact fun hnil => h (String.toList_eq_nil_iff.mp hnil)
  have hreverse : (name ++ ".json").toList.reverse =
      'n' :: 'o' :: 's' :: 'j' :: '.' :: name.toList.reverse := by
    rw [toList_file, List.reverse_append]
    rfl
  rw [recordName?, hreverse]
  simp only
  rw [if_neg hstem, List.reverse_reverse, String.ofList_toList]

theorem recordName?_eq_some :
    recordName? file = some name ↔ name ≠ "" ∧ file = name ++ ".json" := by
  constructor
  · intro h
    unfold recordName? at h
    split at h
    next stem hreverse =>
      split at h
      next => cases h
      next hstem =>
        cases h
        have hfile : file.toList = stem.reverse ++ ['.', 'j', 's', 'o', 'n'] := by
          rw [← List.reverse_reverse file.toList, hreverse]
          simp
        refine ⟨?_, ?_⟩
        · intro hempty
          exact hstem (by simpa using congrArg String.toList hempty)
        · rw [← String.toList_inj, hfile, toList_file, String.toList_ofList]
          rfl
    next => cases h
  · rintro ⟨h, rfl⟩
    exact recordName?_file h

theorem size_file (name : String) : (name ++ ".json").utf8ByteSize = name.utf8ByteSize + 5 :=
  String.utf8ByteSize_append

theorem isName_file (hnonempty : name ≠ "") (hslash : '/' ∉ name.toList)
    (hzero : '\x00' ∉ name.toList) : Path.IsName (name ++ ".json") := by
  have hlength : 5 < (name ++ ".json").toList.length := by
    have hpos := List.length_pos_iff.mpr fun hnil => hnonempty (String.toList_eq_nil_iff.mp hnil)
    rw [toList_file, List.length_append]
    change 5 < name.toList.length + 5
    omega
  have hshorter : ∀ text : String, text.toList.length ≤ 5 → name ++ ".json" ≠ text := by
    rintro text htext rfl
    omega
  constructor
  case nonempty => exact hshorter "" (by decide)
  case noSlash =>
    rw [toList_file, List.mem_append]
    exact not_or.mpr ⟨hslash, by decide⟩
  case noZero =>
    rw [toList_file, List.mem_append]
    exact not_or.mpr ⟨hzero, by decide⟩
  case notHere => exact hshorter "." (by decide)
  case notUp => exact hshorter ".." (by decide)

theorem Fits.isName (h : Fits root kind name) : Path.IsName (name ++ ".json") :=
  isName_file h.nonempty h.noSlash h.noZero

theorem Fits.kindFits (h : Fits root kind name) : KindFits root kind :=
  ⟨h.isKind, h.shortKind, Nat.lt_of_le_of_lt (Path.size_le_join _ h.isName) h.path⟩

theorem checkPath_join {base : String} (h : Path.IsName name) (hbase : '\x00' ∉ base.toList) :
    checkPath (Path.join base name) =
      if Path.maxPath ≤ (Path.join base name).utf8ByteSize then .error .tooLong else .ok () := by
  have hzero : (Path.join base name).toList.contains '\x00' = false := by
    simpa using Path.zero_not_mem_join h hbase
  rw [checkPath, hzero, if_neg Bool.false_ne_true, if_neg (Path.join_ne_empty base h)]

theorem KindFits.checkPath (h : KindFits root kind) (hroot : '\x00' ∉ root.toList) :
    checkPath (kindPath root kind) = .ok () := by
  rw [kindPath, checkPath_join h.isName hroot]
  exact if_neg (Nat.not_le.mpr h.path)

theorem Fits.checkPath (h : Fits root kind name) (hroot : '\x00' ∉ root.toList) :
    checkPath (recordPath root kind name) = .ok () := by
  have hzero : '\x00' ∉ (kindPath root kind).toList := Path.zero_not_mem_join h.isKind hroot
  rw [recordPath, checkPath_join h.isName hzero]
  exact if_neg (Nat.not_le.mpr h.path)

/-- A file name that is too long is refused, whether or not its path is too long as well. -/
theorem write_tooLong {t : FileTree} {base : String} {place : Place} {entries : Dict FileNode}
    (hleads : t.LeadsTo base place) (hdirectory : t.top.at? place = some (.dir entries))
    (hname : Path.IsName file) (hbase : '\x00' ∉ base.toList)
    (hlong : Path.maxName < file.utf8ByteSize) (content : List UInt8) :
    t.write (Path.join base file) content = .error .tooLong := by
  have hnew : t.locateNew (Path.join base file) = .error .tooLong := by
    by_cases hpath : Path.maxPath ≤ (Path.join base file).utf8ByteSize
    · rw [locateNew, checkPath_join hname hbase, if_pos hpath]
      rfl
    · have hok := checkPath_join hname hbase
      rw [if_neg hpath] at hok
      rw [locateNew_directory hleads hdirectory hname hok, if_pos hlong]
  rw [write, hnew]
  rfl

end ClusterGate.FileStore
