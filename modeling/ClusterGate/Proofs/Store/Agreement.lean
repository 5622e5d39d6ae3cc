import ClusterGate.Proofs.Store.Content
import ClusterGate.Proofs.Store.FileTree
import ClusterGate.Proofs.Store.Place
import ClusterGate.Proofs.Store.RecordPath

/-!
# Files and memory hold the same records

Records that are put into files below an empty directory are listed and got as those that are put into
memory: of each kind and name the last one. Main statement: `stores_agree`.

The files follow the memory record by record (`put_mirrors`): the directory of a kind holds, for each
of the kind's names, the file with the last text.
-/

namespace ClusterGate

/-! ### Records in memory -/

namespace MemoryStore

variable {s : MemoryStore} {r : Record} {kind name : String} {records : List Record}

/-- The memory after several records were stored. -/
def ofRecords (records : List Record) : MemoryStore := records.foldl insert {}

def last? (records : List Record) (kind name : String) : Option Record :=
  records.reverse.find? fun r => r.kind == kind && r.name == name

theorem ofKind_insert_self :
    (s.insert r).ofKind r.kind = (s.ofKind r.kind).insert r.name r := by
  rw [ofKind, insert, Dict.get?_insert_self]
  rfl

theorem ofKind_insert_of_ne (h : kind ≠ r.kind) : (s.insert r).ofKind kind = s.ofKind kind := by
  rw [ofKind, insert, Dict.get?_insert_of_ne _ _ h, ofKind]

theorem get?_insert (kind name : String) :
    (s.insert r).get? kind name =
      if r.kind = kind ∧ r.name = name then some r else s.get? kind name := by
  by_cases hkind : kind = r.kind
  · subst hkind
    by_cases hname : name = r.name
    · subst hname
      rw [get?, ofKind_insert_self, Dict.get?_insert_self, if_pos ⟨rfl, rfl⟩]
    · rw [get?, ofKind_insert_self, Dict.get?_insert_of_ne _ _ hname,
        if_neg fun h => hname h.2.symm, get?]
  · rw [get?, ofKind_insert_of_ne hkind, if_neg fun h => hkind h.1.symm, get?]

theorem ofRecords_concat (records : List Record) (r : Record) :
    ofRecords (records ++ [r]) = (ofRecords records).insert r := List.foldl_concat ..

theorem last?_concat (records : List Record) (r : Record) (kind name : String) :
    last? (records ++ [r]) kind name =
      if r.kind = kind ∧ r.name = name then some r else last? records kind name := by
  rw [last?, List.reverse_concat]
  by_cases h : r.kind = kind ∧ r.name = name
  · rw [if_pos h, List.find?_cons_of_pos (by simpa using h)]
  · rw [if_neg h, List.find?_cons_of_neg (by simpa using h), last?]

theorem get?_ofRecords (records : List Record) (kind name : String) :
    (ofRecords records).get? kind name = last? records kind name := by
  induction records using List.reverseRecOn with
  | nil => rfl
  | append_singleton records r ih => rw [ofRecords_concat, get?_insert, ih, last?_concat]

theorem sorted_ofRecords (records : List Record) (kind : String) :
    ((ofRecords records).ofKind kind).Sorted := by
  induction records using List.reverseRecOn with
  | nil => exact List.Pairwise.nil
  | append_singleton records r ih =>
    rw [ofRecords_concat]
    by_cases hkind : kind = r.kind
    · subst hkind
      rw [ofKind_insert_self]
      exact Dict.sorted_insert ih
    · rw [ofKind_insert_of_ne hkind]
      exact ih

theorem of_last? (h : last? records kind name = some r) :
    r.kind = kind ∧ r.name = name ∧ r ∈ records := by
  have hfound := List.find?_some h
  rw [Bool.and_eq_true, beq_iff_eq, beq_iff_eq] at hfound
  exact ⟨hfound.1, hfound.2, List.mem_reverse.mp (List.mem_of_find?_eq_some h)⟩

theorem mem_ofKind (records : List Record) (kind name : String) (r : Record) :
    (name, r) ∈ (ofRecords records).ofKind kind ↔ last? records kind name = some r := by
  rw [← Dict.get?_eq_some_iff (sorted_ofRecords records kind), ← get?_ofRecords, get?]

theorem mem_list (records : List Record) (kind : String) (r : Record) :
    r ∈ (ofRecords records).list kind ↔ last? records kind r.name = some r := by
  rw [list, List.mem_map]
  constructor
  · rintro ⟨⟨name, r'⟩, hmem, rfl⟩
    have hlast := (mem_ofKind records kind name r').mp hmem
    obtain ⟨_, rfl, _⟩ := of_last? hlast
    exact hlast
  · intro hlast
    exact ⟨(r.name, r), (mem_ofKind records kind r.name r).mpr hlast, rfl⟩

theorem names_list (records : List Record) (kind : String) :
    ((ofRecords records).list kind).map Record.name = ((ofRecords records).ofKind kind).keys := by
  rw [list, List.map_map, Dict.keys]
  refine List.map_congr_left ?_
  rintro ⟨name, r⟩ hmem
  exact (of_last? ((mem_ofKind records kind name r).mp hmem)).2.1

end MemoryStore

/-! ### One record more -/

namespace FileStore

open FileTree

variable {root kind name : String} {place : Place} {t : FileTree} {files : Dict FileNode}
  {held : Dict Record} {r : Record}

/-- The files are those of the records. -/
def Holds (files : Dict FileNode) (held : Dict Record) : Prop :=
  ∀ file, Dict.get? file files = (recordName? file).bind fun name =>
    (Dict.get? name held).map fun r => .file (Text.bytes (textOf r))

theorem holds_nil : Holds [] [] := by
  intro file
  cases recordName? file <;> rfl

theorem Holds.file (h : Holds files held) (hname : name ≠ "") :
    Dict.get? (name ++ ".json") files =
      (Dict.get? name held).map fun r => .file (Text.bytes (textOf r)) := by
  rw [h, recordName?_file hname, Option.bind_some]

theorem Holds.names (h : Holds files held) (hheld : held.Sorted) (hnames : ∀ name ∈ held.keys, name ≠ "") :
    sortedSet ((Dict.keys files).filterMap recordName?) = held.keys := by
  have hfile : ∀ name, name ≠ "" → (name ++ ".json" ∈ Dict.keys files ↔ name ∈ held.keys) := by
    intro name hname
    rw [← not_iff_not, ← Dict.get?_eq_none_iff, ← Dict.get?_eq_none_iff, h.file hname,
      Option.map_eq_none_iff]
  refine Dict.eq_of_ascending (sortedSet_sorted _) (Dict.sorted_iff_keys.mp hheld) fun name => ?_
  rw [mem_sortedSet, List.mem_filterMap]
  constructor
  · rintro ⟨file, hmem, hfound⟩
    obtain ⟨hname, rfl⟩ := recordName?_eq_some.mp hfound
    exact (hfile name hname).mp hmem
  · intro hmem
    have hname := hnames name hmem
    exact ⟨name ++ ".json", (hfile name hname).mpr hmem, recordName?_file hname⟩

theorem Holds.insert (h : Holds files held) (hname : r.name ≠ "") :
    Holds (Dict.insert (r.name ++ ".json") (.file (Text.bytes (textOf r))) files)
      (Dict.insert r.name r held) := by
  intro file
  by_cases hfile : file = r.name ++ ".json"
  · rw [hfile, Dict.get?_insert_self, recordName?_file hname, Option.bind_some,
      Dict.get?_insert_self, Option.map_some]
  · rw [Dict.get?_insert_of_ne _ _ hfile, h]
    cases hfound : recordName? file with
    | none => rfl
    | some name =>
      have hne : name ≠ r.name := by
        rintro rfl
        exact hfile (recordName?_eq_some.mp hfound).2
      rw [Option.bind_some, Option.bind_some, Dict.get?_insert_of_ne _ _ hne]

/-- Below the root there are the files of the records in memory. -/
structure Mirrors (root : String) (place : Place) (t : FileTree) (m : MemoryStore) : Prop where
  leads : t.LeadsTo root place
  below : ∃ kinds, t.top.at? place = some (.dir kinds) ∧ ∀ kind,
    (Dict.get? kind kinds = none ∧ m.ofKind kind = []) ∨
      ∃ files, Dict.get? kind kinds = some (.dir files) ∧ Holds files (m.ofKind kind)

variable {m : MemoryStore} {kinds : Dict FileNode}

section Below

variable (hroot : '\x00' ∉ root.toList) (hleads : t.LeadsTo root place)
  (hplace : t.top.at? place = some (.dir kinds))
include hroot hleads hplace

theorem inRoot (hkind : KindFits root kind) : t.InDirectory root kind place kinds where
  leads := hleads
  directory := hplace
  isName := hkind.isName
  short := hkind.short
  path := hkind.checkPath hroot

theorem leadsTo_kind (hkind : KindFits root kind)
    (hfiles : Dict.get? kind kinds = some (.dir files)) :
    t.LeadsTo (kindPath root kind) (place ++ [kind]) ∧
      t.top.at? (place ++ [kind]) = some (.dir files) := by
  have hdirectory := inRoot hroot hleads hplace hkind
  exact ⟨hdirectory.leadsTo hfiles, hdirectory.at?_name.trans hfiles⟩

theorem inKind (hfits : Fits root kind name) (hfiles : Dict.get? kind kinds = some (.dir files)) :
    t.InDirectory (kindPath root kind) (name ++ ".json") (place ++ [kind]) files where
  leads := (leadsTo_kind hroot hleads hplace hfits.kindFits hfiles).1
  directory := (leadsTo_kind hroot hleads hplace hfits.kindFits hfiles).2
  isName := hfits.isName
  short := by
    rw [size_file]
    exact hfits.short
  path := hfits.checkPath hroot

end Below

/-- Something is put into the directory of a kind, or this directory is made. -/
theorem Mirrors.put {m' : MemoryStore} (h : Mirrors root place t m) (more : Place) (new : FileNode)
    (hplace : t.top.at? place = some (.dir kinds))
    (hput : (FileNode.dir kinds).put more new = .dir (Dict.insert kind (.dir files) kinds))
    (hold : ∀ old, Dict.get? kind kinds = some old → FileNode.Extends old (.dir files))
    (hholds : Holds files (m'.ofKind kind))
    (hother : ∀ other, other ≠ kind → m'.ofKind other = m.ofKind other) :
    Mirrors root place { t with top := t.top.put (place ++ more) new } m' ∧
      (t.top.put (place ++ more) new).at? place =
        some (.dir (Dict.insert kind (.dir files) kinds)) := by
  have hafter : (t.top.put (place ++ more) new).at? place =
      some (.dir (Dict.insert kind (.dir files) kinds)) := by
    rw [FileNode.at?_put_append hplace, hput]
  have hextends : FileNode.Extends t.top (t.top.put (place ++ more) new) := by
    refine FileNode.extends_put_append hplace ?_
    rw [hput]
    exact FileNode.extends_insert hold
  refine ⟨⟨h.leads.extends hextends rfl, _, hafter, fun other => ?_⟩, hafter⟩
  by_cases hkind : other = kind
  · subst hkind
    exact Or.inr ⟨files, Dict.get?_insert_self _ _ _, hholds⟩
  · obtain ⟨kinds', hplace', hkinds⟩ := h.below
    cases hplace.symm.trans hplace'
    rw [Dict.get?_insert_of_ne _ _ hkind, hother other hkind]
    exact hkinds other

theorem ensureDir_mirrors (h : Mirrors root place t m) (hroot : '\x00' ∉ root.toList)
    (hkind : KindFits root kind) :
    ∃ t' kinds files, t.ensureDir (kindPath root kind) = (t', .ok ()) ∧ Mirrors root place t' m ∧
      t'.top.at? place = some (.dir kinds) ∧ Dict.get? kind kinds = some (.dir files) ∧
      Holds files (m.ofKind kind) := by
  obtain ⟨kinds, hplace, hkinds⟩ := h.below
  have hdirectory := inRoot hroot h.leads hplace hkind
  rcases hkinds kind with ⟨hnone, hempty⟩ | ⟨files, hfiles, hholds⟩
  · have hholds : Holds [] (m.ofKind kind) := hempty ▸ holds_nil
    obtain ⟨hmirrors, hafter⟩ := h.put [kind] (.dir []) hplace rfl
      (fun old hold => nomatch hnone.symm.trans hold) hholds fun _ _ => rfl
    exact ⟨_, _, [], hdirectory.ensureDir_new hnone, hmirrors, hafter, Dict.get?_insert_self _ _ _,
      hholds⟩
  · exact ⟨t, kinds, files, hdirectory.ensureDir_old hfiles, h, hplace, hfiles, hholds⟩

/-- A record is put into its file as it is put into memory. -/
theorem put_mirrors (h : Mirrors root place t m) (hroot : '\x00' ∉ root.toList)
    (hfits : Fits root r.kind r.name) :
    ∃ t', put root t r = (t', .ok ()) ∧ Mirrors root place t' (m.insert r) := by
  -- first the directory of the kind is there, then the file is put into it
  obtain ⟨t', kinds, files, hensure, h', hplace, hfiles, hholds⟩ :=
    ensureDir_mirrors h hroot hfits.kindFits
  have hdirectory := inKind hroot h'.leads hplace hfits hfiles
  have hfile : ∀ inside, Dict.get? (r.name ++ ".json") files ≠ some (.dir inside) := by
    intro inside hdir
    rw [hholds.file hfits.nonempty] at hdir
    obtain ⟨_, _, hnode⟩ := Option.map_eq_some_iff.mp hdir
    cases hnode
  have hheld := hholds.insert (r := r) hfits.nonempty
  rw [← MemoryStore.ofKind_insert_self] at hheld
  have hput : (FileNode.dir kinds).put [r.kind, r.name ++ ".json"]
      (.file (Text.bytes (textOf r))) = .dir (Dict.insert r.kind (.dir (Dict.insert (r.name ++ ".json")
        (.file (Text.bytes (textOf r))) files)) kinds) := by
    rw [FileNode.put, hfiles]
    rfl
  have hold : ∀ old, Dict.get? r.kind kinds = some old → FileNode.Extends old
      (.dir (Dict.insert (r.name ++ ".json") (.file (Text.bytes (textOf r))) files)) := by
    intro old hold
    obtain rfl := Option.some.inj (hfiles.symm.trans hold)
    refine FileNode.extends_insert fun node hnode => ?_
    cases node with
    | file content => exact FileNode.extends_file _ _
    | dir inside => exact absurd hnode (hfile inside)
  obtain ⟨hmirrors, _⟩ := h'.put [r.kind, r.name ++ ".json"] (.file (Text.bytes (textOf r))) hplace
    hput hold hheld fun other hne => MemoryStore.ofKind_insert_of_ne hne
  have hwrite := hdirectory.write_join (Text.bytes (textOf r)) hfile
  rw [List.append_assoc] at hwrite
  refine ⟨_, ?_, hmirrors⟩
  have hcontent : (textOf r).toUTF8.toList = Text.bytes (textOf r) := rfl
  rw [put, hensure]
  simp only [recordPath, hcontent, hwrite]
  rfl

/-- A name that is too long for a file is refused, and the records stay as they were. -/
theorem put_tooLong (h : Mirrors root place t m) (hroot : '\x00' ∉ root.toList)
    (hkind : KindFits root r.kind) (hname : Path.IsName (r.name ++ ".json"))
    (hlong : Path.maxName < r.name.utf8ByteSize + 5) :
    ∃ t', put root t r = (t', .error (ioError .tooLong)) ∧ Mirrors root place t' m := by
  obtain ⟨t', kinds, files, hensure, h', hplace, hfiles, -⟩ := ensureDir_mirrors h hroot hkind
  obtain ⟨hleads, hdirectory⟩ := leadsTo_kind hroot h'.leads hplace hkind hfiles
  have hzero := Path.zero_not_mem_join hkind.isName hroot
  rw [← size_file] at hlong
  have hwrite := write_tooLong hleads hdirectory hname hzero hlong (textOf r).toUTF8.toList
  refine ⟨t', ?_, h'⟩
  rw [put, hensure]
  simp only [recordPath, hwrite]

/-! ### What is read -/

/-- The record can be stored below the root. -/
structure Storable (root : String) (r : Record) : Prop where
  fits : Fits root r.kind r.name
  writable : r.Writable

theorem find_mirrors (h : Mirrors root place t m) (hroot : '\x00' ∉ root.toList)
    (hfits : Fits root kind name) :
    t.find (recordPath root kind name) =
      match m.get? kind name with
      | some r => .ok (.file (Text.bytes (textOf r)))
      | none => .error .missing := by
  obtain ⟨kinds, hplace, hkinds⟩ := h.below
  rcases hkinds kind with ⟨hnone, hempty⟩ | ⟨files, hfiles, hholds⟩
  · rw [MemoryStore.get?, hempty]
    exact (inRoot hroot h.leads hplace hfits.kindFits).find_below_none hnone hfits.isName
      (hfits.checkPath hroot)
  · rw [recordPath, (inKind hroot h.leads hplace hfits hfiles).find_join,
      hholds.file hfits.nonempty, MemoryStore.get?]
    cases Dict.get? name (m.ofKind kind) <;> rfl

variable {records : List Record}

theorem storable_of_get? (hrecords : ∀ r ∈ records, Storable root r)
    (hget : (MemoryStore.ofRecords records).get? kind name = some r) :
    r.kind = kind ∧ r.name = name ∧ Storable root r := by
  rw [MemoryStore.get?_ofRecords] at hget
  obtain ⟨hkind, hname, hmem⟩ := MemoryStore.of_last? hget
  exact ⟨hkind, hname, hrecords r hmem⟩

theorem get_mirrors (h : Mirrors root place t (MemoryStore.ofRecords records))
    (hroot : '\x00' ∉ root.toList) (hrecords : ∀ r ∈ records, Storable root r)
    (hfits : Fits root kind name) :
    get root t kind name = .ok ((MemoryStore.ofRecords records).get? kind name) := by
  have hfind := find_mirrors h hroot hfits
  unfold get FileTree.read
  rw [hfind]
  cases hget : (MemoryStore.ofRecords records).get? kind name with
  | none => rfl
  | some r =>
    obtain ⟨rfl, rfl, hstorable⟩ := storable_of_get? hrecords hget
    change (decode r.kind r.name (Text.bytes (textOf r))).map some = _
    rw [decode_textOf hstorable.writable]
    rfl

theorem recordNames_mirrors (h : Mirrors root place t (MemoryStore.ofRecords records))
    (hroot : '\x00' ∉ root.toList) (hrecords : ∀ r ∈ records, Storable root r)
    (hkind : KindFits root kind) :
    recordNames root t kind = .ok (((MemoryStore.ofRecords records).ofKind kind).keys) := by
  obtain ⟨kinds, hplace, hkinds⟩ := h.below
  have hfind := (inRoot hroot h.leads hplace hkind).find_join
  rcases hkinds kind with ⟨hnone, hempty⟩ | ⟨files, hfiles, hholds⟩
  · rw [hnone] at hfind
    unfold recordNames FileTree.names kindPath
    rw [hfind, hempty]
    rfl
  · have hnames : ∀ name ∈ ((MemoryStore.ofRecords records).ofKind kind).keys, name ≠ "" := by
      intro name hmem
      obtain ⟨r, hr⟩ := Dict.mem_keys_iff.mp hmem
      have hget := (Dict.get?_eq_some_iff (MemoryStore.sorted_ofRecords records kind)).mpr hr
      obtain ⟨_, rfl, hstorable⟩ := storable_of_get? hrecords hget
      exact hstorable.fits.nonempty
    rw [hfiles] at hfind
    unfold recordNames FileTree.names kindPath
    rw [hfind]
    change Except.ok (sortedSet _) = _
    rw [hholds.names (MemoryStore.sorted_ofRecords records kind) hnames]

theorem list_mirrors (h : Mirrors root place t (MemoryStore.ofRecords records))
    (hroot : '\x00' ∉ root.toList) (hrecords : ∀ r ∈ records, Storable root r)
    (hkind : KindFits root kind) :
    list root t kind = .ok ((MemoryStore.ofRecords records).list kind) := by
  rw [list, recordNames_mirrors h hroot hrecords hkind, MemoryStore.list, Dict.keys]
  refine mapM_eq_ok_iff.mpr ?_
  rw [List.forall₂_map_left_iff, List.forall₂_map_right_iff, List.forall₂_same]
  rintro ⟨name, r⟩ hmem
  have hget := (Dict.get?_eq_some_iff (MemoryStore.sorted_ofRecords records kind)).mpr hmem
  obtain ⟨rfl, rfl, hstorable⟩ := storable_of_get? hrecords hget
  refine get_eq_some_iff.mp ?_
  rw [get_mirrors h hroot hrecords hstorable.fits]
  exact congrArg Except.ok hget

/-! ### Any number of records -/

def putAll (root : String) : FileTree → List Record → Except StorageError FileTree
  | t, [] => .ok t
  | t, r :: rest => match put root t r with
    | (t, .ok ()) => putAll root t rest
    | (_, .error e) => .error e

theorem putAll_mirrors (h : Mirrors root place t (MemoryStore.ofRecords records))
    (hroot : '\x00' ∉ root.toList) {more : List Record} (hmore : ∀ r ∈ more, Storable root r) :
    ∃ t', putAll root t more = .ok t' ∧
      Mirrors root place t' (MemoryStore.ofRecords (records ++ more)) := by
  induction more generalizing t records with
  | nil =>
    rw [List.append_nil]
    exact ⟨t, rfl, h⟩
  | cons r rest ih =>
    obtain ⟨hr, hrest⟩ := List.forall_mem_cons.mp hmore
    obtain ⟨t₁, hput, h₁⟩ := put_mirrors h hroot hr.fits
    rw [← MemoryStore.ofRecords_concat] at h₁
    obtain ⟨t', hputs, h'⟩ := ih h₁ hrest
    rw [List.append_assoc, List.singleton_append] at h'
    refine ⟨t', ?_, h'⟩
    unfold putAll
    rw [hput]
    exact hputs

/-- The path leads to an empty directory. -/
def IsEmptyRoot (root : String) (t : FileTree) : Prop :=
  '\x00' ∉ root.toList ∧ ∃ place, t.LeadsTo root place ∧ t.top.at? place = some (.dir [])

/-- What the two stores answer, after the records were stored. -/
structure Agrees (root : String) (t : FileTree) (records : List Record) : Prop where
  list : ∀ kind, KindFits root kind →
    list root t kind = .ok ((MemoryStore.ofRecords records).list kind)
  get : ∀ kind name, Fits root kind name →
    get root t kind name = .ok ((MemoryStore.ofRecords records).get? kind name)
  /-- It is the last record of the kind and the name. -/
  last : ∀ kind name,
    (MemoryStore.ofRecords records).get? kind name = MemoryStore.last? records kind name
  /-- What is listed: the last record of the kind and any name. -/
  listed : ∀ kind r, r ∈ (MemoryStore.ofRecords records).list kind ↔
    MemoryStore.last? records kind r.name = some r
  /-- Each name once, in the order of the bytes. -/
  ascending : ∀ kind, (((MemoryStore.ofRecords records).list kind).map fun r =>
    Text.bytes r.name).Pairwise (· < ·)

/-- Records whose paths the file system takes are stored, and then files and memory give the same
answers about every kind and name of which it would take the path. -/
theorem stores_agree {root : String} {t : FileTree} {records : List Record}
    (hroot : IsEmptyRoot root t) (hrecords : ∀ r ∈ records, Storable root r) :
    ∃ t', putAll root t records = .ok t' ∧ Agrees root t' records := by
  obtain ⟨hzero, place, hleads, hempty⟩ := hroot
  have hmirrors : Mirrors root place t (MemoryStore.ofRecords []) :=
    ⟨hleads, [], hempty, fun _ => Or.inl ⟨rfl, rfl⟩⟩
  obtain ⟨t', hputs, h⟩ := putAll_mirrors hmirrors hzero hrecords
  rw [List.nil_append] at h
  refine ⟨t', hputs, ?_⟩
  constructor
  case list => exact fun kind hkind => list_mirrors h hzero hrecords hkind
  case get => exact fun kind name hfits => get_mirrors h hzero hrecords hfits
  case last => exact MemoryStore.get?_ofRecords records
  case listed => exact MemoryStore.mem_list records
  case ascending =>
    intro kind
    have hnames := Dict.sorted_iff_keys.mp (MemoryStore.sorted_ofRecords records kind)
    rw [← MemoryStore.names_list, List.pairwise_map] at hnames
    exact List.pairwise_map.mpr (hnames.imp Text.lt_iff_bytes.mp)

theorem isEmptyRoot_new : IsEmptyRoot "" {} := ⟨by decide, [], rfl, rfl⟩

/-- A record is stored, another one of its kind, and then the first one anew. -/
theorem stores_agree_replaced :
    let first : Record := { kind := "Release", name := "v1.0.0.json", spec := .arr [.int 1] }
    let second : Record := { kind := "Release", name := "..", labels := [("a", "b")] }
    let again : Record := { first with annotations := [("c", "\n")], spec := .obj [("x", .null)] }
    ∃ t', putAll "" {} [first, second, again] = .ok t' ∧ Agrees "" t' [first, second, again] ∧
      get "" t' "Release" "v1.0.0.json" = .ok (some again) := by
  intro first second again
  have hkind : Path.IsName "Release" := by constructor <;> decide
  have hfirst : Fits "" "Release" "v1.0.0.json" := by
    constructor
    case isKind => exact hkind
    all_goals decide
  have hsecond : Fits "" "Release" ".." := by
    constructor
    case isKind => exact hkind
    all_goals decide
  have hone : Json.IsWord 1 := by constructor <;> decide
  have hsingle : ∀ {α : Type} (e : String × α), Dict.Sorted [e] := List.pairwise_singleton _
  have hfirst' : first.Writable := ⟨.nil, .nil, ⟨trivial, trivial⟩, ⟨hone, trivial⟩, by decide⟩
  have hsecond' : second.Writable := ⟨hsingle _, .nil, trivial, trivial, by decide⟩
  have hagain' : again.Writable :=
    ⟨.nil, hsingle _, ⟨hsingle _, trivial, trivial⟩, ⟨trivial, trivial⟩, by decide⟩
  have hrecords : ∀ r ∈ [first, second, again], Storable "" r := by
    rw [List.forall_mem_cons, List.forall_mem_cons, List.forall_mem_singleton]
    exact ⟨⟨hfirst, hfirst'⟩, ⟨hsecond, hsecond'⟩, ⟨hfirst, hagain'⟩⟩
  obtain ⟨t', hputs, hagrees⟩ := stores_agree isEmptyRoot_new hrecords
  refine ⟨t', hputs, hagrees, ?_⟩
  rw [hagrees.get _ _ hfirst, hagrees.last]
  rfl

/-- A record with a name of 251 bytes is kept in memory, but not in a file. -/
theorem long_name_refused :
    let r := Record.release (String.ofList (List.replicate 251 'a'))
    (r.Writable ∧ Path.IsName r.kind ∧ r.name ≠ "" ∧ '/' ∉ r.name.toList ∧ '\x00' ∉ r.name.toList) ∧
      ∃ t', put "" {} r = (t', .error (.io "file name too long")) ∧
        list "" t' r.kind = .ok [] ∧ (MemoryStore.ofRecords [r]).list r.kind = [r] := by
  intro r
  have hletters : ∀ c, c ≠ 'a' → c ∉ r.name.toList := by
    intro c hc hmem
    rw [show r.name.toList = List.replicate 251 'a' from String.toList_ofList] at hmem
    exact hc (List.eq_of_mem_replicate hmem)
  have hlong : Path.maxName < r.name.utf8ByteSize + 5 := by decide +kernel
  have hnonempty : r.name ≠ "" := fun hname => by
    rw [hname] at hlong
    exact absurd hlong (by decide)
  have hslash := hletters '/' (by decide)
  have hzero := hletters '\x00' (by decide)
  have hkind : KindFits "" "Release" := by
    refine ⟨?_, by decide, by decide⟩
    constructor <;> decide
  have hwritable : r.Writable := ⟨.nil, .nil, trivial, trivial, by decide⟩
  have hmirrors : Mirrors "" [] {} (MemoryStore.ofRecords []) :=
    ⟨rfl, [], rfl, fun _ => Or.inl ⟨rfl, rfl⟩⟩
  obtain ⟨t', hput, h⟩ :=
    put_tooLong hmirrors (by decide) hkind (isName_file hnonempty hslash hzero) hlong
  have hlist := list_mirrors h (by decide) (fun _ hr => absurd hr List.not_mem_nil) hkind
  exact ⟨⟨hwritable, hkind.isName, hnonempty, hslash, hzero⟩, t', hput, hlist, rfl⟩

end FileStore

end ClusterGate
