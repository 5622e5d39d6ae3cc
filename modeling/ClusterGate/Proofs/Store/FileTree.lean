import ClusterGate.Proofs.Store.Path

/-!
# Files and directories below a path

A tree in which something was put still has all its directories, so that every path leads where it
led. What can be done with a name in a directory is told by the entries of this directory.
-/

namespace ClusterGate

namespace FileNode

variable {n m new : FileNode} {place more : Place} {name : String} {entries : Dict FileNode}

theorem at?_append (n : FileNode) (place more : Place) :
    n.at? (place ++ more) = (n.at? place).bind fun m => m.at? more := by
  induction place generalizing n with
  | nil => rw [at?.eq_def n []]; rfl
  | cons p rest ih =>
    cases n with
    | file content => rfl
    | dir entries =>
      rw [List.cons_append, at?, at?]
      cases Dict.get? p entries with
      | none => rfl
      | some child => exact ih child

theorem at?_name : (dir entries).at? [name] = Dict.get? name entries := by
  rw [at?]
  cases Dict.get? name entries with
  | none => rfl
  | some child => cases child <;> rfl

/-- What is put below a place is put into the node at this place. -/
theorem at?_put_append (h : n.at? place = some m) :
    (n.put (place ++ more) new).at? place = some (m.put more new) := by
  induction place generalizing n with
  | nil =>
    obtain rfl : n = m := by
      cases n <;> exact Option.some.inj h
    cases hput : n.put more new <;> simp [at?, hput]
  | cons p rest ih =>
    cases n with
    | file content => cases h
    | dir entries =>
      rw [at?] at h
      obtain ⟨child, hchild, hat⟩ := Option.bind_eq_some_iff.mp h
      rw [List.cons_append, put, at?, Dict.get?_insert_self, hchild]
      exact ih hat

/-- Whatever there is in a node is in the other one, and directories are directories. -/
structure Extends (n n' : FileNode) : Prop where
  kept : ∀ place, (n.at? place).isSome → (n'.at? place).isSome
  dirs : ∀ place entries, n.at? place = some (.dir entries) →
    ∃ entries', n'.at? place = some (.dir entries')

theorem extends_file (content : List UInt8) (new : FileNode) : Extends (.file content) new where
  kept place h := by
    cases place with
    | nil => cases new <;> rfl
    | cons p rest => cases h
  dirs place entries h := by
    cases place with
    | nil => cases h
    | cons p rest => cases h

theorem extends_insert (h : ∀ old, Dict.get? name entries = some old → Extends old new) :
    Extends (.dir entries) (.dir (Dict.insert name new entries)) := by
  have hother : ∀ p rest, p ≠ name → (dir (Dict.insert name new entries)).at? (p :: rest) =
      (dir entries).at? (p :: rest) := by
    intro p rest hp
    rw [at?, at?, Dict.get?_insert_of_ne _ _ hp]
  constructor
  · intro place hplace
    cases place with
    | nil => rfl
    | cons p rest =>
      by_cases hp : p = name
      · subst hp
        rw [at?] at hplace ⊢
        rw [Dict.get?_insert_self]
        cases hold : Dict.get? p entries with
        | none => simp [hold] at hplace
        | some old =>
          rw [hold] at hplace
          exact (h old hold).kept rest hplace
      · rw [hother p rest hp]
        exact hplace
  · intro place entries' hplace
    cases place with
    | nil => exact ⟨_, rfl⟩
    | cons p rest =>
      by_cases hp : p = name
      · subst hp
        rw [at?] at hplace ⊢
        rw [Dict.get?_insert_self]
        obtain ⟨old, hold, hat⟩ := Option.bind_eq_some_iff.mp hplace
        exact (h old hold).dirs rest entries' hat
      · exact ⟨entries', (hother p rest hp).trans hplace⟩

theorem extends_put_append (h : n.at? place = some m) (hm : Extends m (m.put more new)) :
    Extends n (n.put (place ++ more) new) := by
  induction place generalizing n with
  | nil =>
    obtain rfl : n = m := by
      cases n <;> exact Option.some.inj h
    exact hm
  | cons p rest ih =>
    cases n with
    | file content => cases h
    | dir entries =>
      rw [at?] at h
      obtain ⟨child, hchild, hat⟩ := Option.bind_eq_some_iff.mp h
      rw [List.cons_append, put, hchild]
      refine extends_insert fun old hold => ?_
      obtain rfl := Option.some.inj (hchild.symm.trans hold)
      exact ih hat

end FileNode

namespace FileTree

variable {t t' : FileTree} {path base name : String} {here place : Place} {entries : Dict FileNode}

/-- The steps of the path lead to the place. -/
def LeadsTo (t : FileTree) (path : String) (place : Place) : Prop :=
  t.walk (t.origin path) (Path.steps path) = .ok place

theorem walkStep_extends {step : String} (h : FileNode.Extends t.top t'.top)
    (hstep : t.walkStep here step = .ok place) : t'.walkStep here step = .ok place := by
  unfold walkStep at hstep ⊢
  split at hstep
  next => cases hstep
  next => cases hstep
  next entries hhere =>
    obtain ⟨entries', hhere'⟩ := h.dirs here entries hhere
    simp only [hhere']
    split_ifs at hstep ⊢ with hdot hup hlong
    · exact hstep
    · exact hstep
    · split at hstep
      next node hnode =>
        have hbelow := h.kept (here ++ [step])
        rw [FileNode.at?_append, FileNode.at?_append, hhere, hhere', Option.bind_some,
          Option.bind_some, FileNode.at?_name, FileNode.at?_name, hnode] at hbelow
        obtain ⟨node', hnode'⟩ := Option.isSome_iff_exists.mp (hbelow rfl)
        rw [hnode']
        exact hstep
      next => cases hstep

theorem walk_extends {steps : List String} (h : FileNode.Extends t.top t'.top)
    (hwalk : t.walk here steps = .ok place) : t'.walk here steps = .ok place := by
  induction steps generalizing here with
  | nil => exact hwalk
  | cons step steps ih =>
    rw [walk, List.foldlM_cons] at hwalk ⊢
    cases hstep : t.walkStep here step with
    | error e =>
      rw [hstep] at hwalk
      cases hwalk
    | ok next =>
      rw [hstep] at hwalk
      rw [walkStep_extends h hstep]
      exact ih hwalk

theorem LeadsTo.extends (h : LeadsTo t path place) (htop : FileNode.Extends t.top t'.top)
    (hhere : t'.here = t.here) : LeadsTo t' path place := by
  have horigin : t'.origin path = t.origin path := by
    rw [origin, origin, hhere]
  rw [LeadsTo, horigin]
  exact walk_extends htop h

/-- A name is put into the directory of its path, if it is not too long. -/
theorem locateNew_directory (hleads : LeadsTo t base place)
    (hdirectory : t.top.at? place = some (.dir entries)) (hname : Path.IsName name)
    (hpath : checkPath (Path.join base name) = .ok ()) :
    t.locateNew (Path.join base name) =
      if Path.maxName < name.utf8ByteSize then .error .tooLong else .ok (place, some name) := by
  have hbase : t.walk (t.origin (Path.join base name)) (Path.steps base) = .ok place := by
    rw [origin, Path.isAbsolute_join base hname]
    exact hleads
  have hhere : t.walkStep place "." = .ok place := by
    rw [walkStep, hdirectory]
    rfl
  simp only [locateNew, bind, Except.bind, hpath, Path.steps_join base hname,
    List.dropLast_concat, List.getLast?_concat, hbase, hhere]
  rw [if_neg (not_or.mpr ⟨hname.notHere, hname.notUp⟩)]
  rfl

/-- The path of a name in a directory. -/
structure InDirectory (t : FileTree) (base name : String) (place : Place)
    (entries : Dict FileNode) : Prop where
  leads : LeadsTo t base place
  directory : t.top.at? place = some (.dir entries)
  isName : Path.IsName name
  short : name.utf8ByteSize ≤ Path.maxName
  path : checkPath (Path.join base name) = .ok ()

namespace InDirectory

variable (h : InDirectory t base name place entries)
include h

theorem walk_base : t.walk (t.origin (Path.join base name)) (Path.steps base) = .ok place := by
  rw [origin, Path.isAbsolute_join base h.isName]
  exact h.leads

theorem at?_name : t.top.at? (place ++ [name]) = Dict.get? name entries := by
  rw [FileNode.at?_append, h.directory, Option.bind_some, FileNode.at?_name]

theorem walkStep_name : t.walkStep place name =
    match Dict.get? name entries with
    | some _ => .ok (place ++ [name])
    | none => .error .missing := by
  rw [walkStep, h.directory]
  simp only
  rw [if_neg h.isName.notHere, if_neg h.isName.notUp]
  exact if_neg (Nat.not_lt.mpr h.short)

theorem walk_join : t.walk (t.origin (Path.join base name)) (Path.steps (Path.join base name)) =
    match Dict.get? name entries with
    | some _ => .ok (place ++ [name])
    | none => .error .missing := by
  have hbase := h.walk_base
  rw [walk] at hbase
  rw [Path.steps_join base h.isName, walk, List.foldlM_append, hbase, ← h.walkStep_name]
  change ([name].foldlM t.walkStep place) = _
  rw [List.foldlM_cons]
  cases t.walkStep place name <;> rfl

theorem leadsTo {node : FileNode} (hnode : Dict.get? name entries = some node) :
    LeadsTo t (Path.join base name) (place ++ [name]) := by
  rw [LeadsTo, h.walk_join, hnode]

theorem find_join : t.find (Path.join base name) =
    match Dict.get? name entries with
    | some node => .ok node
    | none => .error .missing := by
  have hat := h.at?_name
  rw [find, locate, h.path, h.walk_join, Path.namesDirectory_join base h.isName]
  cases hnode : Dict.get? name entries with
  | none => rfl
  | some node =>
    rw [hnode] at hat
    change (match t.top.at? (place ++ [name]) with | some n => Except.ok n | none => _) = _
    rw [hat]

/-- Below a name that is not there nothing is found. -/
theorem find_below_none {below : String} (hnone : Dict.get? name entries = none)
    (hbelow : Path.IsName below)
    (hpath : checkPath (Path.join (Path.join base name) below) = .ok ()) :
    t.find (Path.join (Path.join base name) below) = .error .missing := by
  have hmissing := h.walk_join
  rw [hnone, walk] at hmissing
  have horigin : t.origin (Path.join (Path.join base name) below) =
      t.origin (Path.join base name) := by
    rw [origin, origin, Path.isAbsolute_join _ hbelow]
  rw [find, locate, hpath, horigin, Path.steps_join _ hbelow, walk, List.foldlM_append, hmissing]
  rfl

theorem locateNew_join : t.locateNew (Path.join base name) = .ok (place, some name) := by
  rw [locateNew_directory h.leads h.directory h.isName h.path, if_neg (Nat.not_lt.mpr h.short)]

theorem makeDir_join : t.makeDir (Path.join base name) =
    match Dict.get? name entries with
    | some _ => .error .occupied
    | none => .ok { t with top := t.top.put (place ++ [name]) (.dir []) } := by
  rw [makeDir, h.locateNew_join]
  change (match t.top.at? (place ++ [name]) with | some _ => _ | none => _) = _
  rw [h.at?_name]

theorem ensureDir_new (hnone : Dict.get? name entries = none) :
    t.ensureDir (Path.join base name) =
      ({ t with top := t.top.put (place ++ [name]) (.dir []) }, .ok ()) := by
  have hmake := h.makeDir_join
  rw [hnone] at hmake
  rw [ensureDir, makeDirs, if_neg (Path.join_ne_empty base h.isName), hmake]
  simp only [makeDirOnce, hmake]

theorem ensureDir_old {files : Dict FileNode} (hdir : Dict.get? name entries = some (.dir files)) :
    t.ensureDir (Path.join base name) = (t, .ok ()) := by
  have hmake := h.makeDir_join
  have hfind := h.find_join
  rw [hdir] at hmake hfind
  rw [ensureDir, makeDirs, if_neg (Path.join_ne_empty base h.isName), hmake]
  simp only [makeDirOnce, hmake, isDir, hfind, FileNode.isDir]
  rfl

theorem write_join (content : List UInt8)
    (hfile : ∀ files, Dict.get? name entries ≠ some (.dir files)) :
    t.write (Path.join base name) content =
      .ok { t with top := t.top.put (place ++ [name]) (.file content) } := by
  have hat := h.at?_name
  have hnames : ¬Path.namesDirectory (Path.join base name) = true := by
    rw [Path.namesDirectory_join base h.isName]
    exact Bool.false_ne_true
  -- that there is no directory of the name is found among the hypotheses
  simp only [write, h.locateNew_join, bind, Except.bind, if_neg hnames, hat]

end InDirectory

end FileTree

end ClusterGate
