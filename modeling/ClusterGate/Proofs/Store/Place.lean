import ClusterGate.Proofs.Json.Fields
import ClusterGate.Proofs.Text.Utf8
import ClusterGate.Store.Files

/-!
# The place of a record

A record that is read from a file has the kind and the name of its place, unless the file is an array
that begins with others: an array gives its fields by position, and is read as it stands. Main
statement: `identity_of_place`.
-/

namespace ClusterGate

theorem Record.identity_of_read? {d : Doc} {r : Record} (h : Record.read? d = some r) :
    ∃ s, d.slots? ["kind", "name", "labels", "annotations", "spec"] = some s ∧
      s.required "kind" Doc.text? = some r.kind ∧ s.required "name" Doc.text? = some r.name := by
  simp only [Record.read?, Option.bind_eq_bind, Option.bind_eq_some_iff] at h
  obtain ⟨s, hslots, kind, hkind, name, hname, _, _, _, _, _, _, hr⟩ := h
  cases hr
  exact ⟨s, hslots, hkind, hname⟩

theorem mapM_eq_ok_iff {ε α β : Type} {f : α → Except ε β} {as : List α} {bs : List β} :
    as.mapM f = .ok bs ↔ List.Forall₂ (fun a b => f a = .ok b) as bs := by
  induction as generalizing bs with
  | nil =>
    rw [List.mapM_nil, List.forall₂_nil_left_iff]
    exact ⟨fun h => (Except.ok.inj h).symm, fun h => h ▸ rfl⟩
  | cons a rest ih =>
    rw [List.mapM_cons, List.forall₂_cons_left_iff]
    constructor
    · intro h
      cases ha : f a with
      | error e =>
        rw [ha] at h
        cases h
      | ok b =>
        cases hrest : rest.mapM f with
        | error e =>
          rw [ha, hrest] at h
          cases h
        | ok bs' =>
          rw [ha, hrest] at h
          exact ⟨b, bs', rfl, ih.mp hrest, (Except.ok.inj h).symm⟩
    · rintro ⟨b, bs', ha, hrest, rfl⟩
      rw [ha, ih.mpr hrest]
      rfl

namespace FileStore

variable {root kind name : String} {t : FileTree} {content : List UInt8} {r : Record}

theorem ofBytes?_of_decode (h : decode kind name content = .ok r) :
    ∃ v, Json.ofBytes? content = some v ∧
      Record.read? (Doc.ofValue (placed kind name v)) = some r := by
  unfold decode at h
  split at h
  next found =>
    cases h
    exact Option.bind_eq_some_iff.mp found
  next => cases h

/-- The place counts for an object, and the first two elements for an array. -/
theorem identity_of_placed {v : Json}
    (h : Record.read? (Doc.ofValue (placed kind name v)) = some r) :
    (∃ members, v = .obj members) ∧ r.kind = kind ∧ r.name = name ∨
      ∃ rest, v = .arr (.str r.kind :: .str r.name :: rest) := by
  obtain ⟨s, hslots, hkind, hname⟩ := Record.identity_of_read? h
  unfold Slots.required at hkind hname
  cases v with
  | obj members =>
    rw [placed, Doc.ofValue] at hslots
    rw [Doc.get?_of_slots?_obj hslots (by simp), Doc.get?_ofMembers,
      Dict.get?_insert_of_ne _ _ (by decide), Dict.get?_insert_self] at hkind
    rw [Doc.get?_of_slots?_obj hslots (by simp), Doc.get?_ofMembers,
      Dict.get?_insert_self] at hname
    exact Or.inl ⟨⟨members, rfl⟩, (Option.some.inj hkind).symm, (Option.some.inj hname).symm⟩
  | arr elements =>
    change Doc.slots? _ (.arr (Doc.ofElements elements)) = some s at hslots
    rw [Doc.slots?, Doc.ofElements_eq] at hslots
    split at hslots
    next =>
      cases hslots
      rcases elements with _ | ⟨v, _ | ⟨w, rest⟩⟩
      · cases hkind
      · cases hname
      · have hv : v = .str r.kind := Doc.eq_str_of_text? hkind
        have hw : w = .str r.name := Doc.eq_str_of_text? hname
        exact Or.inr ⟨rest, by rw [hv, hw]⟩
    next => cases hslots
  | _ => cases hslots

/-- The file of a record is no array that begins with another kind or another name. -/
def KeepsPlace (root : String) (t : FileTree) (kind name : String) : Prop :=
  ∀ content k n rest, t.read (recordPath root kind name) = .ok content →
    Json.ofBytes? content = some (.arr (.str k :: .str n :: rest)) → k = kind ∧ n = name

theorem decode_of_load (h : load root t kind name = .ok r) :
    ∃ content, t.read (recordPath root kind name) = .ok content ∧ decode kind name content = .ok r := by
  unfold load at h
  split at h
  next content found => exact ⟨content, found, h⟩
  next => cases h

/-- A record is got exactly when it is read. -/
theorem get_eq_some_iff : get root t kind name = .ok (some r) ↔ load root t kind name = .ok r := by
  unfold get load
  cases t.read (recordPath root kind name) with
  | ok content =>
    cases hdecode : decode kind name content with
    | ok r => simp [hdecode, Except.map]
    | error e => simp [hdecode, Except.map]
  | error e => cases e <;> simp

theorem identity_of_load (h : load root t kind name = .ok r) :
    r.kind = kind ∧ r.name = name ↔ KeepsPlace root t kind name := by
  obtain ⟨content, hread, hdecode⟩ := decode_of_load h
  obtain ⟨v, hbytes, hrecord⟩ := ofBytes?_of_decode hdecode
  constructor
  · rintro ⟨rfl, rfl⟩ other k n rest hother harray
    obtain rfl : content = other := Except.ok.inj (hread.symm.trans hother)
    obtain rfl : v = .arr (.str k :: .str n :: rest) := Option.some.inj (hbytes.symm.trans harray)
    rcases identity_of_placed hrecord with ⟨⟨_, hobject⟩, _⟩ | ⟨_, hsame⟩
    · cases hobject
    · cases hsame
      exact ⟨rfl, rfl⟩
  · intro hkeeps
    rcases identity_of_placed hrecord with ⟨_, hplace⟩ | ⟨rest, rfl⟩
    · exact hplace
    · exact hkeeps content r.kind r.name rest hread hbytes

/-- The records of a kind are those of its files, in the order of their names. -/
theorem load_of_list {names : List String} {rs : List Record}
    (hnames : recordNames root t kind = .ok names) (h : list root t kind = .ok rs) :
    List.Forall₂ (fun name r => load root t kind name = .ok r) names rs := by
  rw [list, hnames] at h
  exact mapM_eq_ok_iff.mp h

theorem recordNames_ascending {names : List String} (h : recordNames root t kind = .ok names) :
    names.Pairwise (· < ·) := by
  unfold recordNames at h
  split at h
  next =>
    cases h
    exact sortedSet_sorted _
  next =>
    cases h
    exact List.Pairwise.nil
  next => cases h

/-- Every record that is got has the kind and the name of its place exactly if its file is no array
that begins with others; if no file of a kind is such an array, the records listed have this kind,
their names ascend byte by byte, and each of them is got under its name. -/
theorem identity_of_place (root : String) (t : FileTree) (kind : String) :
    (∀ name r, get root t kind name = .ok (some r) →
      (r.kind = kind ∧ r.name = name ↔ KeepsPlace root t kind name)) ∧
    ∀ names rs, recordNames root t kind = .ok names → list root t kind = .ok rs →
      (∀ name ∈ names, KeepsPlace root t kind name) →
      (rs.map fun r => Text.bytes r.name).Pairwise (· < ·) ∧
        ∀ r ∈ rs, r.kind = kind ∧ get root t kind r.name = .ok (some r) := by
  refine ⟨fun name r hget => identity_of_load (get_eq_some_iff.mp hget), ?_⟩
  intro names rs hnames hlist hkeeps
  have hloads := (List.forall₂_and_left _ _).mpr ⟨hkeeps, load_of_list hnames hlist⟩
  have hplaced : List.Forall₂ (fun r name => (r.kind = kind ∧
      get root t kind r.name = .ok (some r)) ∧ r.name = name) rs names := by
    refine (hloads.imp ?_).flip
    rintro name r ⟨hkeep, hload⟩
    obtain ⟨rfl, rfl⟩ := (identity_of_load hload).mpr hkeep
    exact ⟨⟨rfl, get_eq_some_iff.mpr hload⟩, rfl⟩
  obtain ⟨hrecords, hmatch⟩ := (List.forall₂_and_left _ _).mp hplaced
  have hmap : rs.map Record.name = names := by
    rwa [← List.forall₂_eq_eq_eq, List.forall₂_map_left_iff]
  refine ⟨?_, hrecords⟩
  have hascending := recordNames_ascending hnames
  rw [← hmap, List.pairwise_map] at hascending
  exact List.pairwise_map.mpr (hascending.imp Text.lt_iff_bytes.mp)

/-- Whatever an object says about its kind, its place counts. -/
theorem identity_of_object :
    let t : FileTree := { top := .dir [("Release", .dir
      [("v13.0.0.json", .file (Text.bytes "\x7b\"kind\":\"Other\"\x7d"))])] }
    ∃ r, get "" t "Release" "v13.0.0" = .ok (some r) ∧ KeepsPlace "" t "Release" "v13.0.0" ∧
      list "" t "Release" = .ok [r] ∧ [Text.bytes r.name].Pairwise (· < ·) ∧ r.kind = "Release" := by
  intro t
  have hnames : recordNames "" t "Release" = .ok ["v13.0.0"] := by decide +kernel
  have hidentity : (get "" t "Release" "v13.0.0").map (Option.map fun r => (r.kind, r.name)) =
      .ok (some ("Release", "v13.0.0")) := by decide +kernel
  obtain ⟨hplace, hlist⟩ := identity_of_place "" t "Release"
  match hget : get "" t "Release" "v13.0.0", hidentity with
  | .ok (some r), hidentity =>
    obtain ⟨hkind, hname⟩ := Prod.mk.inj (Option.some.inj (Except.ok.inj hidentity))
    have hkeeps := (hplace "v13.0.0" r hget).mp ⟨hkind, hname⟩
    have hrecords : list "" t "Release" = .ok [r] := by
      rw [list, hnames]
      exact mapM_eq_ok_iff.mpr (.cons (get_eq_some_iff.mp hget) .nil)
    have hall := hlist ["v13.0.0"] [r] hnames hrecords (by simpa using hkeeps)
    exact ⟨r, rfl, hkeeps, hrecords, hall.1, (hall.2 r List.mem_cons_self).1⟩

/-- An array gives a record that is not that of its place, and nor is what is listed. -/
theorem misplaced_array :
    let t : FileTree := { top := .dir [("Release", .dir
      [("v13.0.0.json", .file (Text.bytes "[\"a\",\"b\"]"))])] }
    (get "" t "Release" "v13.0.0").map (Option.map fun r => (r.kind, r.name)) =
        .ok (some ("a", "b")) ∧
      (list "" t "Release").map (List.map fun r => (r.kind, r.name)) = .ok [("a", "b")] := by
  decide +kernel

end FileStore

end ClusterGate
