import ClusterGate.Direct
import ClusterGate.Proofs.Catalog.Listing
import ClusterGate.Proofs.Catalog.Memo
import ClusterGate.Proofs.Store.Agreement

/-!
# Reading the components of listed releases

The listing reads the name of a record in any spelling of its version; the components are asked for
under the usual name of the version. The two meet in the record that was listed exactly if its name is
the usual one. Main statement: `Catalog.listed_read`.
-/

namespace ClusterGate

namespace Direct.Surroundings

variable {σ : Type}

/-- The store lists all its release records, and has each of them, and no other, under its name. -/
structure Keeps (s : Surroundings σ) (records : List Record) : Prop where
  listed : s.records = .ok records
  kept : ∀ r ∈ records, s.record r.name = .ok (some r)
  missing : ∀ name, (∀ r ∈ records, r.name ≠ name) → s.record name = .ok none

def ofMemory (m : MemoryStore) : Surroundings Unit where
  records := .ok (m.list releaseKind)
  record name := .ok (m.get? releaseKind name)
  listing _ u := (.ok [], u)

theorem ofMemory_keeps (records : List Record) :
    (ofMemory (.ofRecords records)).Keeps ((MemoryStore.ofRecords records).list releaseKind) where
  listed := rfl
  kept r hr := by
    have hlast := (MemoryStore.mem_list records releaseKind r).mp hr
    rw [← MemoryStore.get?_ofRecords] at hlast
    exact congrArg Except.ok hlast
  missing name hname := by
    refine congrArg Except.ok ?_
    rw [MemoryStore.get?_ofRecords]
    cases hlast : MemoryStore.last? records releaseKind name with
    | none => rfl
    | some r =>
      obtain ⟨-, hrname, -⟩ := MemoryStore.of_last? hlast
      rw [← hrname] at hlast
      have hmem := (MemoryStore.mem_list records releaseKind r).mpr hlast
      exact absurd hrname (hname r hmem)

end Direct.Surroundings

namespace Catalog

open Direct (Surroundings Kept)

variable {σ : Type} {s : Surroundings σ} {k : Kept σ} {records : List Record} {es : List Release}
  {r : Record} {e : Release}

theorem run_releases (hfree : ∀ operation, s.interrupt? operation = none) (hlisted : s.records = .ok records) :
    (Direct.run s releases k).1 = records.mapM Release.ofRecord := by
  have hasks : releases = .ask .releases fun r => .done (r.bind fun rs => rs.mapM Release.ofRecord) := by
    refine congrArg (Engine.ask Query.releases) (funext fun r => ?_)
    cases r <;> rfl
  rw [Direct.run, hasks, Engine.run]
  simp only [Direct.answer, Direct.settleListing_start, hfree, hlisted]
  rfl

/-- A fresh reader asks the store for the usual name of the release. -/
theorem run_components {spelling : String} {v : Version} (hfree : ∀ operation, s.interrupt? operation = none)
    (hfresh : k.memo = []) (hparse : Version.parse spelling = .ok v) :
    (Direct.run s (components spelling) k).1 =
      ComponentMemo.ofAnswer v.releaseName (s.record v.releaseName) := by
  rw [Direct.run, components_of_ok hparse, Engine.run]
  simp only [Direct.answer, Direct.settleReading_start, hfree, hfresh, Dict.get?]
  cases ComponentMemo.ofAnswer v.releaseName (s.record v.releaseName) <;> rfl

/-- What a fresh reader finds for a listed release. It asks for the usual name of the version, which
leads to the record that was listed exactly if that has this name. -/
structure ReadBack (s : Surroundings σ) (k : Kept σ) (records : List Record) (r : Record)
    (e : Release) : Prop where
  lists : Lists r e
  read : (Direct.run s (components e.rawName) k).1 =
    ComponentMemo.ofAnswer e.version.releaseName (s.record e.version.releaseName)
  own : s.record e.version.releaseName = .ok (some r) ↔ r.name = e.version.releaseName
  found : ∀ q ∈ records, q.name = e.version.releaseName →
    (Direct.run s (components e.rawName) k).1 = Components.ofRecord q.name q
  missing : (∀ q ∈ records, q.name ≠ e.version.releaseName) →
    (Direct.run s (components e.rawName) k).1 = .error (.releaseNotFound e.version.releaseName)

theorem record_eq_iff (hkeeps : s.Keeps records) (hr : r ∈ records) {name : String} :
    s.record name = .ok (some r) ↔ r.name = name := by
  constructor
  · intro hrecord
    by_contra hne
    by_cases hother : ∀ q ∈ records, q.name ≠ name
    · rw [hkeeps.missing name hother] at hrecord
      cases hrecord
    · push Not at hother
      obtain ⟨q, hq, rfl⟩ := hother
      rw [hkeeps.kept q hq] at hrecord
      cases hrecord
      exact hne rfl
  · rintro rfl
    exact hkeeps.kept r hr

theorem readBack_of_lists (hfree : ∀ operation, s.interrupt? operation = none) (hfresh : k.memo = [])
    (hkeeps : s.Keeps records) (hr : r ∈ records) (hlists : Lists r e) :
    ReadBack s k records r e := by
  have hparse : Version.parse e.rawName = .ok e.version := by
    rw [hlists.2.1]
    exact hlists.1
  have hread := run_components (k := k) hfree hfresh hparse
  refine ⟨hlists, hread, record_eq_iff hkeeps hr, ?_, ?_⟩
  · intro q hq hname
    rw [hread, ← hname, hkeeps.kept q hq]
    rfl
  · intro hother
    rw [hread, hkeeps.missing _ hother]
    rfl

/-- A listing that succeeds lists a release for each record, and each is read back in this way. -/
theorem listed_read (hfree : ∀ operation, s.interrupt? operation = none) (hfresh : k.memo = []) (hkeeps : s.Keeps records)
    (hes : (Direct.run s releases k).1 = .ok es) :
    List.Forall₂ (ReadBack s k records) records es := by
  rw [run_releases hfree hkeeps.listed] at hes
  rcases mapM_ofRecord records with ⟨releases, hok, hlists⟩ | ⟨front, r, back, e, -, -, -, herror⟩
  · rw [hes] at hok
    cases hok
    rw [List.forall₂_iff_get] at hlists ⊢
    refine ⟨hlists.1, fun i hi hi' => ?_⟩
    exact readBack_of_lists hfree hfresh hkeeps (List.get_mem records ⟨i, hi⟩) (hlists.2 i hi hi')
  · rw [hes] at herror
    cases herror

def shipping (name component version : String) : Record where
  kind := releaseKind
  name := name
  spec := .obj [("components",
    .arr [.obj [("name", .str component), ("version", .str version)]])]

theorem listed_read_usual_name :
    let records := [shipping "v11.4" "app-operator" "1.0.0", shipping "v12.0.0" "app-operator" "2.0.0"]
    let s := Surroundings.ofMemory (.ofRecords records)
    let es : List Release :=
      [⟨.ofNumbers 11 4 0, "v11.4", false⟩, ⟨.ofNumbers 12 0 0, "v12.0.0", false⟩]
    (Direct.run s releases { inventory := () }).1 = .ok es ∧
      List.Forall₂ (ReadBack s { inventory := () } records) records es := by
  intro records s es
  have hkeeps : s.Keeps records := Surroundings.ofMemory_keeps records
  have hes : (Direct.run s releases { inventory := () }).1 = .ok es := rfl
  exact ⟨hes, listed_read (fun _ => rfl) rfl hkeeps hes⟩

/-- A record that is listed under a shorter spelling of its version cannot be read back. -/
theorem short_name_unread :
    let r := shipping "v11.4" "app-operator" "1.0.0"
    let s := Surroundings.ofMemory (.ofRecords [r])
    s.Keeps [r] ∧ (Direct.run s releases { inventory := () }).1 =
        .ok [⟨.ofNumbers 11 4 0, "v11.4", false⟩] ∧
      Components.ofRecord "v11.4" r = .ok [("app-operator", "1.0.0")] ∧
      (Direct.run s (components "v11.4") { inventory := () }).1 =
        .error (.releaseNotFound "v11.4.0") :=
  ⟨Surroundings.ofMemory_keeps [shipping "v11.4" "app-operator" "1.0.0"], rfl, rfl, rfl⟩

end Catalog

end ClusterGate
