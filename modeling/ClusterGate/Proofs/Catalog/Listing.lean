import ClusterGate.Catalog.Queries
import ClusterGate.Proofs.Catalog.Visits

/-!
# Visits that list the releases

What a listing comes to depends on the looks at it alone, and not on what other visits do meanwhile.
Main statements: `Listing.looked`, how a listing stands after some looks, and `mapM_ofRecord`, what
becomes of its records.
-/

namespace ClusterGate

open Session (StoreCall)

namespace Catalog

/-! ### Listings -/

/-- What a look tells a visit that waits for the records: an interrupt, or the answer of the store. -/
def Look.told? (l : Look) : Option (Except GateError (List Record)) :=
  match l.interrupt, l.records with
  | some i, _ => some (.error (.ofInterrupt CatalogListing.listOperation i))
  | none, some (.ok records) => some (.ok records)
  | none, some (.error e) => some (.error (.ofStorage e))
  | none, none => none

/-- What a listing comes to. At the first look the store is called, unless an interrupt is there;
after that the first look that tells something ends it. -/
def listed? : List Look → Option (Except GateError (List Record))
  | [] => none
  | first :: rest => match first.interrupt with
    | some i => some (.error (.ofInterrupt CatalogListing.listOperation i))
    | none => rest.findSome? Look.told?

def listCalls : List Look → List StoreCall
  | [] => []
  | first :: _ => if first.interrupt.isSome then [] else [.list releaseKind]

variable {α : Type} {next : Except GateError (List Record) → Engine α} {looks : List Look}
  {v : Visit α}

/-- How a listing stands after some looks: at its beginning, waiting for the records, or past it. -/
inductive Listing (next : Except GateError (List Record) → Engine α) : Visit α → Prop where
  | begun {program : Engine α} :
      Listing next ⟨program, .listing (.listing false) next, [], [], []⟩
  | called {program : Engine α} {first : Look} {rest : List Look} (free : first.interrupt = none)
      (untold : rest.findSome? Look.told? = none) :
      Listing next ⟨program, .listing (.listing true) next, first :: rest, [.list releaseKind], []⟩
  | told {program : Engine α} {looks : List Look} {r : Except GateError (List Record)}
      {result : Except GateError α} (listed : listed? looks = some r)
      (ends : Standing.ofEngine (next r) = .ended result) :
      Listing next ⟨program, .ended result, looks, listCalls looks, (next r).leading⟩

theorem listed?_concat {r : Except GateError (List Record)} (h : listed? looks = some r) (l : Look) :
    listed? (looks ++ [l]) = some r ∧ listCalls (looks ++ [l]) = listCalls looks := by
  cases looks with
  | nil => cases h
  | cons first rest =>
    refine ⟨?_, rfl⟩
    rw [List.cons_append, listed?]
    rw [listed?] at h
    cases hi : first.interrupt with
    | some i =>
      rw [hi] at h
      exact h
    | none =>
      rw [hi] at h
      simp only at h ⊢
      rw [List.findSome?_append, h, Option.some_or]

theorem step_called (l : Look) :
    (CatalogListing.listing true).step l.interrupt l.records = l.told?.map .done := by
  obtain ⟨interrupt, record, records⟩ := l
  cases interrupt with
  | some i => rfl
  | none => rcases records with _ | (e | records) <;> rfl

theorem Listing.told_of {program : Engine α} {r : Except GateError (List Record)}
    {calls : List StoreCall} (hends : ∀ r, ∃ result, Standing.ofEngine (next r) = .ended result)
    (hlisted : listed? looks = some r) (hcalls : listCalls looks = calls) :
    Listing next ⟨program, .ofEngine (next r), looks, calls, (next r).leading⟩ := by
  obtain ⟨result, ends⟩ := hends r
  rw [ends, ← hcalls]
  exact .told hlisted ends

theorem Listing.looked (hends : ∀ r, ∃ result, Standing.ofEngine (next r) = .ended result)
    (h : Listing next v) (memo : ComponentMemo) (l : Look) : Listing next (v.looked memo l) := by
  cases h with
  | begun =>
    cases hi : l.interrupt with
    | some i =>
      have hlisted : listed? [l] = some (.error (.ofInterrupt CatalogListing.listOperation i)) := by
        rw [listed?, hi]
      have hcalls : listCalls [l] = [] := by
        rw [listCalls, hi]
        rfl
      simp only [Visit.looked, Standing.look, CatalogListing.step, guarded, hi, Outcome.answered]
      exact told_of hends hlisted hcalls
    | none =>
      simp only [Visit.looked, Standing.look, CatalogListing.step, guarded, hi]
      exact .called hi rfl
  | @called program first rest free untold =>
    have hrest : (rest ++ [l]).findSome? Look.told? = l.told? := by
      rw [List.findSome?_append, untold, List.findSome?_singleton, Option.none_or]
    cases htold : l.told? with
    | none =>
      simp only [Visit.looked, Standing.look, step_called, htold]
      exact .called free (hrest.trans htold)
    | some r =>
      have hlisted : listed? (first :: (rest ++ [l])) = some r := by
        rw [listed?, free]
        exact hrest.trans htold
      have hcalls : listCalls (first :: (rest ++ [l])) = [.list releaseKind] := by
        rw [listCalls, free]
        rfl
      simp only [Visit.looked, Standing.look, step_called, htold, Option.map_some, Outcome.answered]
      exact told_of hends hlisted hcalls
  | told listed ends =>
    obtain ⟨hlisted, hcalls⟩ := listed?_concat listed l
    simp only [Visit.looked, Standing.look, List.append_nil]
    rw [← hcalls]
    exact .told hlisted ends

/-! ### Records that list releases -/

def Lists (r : Record) (release : Release) : Prop :=
  Version.parse r.name = .ok release.version ∧ release.rawName = r.name ∧
    release.ignored = Release.isMarked r

/-- Either every record is listed, or the first that cannot be listed is told. -/
theorem mapM_ofRecord (records : List Record) :
    (∃ releases, records.mapM Release.ofRecord = .ok releases ∧
      List.Forall₂ Lists records releases) ∨
    ∃ front r back e, records = front ++ r :: back ∧
      (∀ q ∈ front, ∃ u, Version.parse q.name = .ok u) ∧ Version.parse r.name = .error e ∧
      records.mapM Release.ofRecord = .error (.invalidRelease r.name e.fault.text) := by
  induction records with
  | nil => exact Or.inl ⟨[], rfl, .nil⟩
  | cons r rest ih =>
    rw [List.mapM_cons, Release.ofRecord]
    cases hr : Version.parse r.name with
    | error e => exact Or.inr ⟨[], r, rest, e, rfl, nofun, hr, rfl⟩
    | ok u =>
      rcases ih with ⟨releases, hrest, hlists⟩ | ⟨front, q, back, e, rfl, hfront, hq, hrest⟩
      · refine Or.inl ⟨⟨u, r.name, Release.isMarked r⟩ :: releases, ?_, .cons ⟨hr, rfl, rfl⟩ hlists⟩
        rw [hrest]
        rfl
      · refine Or.inr ⟨r :: front, q, back, e, rfl, ?_, hq, ?_⟩
        · exact List.forall_mem_cons.mpr ⟨⟨u, hr⟩, hfront⟩
        · rw [hrest]
          rfl

end Catalog

end ClusterGate
