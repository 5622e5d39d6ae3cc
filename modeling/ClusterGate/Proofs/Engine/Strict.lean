import ClusterGate.Catalog.Label
import ClusterGate.NodePool.Defaults
import ClusterGate.Proofs.Catalog.Listing
import ClusterGate.Proofs.Sku.Inquiry

/-!
# Programs that end with the faults they are told

A program is strict if an error that is a fault of the system, as the answer to any of its questions,
ends it with this very error, and if a record that lists no version ends it with a fault. Programs
made of strict ones are strict, and so are all checks, queries and reviews.
-/

namespace ClusterGate

/-- The error is a fault of the system, of the given kind, and no denial. -/
structure GateError.Faults (error : GateError) (kind : ErrorKind) : Prop where
  kind : error.kind = kind
  fault : error.isSystemFault = true
  noDenial : error.isPolicyDenial = false

theorem GateError.faults_invalidResponse (instanceType capability : String) (value : Option String) :
    (GateError.invalidResponse instanceType capability value).Faults .invalidResponse := ⟨rfl, rfl, rfl⟩

namespace Engine

variable {α β : Type} {e : Engine α} {f : α → Engine β}

/-- A fault ends the program. -/
def EndsWithFaults {γ : Type} (next : Except GateError γ → Engine α) : Prop :=
  ∀ error : GateError, error.isSystemFault = true → next (.error error) = .done (.error error)

/-- A record that lists no version ends the program with a fault. -/
def EndsWithMisnamed (next : Except GateError (List Record) → Engine α) : Prop :=
  ∀ records, ∀ r ∈ records, ∀ e, Version.parse r.name = .error e →
    ∃ error, next (.ok records) = .done (.error error) ∧ error.Faults .invalidResponse

/-- Every fault that the program is told ends it. -/
inductive Strict : Engine α → Prop where
  | done (result : Except GateError α) : Strict (.done result)
  | note {n : Note} {e : Engine α} (rest : Strict e) : Strict (.note n e)
  | region {name : String} {next : Except GateError RegionTable → Engine α}
      (faults : EndsWithFaults next) (rest : ∀ r, Strict (next r)) :
      Strict (.ask (.region name) next)
  | components {release : String} {next : Except GateError Components → Engine α}
      (faults : EndsWithFaults next) (rest : ∀ r, Strict (next r)) :
      Strict (.ask (.components release) next)
  | releases {next : Except GateError (List Record) → Engine α}
      (faults : EndsWithFaults next) (misnamed : EndsWithMisnamed next)
      (rest : ∀ r, Strict (next r)) : Strict (.ask .releases next)

theorem EndsWithFaults.bind {γ : Type} {next : Except GateError γ → Engine α}
    (h : EndsWithFaults next) : EndsWithFaults fun r => (next r).bind f := by
  intro error hfault
  show (next (.error error)).bind f = _
  rw [h error hfault]
  rfl

theorem Strict.bind (h : e.Strict) (hf : ∀ a, (f a).Strict) : (e >>= f).Strict := by
  induction h with
  | done result =>
    cases result with
    | error => exact .done _
    | ok a => exact hf a
  | note _ ih => exact .note ih
  | region faults _ ih => exact .region faults.bind ih
  | components faults _ ih => exact .components faults.bind ih
  | releases faults misnamed _ ih =>
    refine .releases faults.bind (fun records r hr e hname => ?_) ih
    obtain ⟨error, hnext, hfault⟩ := misnamed records r hr e hname
    refine ⟨error, ?_, hfault⟩
    show Engine.bind _ f = _
    rw [hnext]
    rfl

theorem require_strict {condition : Bool} {detail : String} : (require condition detail).Strict := by
  unfold require
  split
  · exact .done _
  · exact .done _

theorem notes_strict (ns : List Note) : (notes ns).Strict := by
  induction ns with
  | nil => exact .done _
  | cons n rest ih => exact .note ih

theorem Strict.follows {told : String → Except GateError RegionTable → Prop} {e' : Engine α}
    (h : e.Strict) (hfollows : e.Follows told e') : e'.Strict := by
  induction hfollows with
  | refl => exact h
  | note _ ih =>
    cases h with
    | note rest => exact ih rest
  | answer _ _ ih =>
    cases h with
    | region _ rest => exact ih (rest _)

end Engine

open Engine

/-! ### Queries and rules on pools -/

namespace Sku

variable {region instanceType : String}

theorem Inquiry.program_strict (q : Inquiry) : (q.program region instanceType).Strict := by
  cases hrefusal : q.refusal? region instanceType with
  | some detail =>
    rw [program_of_refusal hrefusal]
    exact .done _
  | none =>
    rw [program_eq hrefusal]
    refine .region (fun error _ => ?_) fun _ => .done _
    rw [reply, verdict]

end Sku

namespace NodePool

variable {p old new : NodePool} {location : String}

theorem checkInstanceType_strict : (checkInstanceType p).Strict := by
  refine (Sku.Inquiry.memory.program_strict).bind fun _ => ?_
  refine (Sku.Inquiry.cpus.program_strict).bind fun _ => ?_
  exact require_strict.bind fun _ => require_strict

theorem checkStorage_strict : (checkStorage p).Strict := by
  refine require_strict.bind fun _ => ?_
  split
  · exact (Sku.Inquiry.support _).program_strict.bind fun _ => require_strict
  · exact .done _

theorem checkNetworking_strict : (checkNetworking p).Strict := by
  unfold checkNetworking
  split
  · exact (Sku.Inquiry.support _).program_strict.bind fun _ => require_strict
  · exact .done _

theorem checkFailureDomain_strict : (checkFailureDomain p).Strict := by
  unfold checkFailureDomain
  split
  · exact .done _
  · exact Sku.Inquiry.zones.program_strict.bind fun _ => require_strict

theorem checkSizeUpdate_strict : (checkSizeUpdate old new).Strict := by
  unfold checkSizeUpdate
  split
  · exact .done _
  · refine checkInstanceType_strict.bind fun _ => checkStorage_strict.bind fun _ => ?_
    exact checkNetworking_strict

theorem validateCreate_strict : (validateCreate p).Strict := by
  refine checkInstanceType_strict.bind fun _ => checkStorage_strict.bind fun _ => ?_
  refine checkNetworking_strict.bind fun _ => require_strict.bind fun _ => ?_
  exact checkFailureDomain_strict

theorem validateUpdate_strict : (validateUpdate old new).Strict := by
  refine require_strict.bind fun _ => require_strict.bind fun _ => ?_
  exact require_strict.bind fun _ => checkSizeUpdate_strict

theorem defaultStorage_strict : (defaultStorage p).Strict := by
  unfold defaultStorage
  split
  · exact .done _
  · exact (Sku.Inquiry.support _).program_strict.bind fun _ => .done _

theorem mutateCreate_strict : (mutateCreate p location).Strict :=
  defaultStorage_strict.bind fun _ => (notes_strict _).bind fun _ => .done _

end NodePool

/-! ### Labels and reviews -/

namespace Catalog

variable {object : Json} {release component label : String}

theorem componentsFor_strict : (componentsFor release).Strict := by
  have hversion : (ofExcept (requested release)).Strict := .done _
  refine hversion.bind fun v => .components (fun error hfault => ?_) fun r => ?_
  · -- what is turned into a denial is no fault
    cases error with
    | releaseNotFound name => cases hfault
    | _ => rfl
  · split
    · exact .done _
    · exact .done _

theorem componentLabel_strict : (componentLabel object component label).Strict := by
  unfold componentLabel
  split
  · exact .done _
  · split
    · exact .done _
    · refine componentsFor_strict.bind fun components => ?_
      split
      · exact .done _
      · exact .done _

theorem releases_strict : releases.Strict := by
  refine .releases (fun _ _ => rfl) (fun records r hr e hname => ?_) fun r => ?_
  · rcases mapM_ofRecord records with ⟨es, -, hlists⟩ | ⟨front, q, back, e', -, -, -, herror⟩
    · obtain ⟨i, hi, rfl⟩ := List.mem_iff_getElem.mp hr
      have hlist := (List.forall₂_iff_get.mp hlists).2 i hi (hlists.length_eq ▸ hi)
      rw [List.get_eq_getElem] at hlist
      rw [hlist.1] at hname
      cases hname
    · refine ⟨.invalidRelease q.name e'.fault.text, ?_, rfl, rfl, rfl⟩
      show Engine.bind (.done (.ok records)) _ = _
      simp only [Engine.bind, herror]
      rfl
  · cases r with
    | error => exact .done _
    | ok records => exact .done _

end Catalog

theorem Upgrade.review_strict (old new : Version) : (review old new).Strict := by
  have hdecide : ∀ catalog, (notes (decisionNotes (decide old new catalog)) >>= fun _ =>
      pure (decide old new catalog)).Strict := fun _ => (notes_strict _).bind fun _ => .done _
  unfold review
  split
  · exact hdecide []
  · exact Catalog.releases_strict.bind hdecide

end ClusterGate
