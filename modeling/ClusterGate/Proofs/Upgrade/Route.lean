import ClusterGate.Proofs.Version.Order
import ClusterGate.Upgrade.Decision
import Mathlib.Data.List.Chain

/-!
# Runs of upgrades

A run that upgrades version by version, each step allowed by the catalog, never goes back, never
crosses the alpha boundary, and visits the line of every release it goes past.
Main statement: `route_visits_every_line`.
-/

namespace ClusterGate.Upgrade

open Version

variable {old new first : Version} {catalog : List Release} {r : Release} {rest : List Version}

theorem earliest?_eq_none {versions : List Version} (h : earliest? versions = none) :
    versions = [] := by
  cases versions with
  | nil => rfl
  | cons v rest =>
    rw [earliest?] at h
    split at h
    · contradiction
    · split at h <;> contradiction

/-- The catalog ignores no release of this version. -/
def Heeded (catalog : List Release) (v : Version) : Prop :=
  ∀ r ∈ catalog, r.ignored = true → r.version.same v = false

instance (v : Version) : Decidable (Heeded catalog v) :=
  inferInstanceAs (Decidable (∀ r ∈ catalog, r.ignored = true → r.version.same v = false))

/-- Each version of the run may be upgraded to the next one. -/
def Admitted (catalog : List Release) (run : List Version) : Prop :=
  run.IsChain fun old new => (decide old new catalog).allowed = true

instance (run : List Version) : Decidable (Admitted catalog run) :=
  inferInstanceAs (Decidable (run.IsChain fun old new => (decide old new catalog).allowed = true))

/-- What an allowed upgrade between heeded versions keeps. -/
structure Advances (catalog : List Release) (old new : Version) : Prop where
  forward : new.before old = false
  alpha : old.isAlpha = new.isAlpha
  near : old.sameLine new = true ∨ ∀ r ∈ catalog, passesOver old new r = false

theorem advances_of_same (h : old.same new = true) : Advances catalog old new := by
  have hrank := equal_rank_of_same h
  have hforward : new.before old = false := by
    rw [not_before_iff, hrank]
    rfl
  have hback : old.before new = false := by
    rw [before, hrank]
    rfl
  simp only [same, Bool.and_eq_true, beq_iff_eq] at h
  refine ⟨hforward, ?_, Or.inl (sameLine_of_equal_rank hback hforward)⟩
  rw [isAlpha, isAlpha, preText, preText, h.2]

theorem not_ignored_of_heeded (hold : Heeded catalog old) (hnew : Heeded catalog new) :
    (catalog.any fun r => (r.version.same old || r.version.same new) && r.ignored) = false := by
  rw [List.any_eq_false]
  intro r hr hmatch
  rw [Bool.and_eq_true, Bool.or_eq_true] at hmatch
  obtain ⟨hsame | hsame, hignored⟩ := hmatch
  · exact absurd hsame (Bool.eq_false_iff.mp (hold r hr hignored))
  · exact absurd hsame (Bool.eq_false_iff.mp (hnew r hr hignored))

/-- The rules in their order: what none of them has denied is an advance. -/
theorem advances_of_allowed (hold : Heeded catalog old) (hnew : Heeded catalog new)
    (h : (decide old new catalog).allowed = true) : Advances catalog old new := by
  have hignored := not_ignored_of_heeded hold hnew
  by_cases hsame : old.same new = true
  · exact advances_of_same hsame
  · rw [decide, reasonFor, if_neg hsame] at h
    simp only [hignored, Bool.false_eq_true, if_false] at h
    split at h
    · contradiction
    split at h
    · contradiction
    next hforward =>
    split at h
    · contradiction
    next halpha =>
    have hforward : new.before old = false := Bool.eq_false_iff.mpr hforward
    have halpha : old.isAlpha = new.isAlpha := by simpa using halpha
    split at h
    next hline => exact ⟨hforward, halpha, Or.inl hline⟩
    next =>
    split at h
    · contradiction
    next hnone =>
    have hfilter := List.map_eq_nil_iff.mp (earliest?_eq_none hnone)
    refine ⟨hforward, halpha, Or.inr fun r hr => ?_⟩
    exact Bool.eq_false_iff.mpr (List.filter_eq_nil_iff.mp hfilter r hr)

/-- A release that one advance goes past, or arrives at, is on the line of one of its ends. -/
theorem Advances.line_of_between (h : Advances catalog old new) (hr : r ∈ catalog)
    (hheeded : r.ignored = false) (halpha : r.version.isAlpha = false)
    (hafter : old.before r.version = true) (hupto : new.before r.version = false) :
    old.sameLine r.version = true ∨ new.sameLine r.version = true := by
  rcases h.near with hline | hnone
  · exact Or.inl (sameLine_of_between (not_before_of_before hafter) hupto hline)
  · cases hbefore : r.version.before new with
    | false => exact Or.inr (sameLine_of_equal_rank hupto hbefore)
    | true =>
      have hpass := hnone r hr
      simp only [passesOver, hheeded, halpha, hafter, hbefore, Bool.not_false, Bool.true_and,
        Bool.and_eq_false_iff, Bool.not_eq_false'] at hpass
      rcases hpass with hold | hnew
      · exact Or.inl (sameLine_comm ▸ hold)
      · exact Or.inr (sameLine_comm ▸ hnew)

theorem advances_of_admitted {run : List Version} (hadmitted : Admitted catalog run)
    (hheeded : ∀ v ∈ run, Heeded catalog v) : run.IsChain (Advances catalog) := by
  induction run with
  | nil => exact List.IsChain.nil
  | cons old rest ih =>
    cases rest with
    | nil => exact List.IsChain.singleton old
    | cons new rest =>
      obtain ⟨hallowed, hadmitted⟩ := List.isChain_cons_cons.mp hadmitted
      obtain ⟨hold, hheeded⟩ := List.forall_mem_cons.mp hheeded
      have hnew := hheeded new List.mem_cons_self
      have hstep := advances_of_allowed hold hnew hallowed
      exact List.isChain_cons_cons.mpr ⟨hstep, ih hadmitted hheeded⟩

theorem pairwise_of_advances {run : List Version} (h : run.IsChain (Advances catalog)) :
    run.Pairwise fun a b => b.before a = false := by
  have : Trans (fun a b : Version => b.before a = false) (fun a b : Version => b.before a = false)
      (fun a b : Version => b.before a = false) := ⟨not_before_trans⟩
  exact (h.imp fun _ _ step => step.forward).pairwise

theorem isAlpha_of_advances (h : (first :: rest).IsChain (Advances catalog)) :
    ∀ v ∈ first :: rest, v.isAlpha = first.isAlpha := by
  induction rest generalizing first with
  | nil => simp
  | cons next rest ih =>
    obtain ⟨hstep, hrest⟩ := List.isChain_cons_cons.mp h
    rw [List.forall_mem_cons]
    refine ⟨rfl, fun v hv => ?_⟩
    rw [ih hrest v hv, hstep.alpha]

/-- The step of the run that reaches the release has it on the line of one of its ends. -/
theorem line_of_advances (h : (first :: rest).IsChain (Advances catalog)) (hr : r ∈ catalog)
    (hheeded : r.ignored = false) (halpha : r.version.isAlpha = false)
    (hafter : first.before r.version = true)
    (hlast : r.version.before ((first :: rest).getLast (List.cons_ne_nil first rest)) = true) :
    ∃ v ∈ first :: rest, v.sameLine r.version = true := by
  induction rest generalizing first with
  | nil =>
    have hback := not_before_of_before hafter
    rw [List.getLast_singleton, hback] at hlast
    contradiction
  | cons next rest ih =>
    obtain ⟨hstep, hrest⟩ := List.isChain_cons_cons.mp h
    rw [List.getLast_cons (List.cons_ne_nil next rest)] at hlast
    -- either a later step reaches the release or this one does
    cases hnext : next.before r.version with
    | true =>
      obtain ⟨v, hv, hline⟩ := ih hrest hnext hlast
      exact ⟨v, List.mem_cons_of_mem first hv, hline⟩
    | false =>
      rcases hstep.line_of_between hr hheeded halpha hafter hnext with hline | hline
      · exact ⟨first, by simp, hline⟩
      · exact ⟨next, by simp, hline⟩

/-- A run of allowed upgrades between heeded versions never goes back, stays on its side of the
alpha boundary, and has a version on the line of every release strictly between its ends. -/
theorem route_visits_every_line (first : Version) (rest : List Version) (catalog : List Release)
    (hadmitted : Admitted catalog (first :: rest))
    (hheeded : ∀ v ∈ first :: rest, Heeded catalog v) :
    ((first :: rest).Pairwise fun a b => b.before a = false) ∧
      (∀ v ∈ first :: rest, v.isAlpha = first.isAlpha) ∧
      ∀ r ∈ catalog, r.ignored = false → r.version.isAlpha = false →
        first.before r.version = true →
        r.version.before ((first :: rest).getLast (List.cons_ne_nil first rest)) = true →
        ∃ v ∈ first :: rest, v.sameLine r.version = true := by
  have hchain := advances_of_admitted hadmitted hheeded
  refine ⟨pairwise_of_advances hchain, isAlpha_of_advances hchain, ?_⟩
  intro r hr hnotIgnored halpha hafter hlast
  exact line_of_advances hchain hr hnotIgnored halpha hafter hlast

/-- From 11.3.0 over 11.4.1 to 12.0.0: the release 11.4.0 in between has its line visited. -/
theorem route_visits_line_of_11_4 :
    let first := ofNumbers 11 3 0
    let rest := [ofNumbers 11 4 1, ofNumbers 12 0 0]
    let catalog := [Release.ofVersion first, (Release.ofVersion (ofNumbers 11 5 0)).ignore] ++
      (ofNumbers 11 4 0 :: rest).map Release.ofVersion
    Admitted catalog (first :: rest) ∧ (∀ v ∈ first :: rest, Heeded catalog v) ∧
      ∃ v ∈ first :: rest, v.sameLine (ofNumbers 11 4 0) = true := by
  intro first rest catalog
  have hadmitted : Admitted catalog (first :: rest) := by decide +kernel
  have hheeded : ∀ v ∈ first :: rest, Heeded catalog v := by decide +kernel
  obtain ⟨_, _, hlines⟩ := route_visits_every_line first rest catalog hadmitted hheeded
  have hmem : Release.ofVersion (ofNumbers 11 4 0) ∈ catalog := by decide +kernel
  refine ⟨hadmitted, hheeded, ?_⟩
  exact hlines _ hmem rfl (by decide +kernel) (by decide +kernel) (by decide +kernel)

end ClusterGate.Upgrade
