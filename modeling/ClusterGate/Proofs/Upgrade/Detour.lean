import ClusterGate.Proofs.Upgrade.Route

/-!
# Ways past a skipped release

A denial for a skipped release names the earliest release that the upgrade would pass over. Going
there first and asking again leads, by allowed upgrades only, to a version from which the upgrade is
allowed. Main statement: `detours_of_skipped`.
-/

namespace ClusterGate.Upgrade

open Version

variable {old new r v w : Version} {catalog : List Release} {e : Release} {versions : List Version}

/-! ### The earliest version -/

theorem mem_of_earliest? (h : earliest? versions = some v) : v ∈ versions := by
  induction versions generalizing v with
  | nil => cases h
  | cons u rest ih =>
    rw [earliest?] at h
    split at h
    next =>
      cases h
      exact List.mem_cons_self
    next w hw =>
      split at h
      next =>
        cases h
        exact List.mem_cons_of_mem _ (ih hw)
      next =>
        cases h
        exact List.mem_cons_self

theorem not_before_earliest? (h : earliest? versions = some v) (hw : w ∈ versions) :
    w.before v = false := by
  induction versions generalizing v w with
  | nil => cases h
  | cons u rest ih =>
    rw [earliest?] at h
    split at h
    next hnone =>
      cases h
      rw [earliest?_eq_none hnone, List.mem_singleton] at hw
      rw [hw]
      exact before_irrefl u
    next first hfirst =>
      split at h
      next hbefore =>
        cases h
        rcases List.mem_cons.mp hw with rfl | hw
        · exact not_before_of_before hbefore
        · exact ih hfirst hw
      next hbefore =>
        cases h
        rcases List.mem_cons.mp hw with rfl | hw
        · exact before_irrefl w
        · exact not_before_trans (Bool.eq_false_iff.mpr hbefore) (ih hfirst hw)

/-! ### What a denial for a skipped release says -/

theorem passesOver_iff :
    passesOver old new e = true ↔ e.ignored = false ∧ e.version.isAlpha = false ∧
      old.before e.version = true ∧ e.version.before new = true ∧
      e.version.sameLine old = false ∧ e.version.sameLine new = false := by
  simp [passesOver, and_assoc]

/-- An upgrade that goes on to the rule on lines and fails it. -/
structure Skips (catalog : List Release) (old new r : Version) : Prop where
  listed : catalog.any (fun e => e.version.same new) = true
  forward : new.before old = false
  alpha : old.isAlpha = new.isAlpha
  release : ∃ e ∈ catalog, passesOver old new e = true ∧ e.version = r
  least : ∀ e ∈ catalog, passesOver old new e = true → e.version.before r = false

theorem skips_of_reasonFor (h : reasonFor old new catalog = .releaseSkipped r) :
    Skips catalog old new r := by
  unfold reasonFor at h
  split at h
  · contradiction
  split at h
  · contradiction
  next hlisted =>
  split at h
  · contradiction
  split at h
  · contradiction
  next hforward =>
  split at h
  · contradiction
  next halpha =>
  split at h
  · contradiction
  split at h
  next skipped hearliest =>
    cases h
    refine ⟨by simpa using hlisted, Bool.eq_false_iff.mpr hforward, by simpa using halpha, ?_, ?_⟩
    · obtain ⟨e, he, hversion⟩ := List.mem_map.mp (mem_of_earliest? hearliest)
      obtain ⟨hmem, hpass⟩ := List.mem_filter.mp he
      exact ⟨e, hmem, hpass, hversion⟩
    · intro e hmem hpass
      have he := List.mem_filter.mpr ⟨hmem, hpass⟩
      exact not_before_earliest? hearliest (List.mem_map_of_mem he)
  next => contradiction

/-- A listed target that is no step back and on the same side of the alpha boundary can only be
denied for a skipped release. -/
theorem allowed_or_skipped (hlisted : catalog.any (fun e => e.version.same new) = true)
    (hforward : new.before old = false) (halpha : old.isAlpha = new.isAlpha) :
    (decide old new catalog).allowed = true ∨
      ∃ r, reasonFor old new catalog = .releaseSkipped r := by
  have hreason : reasonFor old new catalog = .equal ∨ reasonFor old new catalog = .success ∨
      ∃ r, reasonFor old new catalog = .releaseSkipped r := by
    unfold reasonFor
    rw [hlisted, hforward, halpha]
    simp only [Bool.not_true, Bool.false_eq_true, if_false, bne_self_eq_false]
    split
    · exact Or.inl rfl
    split
    · exact Or.inr (Or.inl rfl)
    split
    · exact Or.inr (Or.inl rfl)
    split
    next skipped _ => exact Or.inr (Or.inr ⟨skipped, rfl⟩)
    next => exact Or.inr (Or.inl rfl)
  rcases hreason with hequal | hsuccess | hskipped
  · left
    rw [decide, hequal]
    rfl
  · left
    rw [decide, hsuccess]
    rfl
  · exact Or.inr hskipped

namespace Skips

variable (h : Skips catalog old new r)
include h

theorem after_old : old.before r = true := by
  obtain ⟨e, _, hpass, rfl⟩ := h.release
  exact (passesOver_iff.mp hpass).2.2.1

theorem before_new : r.before new = true := by
  obtain ⟨e, _, hpass, rfl⟩ := h.release
  exact (passesOver_iff.mp hpass).2.2.2.1

theorem not_alpha : r.isAlpha = false := by
  obtain ⟨e, _, hpass, rfl⟩ := h.release
  exact (passesOver_iff.mp hpass).2.1

/-- Nothing is skipped on the way to the earliest release that is skipped: what lies before it is
passed over as well, unless it is on the line of the target, and then so is the release. -/
theorem clear (he : e ∈ catalog) : passesOver old r e = false := by
  rw [← Bool.not_eq_true]
  intro hpass
  obtain ⟨hheeded, halpha, hafter, hbefore, hold, hr⟩ := passesOver_iff.mp hpass
  have hnew : e.version.before new = true := before_trans hbefore h.before_new
  cases hline : e.version.sameLine new with
  | true =>
    have hforward := not_before_of_before hbefore
    have honward := not_before_of_before h.before_new
    have hsame := sameLine_of_between hforward honward hline
    rw [hr] at hsame
    contradiction
  | false =>
    have hskipped := passesOver_iff.mpr ⟨hheeded, halpha, hafter, hnew, hold, hline⟩
    have hleast := h.least e he hskipped
    rw [hbefore] at hleast
    contradiction

theorem listed_release : catalog.any (fun e => e.version.same r) = true := by
  obtain ⟨e, he, _, rfl⟩ := h.release
  exact List.any_eq_true.mpr ⟨e, he, by simp [same]⟩

/-- The release that the denial names is open to upgrades. -/
theorem release_allowed (halpha : old.isAlpha = false) : (decide old r catalog).allowed = true := by
  have hforward := not_before_of_before h.after_old
  have hside : old.isAlpha = r.isAlpha := by rw [halpha, h.not_alpha]
  rcases allowed_or_skipped h.listed_release hforward hside with hallowed | ⟨skipped, hskipped⟩
  · exact hallowed
  · obtain ⟨e, he, hpass, _⟩ := (skips_of_reasonFor hskipped).release
    rw [h.clear he] at hpass
    contradiction

/-- From there the target is allowed or denied for another release that is skipped. -/
theorem onward (halpha : old.isAlpha = false) :
    (decide r new catalog).allowed = true ∨
      ∃ next, reasonFor r new catalog = .releaseSkipped next := by
  have hforward := not_before_of_before h.before_new
  have hside : r.isAlpha = new.isAlpha := by rw [← h.alpha, halpha, h.not_alpha]
  exact allowed_or_skipped h.listed hforward hside

/-- Fewer releases are ahead of the release that is named. -/
theorem fewer_ahead : (catalog.filter fun e => r.before e.version).length <
    (catalog.filter fun e => old.before e.version).length := by
  have hsub : (catalog.filter fun e => r.before e.version) =
      (catalog.filter fun e => old.before e.version).filter fun e => r.before e.version := by
    rw [List.filter_filter]
    refine List.filter_congr fun e _ => ?_
    cases hr : r.before e.version with
    | false => rfl
    | true => rw [before_trans h.after_old hr, Bool.and_self]
  obtain ⟨e, he, hpass, rfl⟩ := h.release
  rw [hsub, List.length_filter_lt_length_iff_exists]
  refine ⟨e, List.mem_filter.mpr ⟨he, h.after_old⟩, ?_⟩
  rw [before_irrefl]
  exact Bool.false_ne_true

end Skips

/-! ### Going where one is told -/

/-- The releases to go to on the way to a target: as long as the target is denied for a skipped
release, this release comes next. -/
def detours (new : Version) (catalog : List Release) (old : Version) : List Version :=
  match _ : reasonFor old new catalog with
  | .releaseSkipped r => r :: detours new catalog r
  | _ => []
termination_by (catalog.filter fun e => old.before e.version).length
decreasing_by
  rename_i hskipped
  exact (skips_of_reasonFor hskipped).fewer_ahead

theorem detours_skipped (h : reasonFor old new catalog = .releaseSkipped r) :
    detours new catalog old = r :: detours new catalog r := by
  rw [detours]
  split
  next hskipped =>
    rw [h] at hskipped
    cases hskipped
    rfl
  next hother => exact absurd h (hother r)

theorem detours_allowed (h : (decide old new catalog).allowed = true) :
    detours new catalog old = [] := by
  rw [detours]
  split
  next hskipped =>
    rw [decide, hskipped] at h
    contradiction
  next => rfl

/-- A move to the release that the denial of the target names. -/
structure Detour (catalog : List Release) (new a b : Version) : Prop where
  named : (decide a new catalog).reason = .releaseSkipped b
  allowed : (decide a b catalog).allowed = true
  onward : a.before b = true

theorem detour_of_skipped (halpha : old.isAlpha = false)
    (h : reasonFor old new catalog = .releaseSkipped r) : Detour catalog new old r where
  named := h
  allowed := (skips_of_reasonFor h).release_allowed halpha
  onward := (skips_of_reasonFor h).after_old

theorem detours_chain {old r : Version} (halpha : old.isAlpha = false)
    (h : reasonFor old new catalog = .releaseSkipped r) :
    (old :: detours new catalog old).IsChain (Detour catalog new) ∧
      (decide ((old :: detours new catalog old).getLast (List.cons_ne_nil _ _)) new
        catalog).allowed = true := by
  have hskips := skips_of_reasonFor h
  have hdetour := detour_of_skipped halpha h
  simp only [detours_skipped h]
  rw [List.getLast_cons (List.cons_ne_nil _ _)]
  rcases hskips.onward halpha with hallowed | ⟨next, hnext⟩
  · simp only [detours_allowed hallowed]
    have hlast := List.IsChain.singleton (R := Detour catalog new) r
    exact ⟨List.isChain_cons_cons.mpr ⟨hdetour, hlast⟩, hallowed⟩
  · have hfewer := hskips.fewer_ahead
    obtain ⟨hchain, hlast⟩ := detours_chain hskips.not_alpha hnext
    exact ⟨List.isChain_cons_cons.mpr ⟨hdetour, hchain⟩, hlast⟩
termination_by (catalog.filter fun e => old.before e.version).length

/-- The release that a denial names lies on the way, is listed, and may be upgraded to. Going on like
this as long as the target is denied for a skipped release takes finitely many allowed moves, each
upwards, and ends where the target is allowed. -/
theorem detours_of_skipped (old new r : Version) (catalog : List Release)
    (hold : old.isAlpha = false) (hskipped : (decide old new catalog).reason = .releaseSkipped r) :
    (old.before r = true ∧ r.before new = true) ∧
      (∃ e ∈ catalog, e.version = r ∧ e.ignored = false ∧ e.version.isAlpha = false) ∧
      (decide old r catalog).allowed = true ∧
      (detours new catalog old).head? = some r ∧
      (old :: detours new catalog old).IsChain (Detour catalog new) ∧
      (decide ((old :: detours new catalog old).getLast (List.cons_ne_nil _ _)) new
        catalog).allowed = true := by
  have hreason : reasonFor old new catalog = .releaseSkipped r := hskipped
  have hskips := skips_of_reasonFor hreason
  obtain ⟨e, he, hpass, hversion⟩ := hskips.release
  obtain ⟨hheeded, halpha, _⟩ := passesOver_iff.mp hpass
  refine ⟨⟨hskips.after_old, hskips.before_new⟩, ⟨e, he, hversion, hheeded, halpha⟩, ?_, ?_, ?_⟩
  · exact hskips.release_allowed hold
  · rw [detours_skipped hreason]
    rfl
  · exact detours_chain hold hreason

/-- From 11.3.0 to 13.0.0 in an unsorted catalog with a duplicate: by 11.4.0, then by 12.0.0. -/
theorem detours_by_11_4 :
    let old := ofNumbers 11 3 0
    let new := ofNumbers 13 0 0
    let r := ofNumbers 11 4 0
    let catalog := [Release.ofVersion new, Release.ofVersion (ofNumbers 12 0 0), Release.ofVersion r,
      Release.ofVersion (ofNumbers 11 5 0) |>.ignore, Release.ofVersion r, Release.ofVersion old]
    old.isAlpha = false ∧ (decide old new catalog).reason = .releaseSkipped r ∧
      (decide old r catalog).allowed = true ∧ (detours new catalog old).head? = some r ∧
      (decide ((old :: detours new catalog old).getLast (List.cons_ne_nil _ _)) new
        catalog).allowed = true := by
  intro old new r catalog
  have hold : old.isAlpha = false := by decide +kernel
  have hskipped : (decide old new catalog).reason = .releaseSkipped r := by decide +kernel
  obtain ⟨_, _, hallowed, hfirst, _, hlast⟩ := detours_of_skipped old new r catalog hold hskipped
  exact ⟨hold, hskipped, hallowed, hfirst, hlast⟩

end ClusterGate.Upgrade
