import ClusterGate.Proofs.Upgrade.Detour
import ClusterGate.Proofs.Version.Canonical
import ClusterGate.Proofs.Version.Rank

/-!
# What a decision reads in a catalog

A decision looks at three things in a catalog: whether the target is listed, whether an end of the
upgrade is ignored, and which releases the upgrade would pass over. Catalogs that agree on these give
the same decision. Main statement: `decide_of_relevant_facts`.
-/

namespace ClusterGate.Upgrade

open Version

variable {old new v w : Version} {catalog other : List Release} {r s : Release}

/-! ### Decisions up to builds -/

/-- Same reason, whatever the builds. -/
def Reason.same : Reason → Reason → Bool
  | .releaseSkipped v, .releaseSkipped w => v.same w
  | a, b => a == b

def Decision.same (a b : Decision) : Bool :=
  a.old.same b.old && a.new.same b.new && a.allowed == b.allowed && a.reason.same b.reason

theorem Reason.same_refl (reason : Reason) : reason.same reason = true := by
  cases reason with
  | releaseSkipped v => exact Version.same_refl v
  | _ => rfl

theorem Reason.isAllowed_of_same {a b : Reason} (h : a.same b = true) : a.isAllowed = b.isAllowed := by
  cases a <;> cases b <;> first | rfl | contradiction

theorem decide_same (h : (reasonFor old new catalog).same (reasonFor old new other) = true) :
    (decide old new catalog).same (decide old new other) = true := by
  simp [Decision.same, decide, Version.same_refl, Reason.isAllowed_of_same h, h]

/-! ### The facts that count -/

/-- A release that is neither ignored nor an alpha, strictly between the ends of an upgrade and on a
line of its own. -/
structure Between (old new : Version) (r : Release) : Prop where
  heeded : r.ignored = false
  stable : r.version.isAlpha = false
  after_old : old.before r.version = true
  before_new : r.version.before new = true
  off_old : r.version.sameLine old = false
  off_new : r.version.sameLine new = false

/-- A catalog has an entry for a version. -/
def HasRelease (catalog : List Release) (v : Version) : Prop := ∃ r ∈ catalog, r.version.same v = true

/-- An end of the upgrade has an entry that is ignored. -/
def IgnoresEnd (old new : Version) (catalog : List Release) : Prop :=
  ∃ r ∈ catalog, (r.version.same old = true ∨ r.version.same new = true) ∧ r.ignored = true

/-- A catalog has an entry for a version that the upgrade would pass over. -/
def Skippable (old new : Version) (catalog : List Release) (v : Version) : Prop :=
  ∃ r ∈ catalog, Between old new r ∧ r.version.same v = true

/-- Two catalogs agree on what counts for an upgrade. -/
structure Agree (old new : Version) (catalog other : List Release) : Prop where
  release : HasRelease catalog new ↔ HasRelease other new
  ignores : IgnoresEnd old new catalog ↔ IgnoresEnd old new other
  skippable : ∀ v, Skippable old new catalog v ↔ Skippable old new other v

theorem passesOver_iff_between : passesOver old new r = true ↔ Between old new r := by
  rw [passesOver_iff]
  constructor
  · rintro ⟨hheeded, hstable, hafter, hbefore, hold, hnew⟩
    exact ⟨hheeded, hstable, hafter, hbefore, hold, hnew⟩
  · intro h
    exact ⟨h.heeded, h.stable, h.after_old, h.before_new, h.off_old, h.off_new⟩

theorem any_same_iff : catalog.any (fun r => r.version.same v) = true ↔ HasRelease catalog v := by
  simp [HasRelease]

theorem any_ignored_iff :
    catalog.any (fun r => (r.version.same old || r.version.same new) && r.ignored) = true ↔
      IgnoresEnd old new catalog := by
  simp [IgnoresEnd]

/-- The versions that an upgrade would pass over, as listed. -/
def passed (old new : Version) (catalog : List Release) : List Version :=
  (catalog.filter (passesOver old new)).map Release.version

theorem mem_passed : v ∈ passed old new catalog ↔ ∃ r ∈ catalog, Between old new r ∧ r.version = v := by
  simp [passed, passesOver_iff_between, and_assoc]

theorem skippable_iff : Skippable old new catalog v ↔ ∃ w ∈ passed old new catalog, w.same v = true := by
  constructor
  · rintro ⟨r, hr, hbetween, hsame⟩
    exact ⟨r.version, mem_passed.mpr ⟨r, hr, hbetween, rfl⟩, hsame⟩
  · rintro ⟨w, hw, hsame⟩
    obtain ⟨r, hr, hbetween, rfl⟩ := mem_passed.mp hw
    exact ⟨r, hr, hbetween, hsame⟩

theorem passed_eq_nil_iff : passed old new catalog = [] ↔ ∀ v, ¬Skippable old new catalog v := by
  rw [List.eq_nil_iff_forall_not_mem]
  constructor
  · rintro h v hv
    obtain ⟨w, hw, _⟩ := skippable_iff.mp hv
    exact h w hw
  · intro h v hv
    exact h v (skippable_iff.mpr ⟨v, hv, Version.same_refl v⟩)

/-- The earliest version passed over is not later than any release that is passed over. -/
theorem not_before_of_skippable (h : earliest? (passed old new catalog) = some v)
    (hw : Skippable old new catalog w) : w.before v = false := by
  obtain ⟨u, hu, hsame⟩ := skippable_iff.mp hw
  rw [← before_congr_left hsame]
  exact not_before_earliest? h hu

theorem skippable_of_earliest? (h : earliest? (passed old new catalog) = some v) :
    Skippable old new catalog v :=
  skippable_iff.mpr ⟨v, mem_of_earliest? h, Version.same_refl v⟩

/-- The last rule, which denies what would pass over a release. -/
def lineRule (old new : Version) (catalog : List Release) : Reason :=
  match earliest? (passed old new catalog) with
  | some skipped => .releaseSkipped skipped
  | none => .success

theorem reasonFor_eq : reasonFor old new catalog =
    if old.same new then .equal
    else if !catalog.any (fun r => r.version.same new) then .releaseNotFound
    else if catalog.any (fun r => (r.version.same old || r.version.same new) && r.ignored)
    then .success
    else if new.before old then .downgrade
    else if old.isAlpha != new.isAlpha then .alphaBoundary
    else if old.sameLine new then .success
    else lineRule old new catalog := rfl

theorem lineRule_allowed_iff :
    (lineRule old new catalog).isAllowed = true ↔ passed old new catalog = [] := by
  unfold lineRule
  cases hearliest : earliest? (passed old new catalog) with
  | none => simp [Reason.isAllowed, earliest?_eq_none hearliest]
  | some v =>
    have hmem := mem_of_earliest? hearliest
    simp [Reason.isAllowed, List.ne_nil_of_mem hmem]

/-! ### Catalogs that agree -/

theorem earliest_same (hcatalog : ∀ r ∈ catalog, Between old new r → r.version.WellFormed)
    (hother : ∀ r ∈ other, Between old new r → r.version.WellFormed)
    (h : ∀ v, Skippable old new catalog v ↔ Skippable old new other v)
    (hv : earliest? (passed old new catalog) = some v)
    (hw : earliest? (passed old new other) = some w) : v.same w = true := by
  obtain ⟨r, hr, hbetween, rfl⟩ := mem_passed.mp (mem_of_earliest? hv)
  obtain ⟨s, hs, hbetween', rfl⟩ := mem_passed.mp (mem_of_earliest? hw)
  -- each of the two is passed over in the other catalog as well, hence not before the earliest there
  have hrs := not_before_of_skippable hw ((h r.version).mp (skippable_of_earliest? hv))
  have hsr := not_before_of_skippable hv ((h s.version).mpr (skippable_of_earliest? hw))
  exact same_of_not_before (hcatalog r hr hbetween) (hother s hs hbetween') hrs hsr

theorem reasonFor_same (hcatalog : ∀ r ∈ catalog, Between old new r → r.version.WellFormed)
    (hother : ∀ r ∈ other, Between old new r → r.version.WellFormed)
    (h : Agree old new catalog other) :
    (reasonFor old new catalog).same (reasonFor old new other) = true := by
  have hlists := Bool.eq_iff_iff.mpr (any_same_iff.trans (h.release.trans any_same_iff.symm))
  have hignores := Bool.eq_iff_iff.mpr (any_ignored_iff.trans (h.ignores.trans any_ignored_iff.symm))
  have hnil : passed old new catalog = [] ↔ passed old new other = [] := by
    simp only [passed_eq_nil_iff, h.skippable]
  rw [reasonFor_eq, reasonFor_eq, hlists, hignores]
  -- both go the same way up to the last rule
  split_ifs
  all_goals try exact Reason.same_refl _
  unfold lineRule
  cases hv : earliest? (passed old new catalog) with
  | none =>
    rw [hnil.mp (earliest?_eq_none hv)]
    rfl
  | some v =>
    cases hw : earliest? (passed old new other) with
    | none =>
      rw [hnil.mpr (earliest?_eq_none hw)] at hv
      contradiction
    | some w => exact earliest_same hcatalog hother h.skippable hv hw

/-- An entry that does not count: not for an end of the upgrade, and ignored, an alpha or not strictly
between the ends. -/
structure Idle (old new : Version) (r : Release) : Prop where
  not_old : r.version.same old = false
  not_new : r.version.same new = false
  idle : r.ignored = true ∨ r.version.isAlpha = true ∨ old.before r.version = false ∨
    r.version.before new = false

theorem Idle.not_between (h : Idle old new r) : ¬Between old new r := by
  intro hbetween
  rcases h.idle with hignored | halpha | hafter | hbefore
  · exact Bool.false_ne_true (hbetween.heeded.symm.trans hignored)
  · exact Bool.false_ne_true (hbetween.stable.symm.trans halpha)
  · exact Bool.false_ne_true (hafter.symm.trans hbetween.after_old)
  · exact Bool.false_ne_true (hbefore.symm.trans hbetween.before_new)

theorem agree_of_idle (hsub : catalog ⊆ other) (hidle : ∀ r ∈ other, r ∈ catalog ∨ Idle old new r) :
    Agree old new catalog other := by
  refine ⟨⟨?_, ?_⟩, ⟨?_, ?_⟩, fun v => ⟨?_, ?_⟩⟩
  · rintro ⟨r, hr, hsame⟩
    exact ⟨r, hsub hr, hsame⟩
  · rintro ⟨r, hr, hsame⟩
    rcases hidle r hr with hr | hr
    · exact ⟨r, hr, hsame⟩
    · exact absurd (hr.not_new.symm.trans hsame) Bool.false_ne_true
  · rintro ⟨r, hr, hend⟩
    exact ⟨r, hsub hr, hend⟩
  · rintro ⟨r, hr, hend, hignored⟩
    rcases hidle r hr with hr | hr
    · exact ⟨r, hr, hend, hignored⟩
    · rcases hend with hold | hnew
      · exact absurd (hr.not_old.symm.trans hold) Bool.false_ne_true
      · exact absurd (hr.not_new.symm.trans hnew) Bool.false_ne_true
  · rintro ⟨r, hr, hbetween, hsame⟩
    exact ⟨r, hsub hr, hbetween, hsame⟩
  · rintro ⟨r, hr, hbetween, hsame⟩
    rcases hidle r hr with hr | hr
    · exact ⟨r, hr, hbetween, hsame⟩
    · exact absurd hbetween hr.not_between

/-! ### More entries ignored -/

/-- An upgrade is allowed if it stays in place, or if the target is listed and an end is ignored or
all other rules are met. -/
theorem allowed_iff : (decide old new catalog).allowed = true ↔ old.same new = true ∨
    HasRelease catalog new ∧ (IgnoresEnd old new catalog ∨
      new.before old = false ∧ old.isAlpha = new.isAlpha ∧
        (old.sameLine new = true ∨ ∀ v, ¬Skippable old new catalog v)) := by
  rw [← any_same_iff, ← any_ignored_iff, ← passed_eq_nil_iff]
  change (reasonFor old new catalog).isAllowed = true ↔ _
  rw [reasonFor_eq]
  split_ifs
  any_goals rw [lineRule_allowed_iff]
  all_goals simp_all [Reason.isAllowed]

/-- The same entry, which may be ignored where it was not. -/
structure Marked (r s : Release) : Prop where
  version : s.version = r.version
  rawName : s.rawName = r.rawName
  ignored : r.ignored = true → s.ignored = true

theorem exists_related {α β : Type} {R : α → β → Prop} {as : List α} {bs : List β} {a : α}
    (h : List.Forall₂ R as bs) (ha : a ∈ as) : ∃ b ∈ bs, R a b := by
  induction h with
  | nil => cases ha
  | cons hfirst _ ih =>
    rcases List.mem_cons.mp ha with rfl | ha
    · exact ⟨_, List.mem_cons_self, hfirst⟩
    · obtain ⟨b, hb, hrelated⟩ := ih ha
      exact ⟨b, List.mem_cons_of_mem _ hb, hrelated⟩

theorem Marked.between (hmarked : Marked r s) (h : Between old new s) : Between old new r := by
  obtain ⟨hheeded, hstable, hafter, hbefore, hold, hnew⟩ := h
  rw [hmarked.version] at hstable hafter hbefore hold hnew
  refine ⟨?_, hstable, hafter, hbefore, hold, hnew⟩
  rw [← Bool.not_eq_true]
  intro hignored
  rw [hmarked.ignored hignored] at hheeded
  contradiction

/-- Ignoring more releases can only take denials away. -/
theorem allowed_of_marked (h : List.Forall₂ Marked catalog other)
    (hallowed : (decide old new catalog).allowed = true) : (decide old new other).allowed = true := by
  have hback : List.Forall₂ (flip Marked) other catalog := List.Forall₂.flip h
  rw [allowed_iff] at hallowed ⊢
  rcases hallowed with hsame | ⟨⟨r, hr, hlisted⟩, hrules⟩
  · exact Or.inl hsame
  · obtain ⟨s, hs, hmarked⟩ := exists_related h hr
    refine Or.inr ⟨⟨s, hs, hmarked.version ▸ hlisted⟩, ?_⟩
    rcases hrules with ⟨r, hr, hend, hignored⟩ | ⟨hforward, halpha, hskips⟩
    · obtain ⟨s, hs, hmarked⟩ := exists_related h hr
      exact Or.inl ⟨s, hs, hmarked.version ▸ hend, hmarked.ignored hignored⟩
    · refine Or.inr ⟨hforward, halpha, ?_⟩
      rcases hskips with hline | hnone
      · exact Or.inl hline
      · apply Or.inr
        rintro v ⟨s, hs, hbetween, hsame⟩
        obtain ⟨r, hr, hmarked⟩ := exists_related hback hs
        change Marked r s at hmarked
        exact hnone v ⟨r, hr, hmarked.between hbetween, hmarked.version ▸ hsame⟩

/-! ### The facts decide -/

theorem least_of_reasonFor (h : reasonFor old new catalog = .releaseSkipped v) :
    (∃ r ∈ catalog, Between old new r ∧ r.version = v) ∧
      ∀ w, Skippable old new catalog w → w.before v = false := by
  have hskips := skips_of_reasonFor h
  obtain ⟨r, hr, hpass, hversion⟩ := hskips.release
  refine ⟨⟨r, hr, passesOver_iff_between.mp hpass, hversion⟩, ?_⟩
  rintro w ⟨s, hs, hbetween, hsame⟩
  rw [← before_congr_left hsame]
  exact hskips.least s hs (passesOver_iff_between.mpr hbetween)

/-- A decision rests on the relevant facts of the catalog alone. Catalogs that agree on them give the
same decision, and a denial for a skipped release names the first of those passed over. Hence the
order of the entries, duplicates and entries that do not count have no effect, and ignoring more
entries never takes an allowed upgrade back. -/
theorem decide_of_relevant_facts (old new : Version) (catalog : List Release)
    (hcatalog : ∀ r ∈ catalog, r.version.WellFormed) :
    (∀ other, (∀ r ∈ other, r.version.WellFormed) → Agree old new catalog other →
        (decide old new catalog).same (decide old new other) = true) ∧
      (∀ v, (decide old new catalog).reason = .releaseSkipped v →
        (∃ r ∈ catalog, Between old new r ∧ r.version = v) ∧
          ∀ w, Skippable old new catalog w → w.before v = false) ∧
      (∀ other, catalog ⊆ other → (∀ r ∈ other, r ∈ catalog ∨ Idle old new r) →
        (decide old new catalog).same (decide old new other) = true) ∧
      ∀ other, List.Forall₂ Marked catalog other → (decide old new catalog).allowed = true →
        (decide old new other).allowed = true := by
  refine ⟨?_, ?_, ?_, ?_⟩
  · intro other hother hagree
    apply decide_same
    exact reasonFor_same (fun r hr _ => hcatalog r hr) (fun r hr _ => hother r hr) hagree
  · intro v hskipped
    exact least_of_reasonFor hskipped
  · intro other hsub hidle
    apply decide_same
    refine reasonFor_same (fun r hr _ => hcatalog r hr) (fun r hr hbetween => ?_)
      (agree_of_idle hsub hidle)
    rcases hidle r hr with hr | hr
    · exact hcatalog r hr
    · exact absurd hbetween hr.not_between
  · intro other hmarked hallowed
    exact allowed_of_marked hmarked hallowed

/-- From 11.3.0 to 13.0.0, with a skipped release that is listed under two builds. Reversing the
entries, and adding an alpha and a release behind the target, changes the build that is named at most.
The upgrade to the skipped release stays allowed when all entries are ignored. -/
theorem decide_past_11_4 :
    let old := ofNumbers 11 3 0
    let new := ofNumbers 13 0 0
    let r : Version := ⟨11, 4, 0, [], ["7"]⟩
    let alpha : Version := ⟨12, 0, 0, ["alpha"], []⟩
    let catalog := [Release.ofVersion new, Release.ofVersion r, Release.ofVersion (ofNumbers 11 4 0)]
    let other := catalog.reverse ++ [Release.ofVersion alpha, Release.ofVersion (ofNumbers 14 0 0)]
    (decide old new catalog).reason = .releaseSkipped r ∧
      (decide old new catalog).same (decide old new other) = true ∧
      (∀ w, Skippable old new catalog w → w.before r = false) ∧
      (decide old (ofNumbers 11 4 0) (catalog.map Release.ignore)).allowed = true := by
  intro old new r alpha catalog other
  have hr : parse "11.4.0+7" = .ok r := rfl
  have hmade : ∀ {i j}, i ≤ Text.maxWord → j ≤ Text.maxWord → (ofNumbers i j 0).WellFormed :=
    fun hi hj => (Obtained.made hi hj (by decide)).wellFormed
  have hcatalog : ∀ e ∈ catalog, e.version.WellFormed := by
    simp only [catalog, List.forall_mem_cons]
    exact ⟨hmade (by decide) (by decide), wellFormed_of_parse hr, hmade (by decide) (by decide), nofun⟩
  have hskipped : (decide old new catalog).reason = .releaseSkipped r := by decide +kernel
  obtain ⟨-, hleast, hidle, -⟩ := decide_of_relevant_facts old new catalog hcatalog
  obtain ⟨-, -, -, hmarked⟩ := decide_of_relevant_facts old (ofNumbers 11 4 0) catalog hcatalog
  refine ⟨hskipped, hidle other ?_ ?_, (hleast r hskipped).2, hmarked _ ?_ (by decide +kernel)⟩
  · intro e he
    exact List.mem_append_left _ (List.mem_reverse.mpr he)
  · intro e he
    rcases List.mem_append.mp he with he | he
    · exact Or.inl (List.mem_reverse.mp he)
    · right
      rcases List.mem_cons.mp he with rfl | he
      · exact ⟨by decide +kernel, by decide +kernel, by decide +kernel⟩
      · obtain rfl := List.mem_singleton.mp he
        exact ⟨by decide +kernel, by decide +kernel, by decide +kernel⟩
  · rw [List.forall₂_map_right_iff, List.forall₂_same]
    exact fun e _ => ⟨rfl, rfl, fun _ => rfl⟩

end ClusterGate.Upgrade
