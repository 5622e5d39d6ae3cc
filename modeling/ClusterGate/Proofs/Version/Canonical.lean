import ClusterGate.Proofs.Json.Fields
import ClusterGate.Proofs.Json.ReadBack
import ClusterGate.Proofs.Version.Grammar
import ClusterGate.Upgrade.Reason

/-!
# Canonical names

A version prints as a text of the grammar, so its text, its name in a catalog and its JSON are read as
this version. Two versions therefore have one name exactly if they agree in every component. Main
statements: `parse_releaseName` and `printed_canonical`.
-/

namespace ClusterGate.Version

variable {v w : Version} {input : String} {ids others : List String} {mark : Char}

/-- The version was read, or it was made from three numbers of 64 bits. -/
inductive Obtained : Version → Prop
  | read {input : String} {v : Version} (h : parse input = .ok v) : Obtained v
  | made {i j k : Nat} (hi : i ≤ Text.maxWord) (hj : j ≤ Text.maxWord) (hk : k ≤ Text.maxWord) :
      Obtained (ofNumbers i j k)

theorem wellFormed_of_parse (h : parse input = .ok v) : v.WellFormed :=
  (parse_eq_ok_iff.mp h).wellFormed

theorem Obtained.wellFormed (h : Obtained v) : v.WellFormed := by
  cases h with
  | read h => exact wellFormed_of_parse h
  | made hi hj hk =>
    have hnone : ∀ {P : String → Prop}, ∀ id ∈ ([] : List String), P id := fun _ h =>
      absurd h List.not_mem_nil
    exact ⟨hi, hj, hk, hnone, hnone⟩

/-! ### Reading what was printed -/

theorem WellFormed.spells (h : v.WellFormed) (mark : List Char)
    (hmark : mark ∈ [[], ['v'], ['V']]) : Spells (mark ++ v.text.toList) v := by
  have hnone : ∀ c ∈ ([] : List Char), Text.isBlank c = true := fun _ h => absurd h List.not_mem_nil
  have hspells := Spells.intro hnone hnone hmark (core_numbers h) h.pre h.build
  rwa [List.nil_append, List.append_nil, ← toList_text] at hspells

theorem WellFormed.parse_text (h : v.WellFormed) : parse v.text = .ok v := by
  have hspells := h.spells [] (by simp)
  rw [List.nil_append] at hspells
  exact parse_eq_ok_iff.mpr hspells

theorem WellFormed.parse_releaseName (h : v.WellFormed) : parse v.releaseName = .ok v := by
  refine parse_eq_ok_iff.mpr ?_
  rw [releaseName, String.toList_append]
  exact h.spells ['v'] (by simp)

/-- The name of a release that was read is read as this release. -/
theorem parse_releaseName (h : parse input = .ok v) : parse v.releaseName = .ok v :=
  (wellFormed_of_parse h).parse_releaseName

theorem WellFormed.read?_encode (h : v.WellFormed) : read? (Doc.ofValue v.encode) = some v := by
  rw [encode, Doc.ofValue, read?, Doc.text?, Option.bind_some, parse?, h.parse_text]
  rfl

theorem readText_encode (v : Version) :
    Json.readText (Json.compact v.encode) = some (Doc.ofValue v.encode) :=
  -- a single string takes one line in either layout
  Json.readText_pretty (v := v.encode) trivial (Nat.zero_le _)

/-! ### Equal names -/

theorem suffix_congr (hids : ∀ id ∈ ids, Identifier id) (hothers : ∀ id ∈ others, Identifier id)
    (h : ".".intercalate ids = ".".intercalate others) : suffix mark ids = suffix mark others := by
  have hdotted : dotted ids = dotted others := congrArg String.toList h
  have hlength := length_le_dotted hids
  have hlength' := length_le_dotted hothers
  by_cases hne : ids = []
  · have hnone : others = [] := by
      rw [← hdotted, hne] at hlength'
      exact List.length_eq_zero_iff.mp (Nat.le_zero.mp hlength')
    rw [hne, hnone]
  · have hsome : others ≠ [] := by
      rintro rfl
      rw [hdotted] at hlength
      exact hne (List.length_eq_zero_iff.mp (Nat.le_zero.mp hlength))
    rw [suffix_of_ne hne, suffix_of_ne hsome, hdotted]

theorem text_congr (hv : v.WellFormed) (hw : w.WellFormed) (hmajor : v.major = w.major)
    (hminor : v.minor = w.minor) (hpatch : v.patch = w.patch) (hpre : v.preText = w.preText)
    (hbuild : ".".intercalate v.build = ".".intercalate w.build) : v.text = w.text := by
  have hnumbers : v.numbers = w.numbers := by
    rw [numbers, numbers, hmajor, hminor, hpatch]
  have hpre : suffix '-' v.pre = suffix '-' w.pre :=
    suffix_congr (fun id hid => (hv.pre id hid).1) (fun id hid => (hw.pre id hid).1) hpre
  have hbuild : suffix '+' v.build = suffix '+' w.build := suffix_congr hv.build hw.build hbuild
  rw [← String.toList_inj, toList_text, toList_text, hnumbers, hpre, hbuild]

/-- Versions print canonically: the text, the name and the JSON of a version are read as this version,
its build included, and two versions share a name exactly if all their components are the same. -/
theorem printed_canonical (hv : Obtained v) (hw : Obtained w) :
    parse v.text = .ok v ∧ parse v.releaseName = .ok v ∧
      read? (Doc.ofValue v.encode) = some v ∧
      (Json.readText (Json.compact v.encode)).bind read? = some v ∧
      (v.releaseName = w.releaseName ↔ v.major = w.major ∧ v.minor = w.minor ∧ v.patch = w.patch ∧
        v.preText = w.preText ∧ ".".intercalate v.build = ".".intercalate w.build) := by
  have hlawful := hv.wellFormed
  have hlawful' := hw.wellFormed
  have hjson := hlawful.read?_encode
  refine ⟨hlawful.parse_text, hlawful.parse_releaseName, hjson, ?_, ?_, ?_⟩
  · rw [readText_encode, Option.bind_some, hjson]
  · intro hname
    have hparse := hlawful.parse_releaseName
    rw [hname, hlawful'.parse_releaseName] at hparse
    obtain rfl := Except.ok.inj hparse
    exact ⟨rfl, rfl, rfl, rfl, rfl⟩
  · rintro ⟨hmajor, hminor, hpatch, hpre, hbuild⟩
    rw [releaseName, releaseName, text_congr hlawful hlawful' hmajor hminor hpatch hpre hbuild]

theorem printed_canonical_tolerant :
    let v : Version := ⟨1, 28, 0, ["rc-1"], ["007"]⟩
    parse " V1.28-rc-1+007\n" = .ok v ∧ parse v.text = .ok v ∧ parse v.releaseName = .ok v ∧
      read? (Doc.ofValue v.encode) = some v ∧ v.releaseName ≠ (ofNumbers 1 28 0).releaseName := by
  intro v
  have hread : parse " V1.28-rc-1+007\n" = .ok v := rfl
  have hmade : Obtained (ofNumbers 1 28 0) := .made (by decide) (by decide) (by decide)
  obtain ⟨htext, hname, hjson, -, hiff⟩ := printed_canonical (.read hread) hmade
  refine ⟨hread, htext, hname, hjson, fun heq => ?_⟩
  obtain ⟨-, -, -, hpre, -⟩ := hiff.mp heq
  exact absurd hpre (by decide)

end ClusterGate.Version
