import ClusterGate.Proofs.Version.Canonical
import ClusterGate.Proofs.Version.Rank

/-!
# Precedence, rule by rule

The rules of precedence, stated without a comparison: which of two identifiers is lower, and which of
two releases comes first. The comparison decides them (`compare_eq_lt_iff`). It is a total order of the
releases, which are told apart by everything but their builds. Main statement: `precedence_total`.
-/

namespace ClusterGate.Version

open Std Text

variable {a b v w : Version} {id other : String} {ids others : List String}

/-! ### The rules -/

/-- The lower one of two identifiers: the smaller number, a number rather than a word, and of two words
the one with the smaller code where they part, or the beginning of the other one. A number is written
in decimal, however long. -/
inductive Lower : String → String → Prop
  | numbers {m n : Nat} (value : m < n) : Lower (toString m) (toString n)
  | numberWord {m : Nat} {word : String} (isWord : ∀ n : Nat, word ≠ toString n) :
      Lower (toString m) word
  | words {word other : String} (isWord : ∀ n : Nat, word ≠ toString n)
      (isWord' : ∀ n : Nat, other ≠ toString n)
      (codes : List.Lex (fun c d : Char => c.toNat < d.toNat) word.toList other.toList) :
      Lower word other

/-- The earlier one of two releases: numbers count from the first one on, a pre-release comes before its
release, and of two pre-releases the one with the lower identifier where they part, or the beginning of
the other one. -/
inductive Precedes (v w : Version) : Prop
  | major (value : v.major < w.major)
  | minor (major : v.major = w.major) (value : v.minor < w.minor)
  | patch (major : v.major = w.major) (minor : v.minor = w.minor) (value : v.patch < w.patch)
  | release (major : v.major = w.major) (minor : v.minor = w.minor) (patch : v.patch = w.patch)
      (early : v.pre ≠ []) (final : w.pre = [])
  | pre (major : v.major = w.major) (minor : v.minor = w.minor) (patch : v.patch = w.patch)
      (early : v.pre ≠ []) (early' : w.pre ≠ []) (identifiers : List.Lex Lower v.pre w.pre)

/-! ### Identifiers -/

/-- A lawful identifier: without leading zeros if it is a number. -/
def Lawful (id : String) : Prop := Identifier id ∧ ¬Padded id

theorem isNumeric_toString (n : Nat) : isNumeric (toString n) = true := by
  rw [isNumeric, List.all_eq_true]
  exact numeral_digits n

theorem exists_of_isNumeric (hid : Lawful id) (h : isNumeric id = true) : ∃ n : Nat, id = toString n :=
  ⟨digitsValue id.toList, String.toList_injective (numeral_of_isNumeric hid.1 hid.2 h).symm⟩

theorem word_iff (hid : Lawful id) : (∀ n : Nat, id ≠ toString n) ↔ isNumeric id = false := by
  constructor
  · intro hword
    rw [Bool.eq_false_iff]
    intro hnumeric
    obtain ⟨n, rfl⟩ := exists_of_isNumeric hid hnumeric
    exact hword n rfl
  · rintro hword n rfl
    rw [isNumeric_toString] at hword
    cases hword

theorem compareIdentifier_numbers (m n : Nat) :
    compareIdentifier (toString m) (toString n) = Ord.compare m n := by
  have hvalue : ∀ k : Nat, digitsValue (toString k).toList = k := digitsValue_numeral
  simp only [compareIdentifier, isNumeric_toString, hvalue]

theorem compareIdentifier_eq_lt_iff (hid : Lawful id) (hother : Lawful other) :
    compareIdentifier id other = .lt ↔ Lower id other := by
  constructor
  · intro h
    cases hnumeric : isNumeric id <;> cases hnumeric' : isNumeric other
    · simp only [compareIdentifier, hnumeric, hnumeric'] at h
      exact .words ((word_iff hid).mpr hnumeric) ((word_iff hother).mpr hnumeric')
        (compareOfLessAndEq_eq_lt.mp h)
    · simp only [compareIdentifier, hnumeric, hnumeric'] at h
      cases h
    · obtain ⟨m, rfl⟩ := exists_of_isNumeric hid hnumeric
      exact .numberWord ((word_iff hother).mpr hnumeric')
    · obtain ⟨m, rfl⟩ := exists_of_isNumeric hid hnumeric
      obtain ⟨n, rfl⟩ := exists_of_isNumeric hother hnumeric'
      rw [compareIdentifier_numbers] at h
      exact .numbers (Nat.compare_eq_lt.mp h)
  · intro h
    cases h with
    | numbers value =>
      rw [compareIdentifier_numbers]
      exact Nat.compare_eq_lt.mpr value
    | numberWord isWord =>
      simp only [compareIdentifier, isNumeric_toString, (word_iff hother).mp isWord]
    | words isWord isWord' codes =>
      simp only [compareIdentifier, (word_iff hid).mp isWord, (word_iff hother).mp isWord']
      exact compareOfLessAndEq_eq_lt.mpr codes

/-- Numbers compare by their length and then as texts, so that no number is too long. -/
theorem compareIdentifier_of_numbers (hid : Lawful id) (hother : Lawful other)
    (hnumeric : isNumeric id = true) (hnumeric' : isNumeric other = true) :
    compareIdentifier id other =
      (Ord.compare id.length other.length).then (Ord.compare id other) := by
  obtain ⟨m, rfl⟩ := exists_of_isNumeric hid hnumeric
  obtain ⟨n, rfl⟩ := exists_of_isNumeric hother hnumeric'
  rw [compareIdentifier_numbers, compare_eq_toString]

theorem compareIdentifiers_eq_lt_iff (hids : ∀ id ∈ ids, Lawful id)
    (hothers : ∀ id ∈ others, Lawful id) :
    compareIdentifiers ids others = .lt ↔ List.Lex Lower ids others := by
  induction ids generalizing others with
  | nil =>
    cases others with
    | nil => simp [compareIdentifiers]
    | cons => simp [compareIdentifiers]
  | cons id ids ih =>
    cases others with
    | nil => simp [compareIdentifiers]
    | cons other others =>
      obtain ⟨hid, hids⟩ := List.forall_mem_cons.mp hids
      obtain ⟨hother, hothers⟩ := List.forall_mem_cons.mp hothers
      -- identifiers of equal rank are equal texts, since no number is padded
      have hequal : compareIdentifier id other = .eq ↔ id = other := by
        constructor
        · exact eq_of_compareIdentifier hid hother
        · rintro rfl
          exact ReflCmp.compare_self
      rw [compareIdentifiers, Ordering.then_eq_lt, compareIdentifier_eq_lt_iff hid hother, hequal,
        ih hids hothers, List.cons_lex_cons_iff]

/-! ### Releases -/

theorem comparePre_eq_lt_iff (hids : ∀ id ∈ ids, Lawful id) (hothers : ∀ id ∈ others, Lawful id) :
    comparePre ids others = .lt ↔
      ids ≠ [] ∧ (others = [] ∨ others ≠ [] ∧ List.Lex Lower ids others) := by
  have hlex := compareIdentifiers_eq_lt_iff hids hothers
  cases ids <;> cases others <;> simp_all [comparePre]

theorem compare_eq_lt_iff (hv : v.WellFormed) (hw : w.WellFormed) :
    compare v w = .lt ↔ v.Precedes w := by
  rw [compare, Ordering.then_eq_lt, Ordering.then_eq_lt, Ordering.then_eq_lt, Nat.compare_eq_lt,
    Nat.compare_eq_lt, Nat.compare_eq_lt, Nat.compare_eq_eq, Nat.compare_eq_eq, Nat.compare_eq_eq,
    comparePre_eq_lt_iff hv.pre hw.pre]
  constructor
  · rintro (hmajor | ⟨hmajor, hminor | ⟨hminor, hpatch | ⟨hpatch, hearly, hfinal | ⟨hearly', hlex⟩⟩⟩⟩)
    · exact .major hmajor
    · exact .minor hmajor hminor
    · exact .patch hmajor hminor hpatch
    · exact .release hmajor hminor hpatch hearly hfinal
    · exact .pre hmajor hminor hpatch hearly hearly' hlex
  · rintro (hmajor | ⟨hmajor, hminor⟩ | ⟨hmajor, hminor, hpatch⟩ |
      ⟨hmajor, hminor, hpatch, hearly, hfinal⟩ | ⟨hmajor, hminor, hpatch, hearly, hearly', hlex⟩)
    · exact Or.inl hmajor
    · exact Or.inr ⟨hmajor, Or.inl hminor⟩
    · exact Or.inr ⟨hmajor, Or.inr ⟨hminor, Or.inl hpatch⟩⟩
    · exact Or.inr ⟨hmajor, Or.inr ⟨hminor, Or.inr ⟨hpatch, hearly, Or.inl hfinal⟩⟩⟩
    · exact Or.inr ⟨hmajor, Or.inr ⟨hminor, Or.inr ⟨hpatch, hearly, Or.inr ⟨hearly', hlex⟩⟩⟩⟩

/-! ### The same release -/

theorem pre_of_preText (hv : v.WellFormed) (hw : w.WellFormed) (h : v.preText = w.preText) :
    v.pre = w.pre := by
  have hlawful : ∀ {u : Version}, u.WellFormed → WellFormed ⟨0, 0, 0, u.pre, []⟩ := fun hu =>
    ⟨Nat.zero_le _, Nat.zero_le _, Nat.zero_le _, hu.pre, fun _ hid => absurd hid List.not_mem_nil⟩
  have htext : text ⟨0, 0, 0, v.pre, []⟩ = text ⟨0, 0, 0, w.pre, []⟩ :=
    text_congr (hlawful hv) (hlawful hw) rfl rfl rfl h rfl
  -- one text cannot be read as two versions
  have hread := (hlawful hv).parse_text
  rw [htext, (hlawful hw).parse_text] at hread
  exact (congrArg Version.pre (Except.ok.inj hread)).symm

theorem same_iff_preText (hv : v.WellFormed) (hw : w.WellFormed) :
    v.same w = true ↔ v.major = w.major ∧ v.minor = w.minor ∧ v.patch = w.patch ∧
      v.preText = w.preText := by
  have hpre : v.pre = w.pre ↔ v.preText = w.preText :=
    ⟨congrArg (".".intercalate ·), pre_of_preText hv hw⟩
  rw [same_iff, key, key, Prod.mk.injEq, Prod.mk.injEq, Prod.mk.injEq, hpre]

theorem same_iff_hashInputs (hv : v.WellFormed) (hw : w.WellFormed) :
    v.same w = true ↔ v.hashInputs = w.hashInputs := by
  rw [same_iff_preText hv hw]
  simp [hashInputs]

theorem compare_eq_eq_iff (hv : v.WellFormed) (hw : w.WellFormed) :
    compare v w = .eq ↔ v.same w = true :=
  ⟨same_of_equal_rank hv hw, equal_rank_of_same⟩

/-! ### The order of the releases -/

/-- Precedence is a total order of the releases. Versions of equal rank are the same release, builds
aside: their numbers and the text of their pre-release agree, and they feed the same to a hasher. The
rules decide which of two releases comes first, numbers being compared at any length, and between two
releases of one line there are only releases of this line. -/
theorem precedence_total (ha : Obtained a) (hb : Obtained b) (c : Version) :
    compare a a = .eq ∧
      compare b a = (compare a b).swap ∧
      ((compare a b).isLE = true ∨ (compare b a).isLE = true) ∧
      ((compare a b).isLE = true → (compare b a).isLE = true → a.same b = true) ∧
      ((compare a b).isLE = true → (compare b c).isLE = true → (compare a c).isLE = true) ∧
      (compare a b = .eq ↔ a.same b = true) ∧
      (a.same b = true ↔ a.major = b.major ∧ a.minor = b.minor ∧ a.patch = b.patch ∧
        a.preText = b.preText) ∧
      (a.same b = true ↔ a.hashInputs = b.hashInputs) ∧
      (compare a b = .lt ↔ a.Precedes b) ∧
      (∀ id ∈ a.pre, ∀ other ∈ b.pre, isNumeric id = true → isNumeric other = true →
        compareIdentifier id other =
          (Ord.compare id.length other.length).then (Ord.compare id other)) ∧
      ((compare a b).isLE = true → (compare b c).isLE = true → a.sameLine c = true →
        a.sameLine b = true) := by
  have hlawful := ha.wellFormed
  have hlawful' := hb.wellFormed
  have hswap : compare b a = (compare a b).swap := OrientedCmp.eq_swap
  have hequal := compare_eq_eq_iff hlawful hlawful'
  refine ⟨ReflCmp.compare_self, hswap, ?total, ?antisymmetric, TransCmp.isLE_trans, hequal,
    same_iff_preText hlawful hlawful', same_iff_hashInputs hlawful hlawful',
    compare_eq_lt_iff hlawful hlawful', ?numbers, ?line⟩
  case total =>
    rw [hswap]
    cases compare a b with
    | lt => exact Or.inl rfl
    | eq => exact Or.inl rfl
    | gt => exact Or.inr rfl
  case antisymmetric => exact fun hab hba => hequal.mp (OrientedCmp.isLE_antisymm hab hba)
  case numbers =>
    intro id hid other hother
    exact compareIdentifier_of_numbers (hlawful.pre id hid) (hlawful'.pre other hother)
  case line =>
    intro hab hbc
    exact sameLine_of_between (not_before_iff.mpr hab) (not_before_iff.mpr hbc)

/-- The tenth candidate comes after the ninth one and before the release, and a rebuilt candidate is
still the same. -/
theorem precedence_total_candidates :
    let ninth : Version := ⟨12, 0, 0, ["rc", "9"], ["linux"]⟩
    let rebuilt : Version := ⟨12, 0, 0, ["rc", "9"], []⟩
    let tenth : Version := ⟨12, 0, 0, ["rc", "10"], []⟩
    let release := ofNumbers 12 0 0
    parse "v12.0-rc.9+linux" = .ok ninth ∧ parse "12-rc.9" = .ok rebuilt ∧
      parse "12-rc.10" = .ok tenth ∧ ninth.Precedes tenth ∧ tenth.Precedes release ∧
      (compare ninth release).isLE = true ∧ ninth.sameLine tenth = true ∧
      ninth.same rebuilt = true ∧ ninth.hashInputs = rebuilt.hashInputs := by
  intro ninth rebuilt tenth release
  have hninth : parse "v12.0-rc.9+linux" = .ok ninth := rfl
  have hrebuilt : parse "12-rc.9" = .ok rebuilt := rfl
  have htenth : parse "12-rc.10" = .ok tenth := rfl
  have hrelease : Obtained release := .made (by decide) (by decide) (by decide)
  have hfirst : compare ninth tenth = .lt := rfl
  have hsecond : compare tenth release = .lt := rfl
  have hequal : compare ninth rebuilt = .eq := rfl
  obtain ⟨-, -, -, -, htrans, -, -, -, hless, -, hline⟩ :=
    precedence_total (.read hninth) (.read htenth) release
  obtain ⟨-, -, -, -, -, -, -, -, hless', -⟩ :=
    precedence_total (.read htenth) hrelease release
  obtain ⟨-, -, -, -, -, hsame, -, hhash, -⟩ :=
    precedence_total (.read hninth) (.read hrebuilt) release
  have hle : (compare ninth tenth).isLE = true := by rw [hfirst]; rfl
  have hle' : (compare tenth release).isLE = true := by rw [hsecond]; rfl
  exact ⟨hninth, hrebuilt, htenth, hless.mp hfirst, hless'.mp hsecond, htrans hle hle',
    hline hle hle' rfl, hsame.mp hequal, hhash.mp (hsame.mp hequal)⟩

end ClusterGate.Version
