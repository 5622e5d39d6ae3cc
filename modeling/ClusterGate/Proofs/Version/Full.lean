import ClusterGate.Proofs.Text.Numeral
import ClusterGate.Version.Parser
import Mathlib.Data.List.TakeWhile

/-!
# Full versions

A full version can be spelled in one way only: what is read as one is the text of the version, and the
text of a version whose numbers have 64 bits and whose identifiers are lawful is read as this version.
Main statement: `readFull_eq_ok_iff`.
-/

namespace ClusterGate.Version

open Text

variable {part : Part} {mark c : Char} {cs rest : List Char} {n fuel : Nat} {id : String}
  {ids : List String} {v : Version}

/-! ### Identifiers and versions that are lawful -/

/-- One or more ASCII letters, digits and hyphens. -/
structure Identifier (id : String) : Prop where
  some : id.toList ≠ []
  chars : ∀ c ∈ id.toList, isIdentifierChar c = true

/-- Several digits and nothing else, the first of them a zero. -/
structure Padded (id : String) : Prop where
  digits : ∀ c ∈ id.toList, isDigit c = true
  several : 1 < id.toList.length
  zero : id.toList.head? = .some '0'

/-- The version has a text: its numbers have 64 bits, and its pre-release and its build consist of
identifiers, those of the pre-release without leading zeros. -/
structure WellFormed (v : Version) : Prop where
  major : v.major ≤ maxWord
  minor : v.minor ≤ maxWord
  patch : v.patch ≤ maxWord
  pre : ∀ id ∈ v.pre, Identifier id ∧ ¬Padded id
  build : ∀ id ∈ v.build, Identifier id

/-- An identifier is accepted in a part of a version. -/
def Accepted (part : Part) (id : String) : Prop := Identifier id ∧ (part = .pre → ¬Padded id)

theorem zeroLed_iff (h : id.toList ≠ []) : zeroLed id.toList = true ↔ Padded id := by
  have hlength : id.toList.length ≠ 0 := fun hzero => h (List.length_eq_zero_iff.mp hzero)
  simp only [zeroLed, Bool.and_eq_true, List.all_eq_true, bne_iff_ne, beq_iff_eq]
  constructor
  · rintro ⟨⟨hdigits, hone⟩, hzero⟩
    exact ⟨hdigits, by omega, hzero⟩
  · intro hpadded
    have hseveral := hpadded.several
    exact ⟨⟨hpadded.digits, by omega⟩, hpadded.zero⟩

/-! ### Runs of characters -/

/-- The text does not go on with a character of the kind. -/
def Past (p : Char → Bool) (rest : List Char) : Prop := ∀ c ∈ rest.head?, p c = false

theorem past_nil (p : Char → Bool) : Past p [] := fun _ h => nomatch h

theorem past_cons {p : Char → Bool} (h : p c = false) : Past p (c :: rest) := by
  intro d hd
  obtain rfl : c = d := Option.some.inj hd
  exact h

theorem span_of_past {p : Char → Bool} (h : ∀ c ∈ cs, p c = true) (hrest : Past p rest) :
    (cs ++ rest).takeWhile p = cs ∧ (cs ++ rest).dropWhile p = rest := by
  rw [List.takeWhile_append_of_pos h, List.dropWhile_append_of_pos h]
  cases rest with
  | nil => exact ⟨List.append_nil cs, rfl⟩
  | cons c rest =>
    have hc : p c = false := hrest c rfl
    rw [List.takeWhile_cons_of_neg (by simp [hc]), List.dropWhile_cons_of_neg (by simp [hc])]
    exact ⟨List.append_nil cs, rfl⟩

theorem ok_of_bind {α β : Type} {x : Except Fault α} {f : α → Except Fault β} {b : β}
    (h : (x >>= f) = .ok b) : ∃ a, x = .ok a ∧ f a = .ok b := by
  cases x with
  | error fault => cases h
  | ok a => exact ⟨a, rfl, h⟩

/-! ### Numbers and dots -/

def numeral (n : Nat) : List Char := (toString n).toList

theorem numeral_eq (n : Nat) : numeral n = Nat.toDigits 10 n := toList_toString n

theorem numeral_ne_nil (n : Nat) : numeral n ≠ [] := numeral_eq n ▸ Nat.toDigits_ne_nil

theorem numeral_digits (n : Nat) : ∀ c ∈ numeral n, isDigit c = true := by
  rw [numeral_eq]
  exact List.all_eq_true.mp (toDigits_all_isDigit n)

theorem digitsValue_numeral (n : Nat) : digitsValue (numeral n) = n := by
  rw [numeral_eq, digitsValue_toDigits]

theorem numeral_injective : Function.Injective numeral := by
  intro m n h
  rw [← digitsValue_numeral m, h, digitsValue_numeral]

theorem numeral_unpadded (n : Nat) (h : (numeral n).head? = some '0') : numeral n = ['0'] := by
  rcases Nat.eq_zero_or_pos n with rfl | hpos
  · rfl
  · rw [numeral_eq] at h
    exact absurd h (head?_toDigits_ne_zero hpos)

theorem numeral_of_digits (hne : cs ≠ []) (hdigits : ∀ c ∈ cs, isDigit c = true)
    (hlead : cs.head? = some '0' → cs = ['0']) : numeral (digitsValue cs) = cs := by
  rw [numeral_eq, toDigits_digitsValue hne hdigits hlead]

theorem number_ok (h : number part cs = .ok (n, rest)) : cs = numeral n ++ rest ∧ n ≤ maxWord := by
  have hsplit : cs.takeWhile isDigit ++ cs.dropWhile isDigit = cs := List.takeWhile_append_dropWhile
  have hdigits : ∀ c ∈ cs.takeWhile isDigit, isDigit c = true := fun c hc => List.mem_takeWhile_imp hc
  unfold number at h
  generalize cs.takeWhile isDigit = digits at h hsplit hdigits
  generalize cs.dropWhile isDigit = behind at h hsplit
  match digits, behind with
  | [], [] => cases h
  | [], c :: _ => cases h
  | d :: ds, behind =>
    simp only at h
    split_ifs at h with hzero hlarge
    cases h
    have hcanonical : numeral (digitsValue (d :: ds)) = d :: ds := by
      refine numeral_of_digits (List.cons_ne_nil d ds) hdigits fun hhead => ?_
      by_contra hne
      exact hzero ⟨hhead, hne⟩
    rw [hcanonical, hsplit]
    exact ⟨rfl, Nat.le_of_not_lt hlarge⟩

theorem number_append (h : n ≤ maxWord) (hrest : Past isDigit rest) :
    number part (numeral n ++ rest) = .ok (n, rest) := by
  obtain ⟨htake, hdrop⟩ := span_of_past (numeral_digits n) hrest
  have hvalue := digitsValue_numeral n
  have hunpadded := numeral_unpadded n
  unfold number
  rw [htake, hdrop]
  obtain ⟨d, ds, hnumeral⟩ := List.exists_cons_of_ne_nil (numeral_ne_nil n)
  rw [hnumeral] at hvalue hunpadded ⊢
  simp only
  rw [if_neg (fun hzero => hzero.2 (hunpadded hzero.1)), hvalue, if_neg (Nat.not_lt.mpr h)]

theorem dot_ok (h : dot part cs = .ok rest) : cs = '.' :: rest := by
  unfold dot at h
  split at h
  · cases h
    rfl
  · cases h
  · cases h

/-! ### Identifiers behind a mark -/

/-- The characters of identifiers with dots between them. -/
def dotted (ids : List String) : List Char := (".".intercalate ids).toList

theorem dotted_cons_cons (first second : String) (others : List String) :
    dotted (first :: second :: others) = first.toList ++ '.' :: dotted (second :: others) := by
  rw [dotted, dotted, String.toList_intercalate, String.toList_intercalate, List.map_cons,
    List.map_cons, List.intercalate_cons_cons, List.append_assoc]
  rfl

theorem dotted_singleton (only : String) : dotted [only] = only.toList := by
  rw [dotted, String.toList_intercalate]
  simp [List.intercalate]

theorem mem_dotted (h : c ∈ dotted ids) : c = '.' ∨ ∃ id ∈ ids, c ∈ id.toList := by
  induction ids with
  | nil => cases h
  | cons first others ih =>
    cases others with
    | nil =>
      rw [dotted_singleton] at h
      exact Or.inr ⟨first, List.mem_cons_self, h⟩
    | cons second others =>
      rw [dotted_cons_cons, List.mem_append, List.mem_cons] at h
      rcases h with hfirst | rfl | hothers
      · exact Or.inr ⟨first, List.mem_cons_self, hfirst⟩
      · exact Or.inl rfl
      · rcases ih hothers with hdot | ⟨id, hid, hc⟩
        · exact Or.inl hdot
        · exact Or.inr ⟨id, List.mem_cons_of_mem _ hid, hc⟩

theorem dotted_chars (h : ∀ id ∈ ids, Identifier id) (hc : c ∈ dotted ids) :
    isIdentifierChar c = true ∨ c = '.' := by
  rcases mem_dotted hc with hdot | ⟨id, hid, hmem⟩
  · exact Or.inr hdot
  · exact Or.inl ((h id hid).chars c hmem)

theorem length_le_dotted (h : ∀ id ∈ ids, Identifier id) : ids.length ≤ (dotted ids).length := by
  induction ids with
  | nil => exact Nat.zero_le _
  | cons first others ih =>
    have hothers := ih fun id hid => h id (List.mem_cons_of_mem _ hid)
    have hfirst := List.length_pos_iff.mpr (h first List.mem_cons_self).some
    cases others with
    | nil =>
      rw [dotted_singleton]
      exact hfirst
    | cons second others =>
      rw [dotted_cons_cons]
      simp only [List.length_append, List.length_cons] at hothers ⊢
      omega

theorem accepted_ofList {f : Char} {fs : List Char}
    (hchars : ∀ c ∈ f :: fs, isIdentifierChar c = true)
    (hzero : ¬(part = .pre ∧ zeroLed (f :: fs) = true)) : Accepted part (String.ofList (f :: fs)) := by
  have hlist : (String.ofList (f :: fs)).toList = f :: fs := String.toList_ofList
  have hne : (String.ofList (f :: fs)).toList ≠ [] := by
    rw [hlist]
    exact List.cons_ne_nil f fs
  have hidentifier : Identifier (String.ofList (f :: fs)) := by
    refine ⟨hne, ?_⟩
    rw [hlist]
    exact hchars
  refine ⟨hidentifier, fun hpart hpadded => hzero ⟨hpart, ?_⟩⟩
  have hled := (zeroLed_iff hne).mpr hpadded
  rwa [hlist] at hled

theorem identifiers_ok (h : identifiers part fuel cs = .ok (ids, rest)) :
    cs = dotted ids ++ rest ∧ ids ≠ [] ∧ ∀ id ∈ ids, Accepted part id := by
  induction fuel generalizing cs ids rest with
  | zero => cases h
  | succ fuel ih =>
    have hsplit : cs.takeWhile isIdentifierChar ++ cs.dropWhile isIdentifierChar = cs :=
      List.takeWhile_append_dropWhile
    have hchars : ∀ c ∈ cs.takeWhile isIdentifierChar, isIdentifierChar c = true :=
      fun c hc => List.mem_takeWhile_imp hc
    rw [identifiers] at h
    generalize cs.takeWhile isIdentifierChar = first at h hsplit hchars
    generalize cs.dropWhile isIdentifierChar = behind at h hsplit
    match first with
    | [] => cases h
    | f :: fs =>
      simp only at h
      split_ifs at h with hzero
      have hfirst := accepted_ofList hchars hzero
      split at h
      next _ rest' =>
        obtain ⟨⟨others, left⟩, hothers, h⟩ := ok_of_bind h
        cases h
        obtain ⟨hrest, hne, hall⟩ := ih hothers
        obtain ⟨second, more, rfl⟩ := List.exists_cons_of_ne_nil hne
        refine ⟨?_, List.cons_ne_nil _ _, List.forall_mem_cons.mpr ⟨hfirst, hall⟩⟩
        show cs = dotted (String.ofList (f :: fs) :: second :: more) ++ left
        rw [dotted_cons_cons, String.toList_ofList, ← hsplit, hrest, List.append_assoc]
        rfl
      next =>
        cases h
        refine ⟨?_, List.cons_ne_nil _ _, List.forall_mem_singleton.mpr hfirst⟩
        rw [dotted_singleton, String.toList_ofList]
        exact hsplit.symm

theorem identifiers_append (hne : ids ≠ []) (h : ∀ id ∈ ids, Accepted part id)
    (hchar : Past isIdentifierChar rest) (hdot : Past (· == '.') rest) (hfuel : ids.length ≤ fuel) :
    identifiers part fuel (dotted ids ++ rest) = .ok (ids, rest) := by
  induction ids generalizing fuel with
  | nil => contradiction
  | cons first others ih =>
    obtain ⟨hfirst, hothers⟩ := List.forall_mem_cons.mp h
    obtain ⟨fuel, rfl⟩ : ∃ k, fuel = k + 1 := ⟨fuel - 1, by simp only [List.length_cons] at hfuel; omega⟩
    obtain ⟨f, fs, hlist⟩ := List.exists_cons_of_ne_nil hfirst.1.some
    have hback : String.ofList (f :: fs) = first := by rw [← hlist, String.ofList_toList]
    have hzero : ¬(part = .pre ∧ zeroLed (f :: fs) = true) := by
      rintro ⟨hpart, hled⟩
      rw [← hlist] at hled
      exact hfirst.2 hpart ((zeroLed_iff hfirst.1.some).mp hled)
    -- a last identifier ends where the rest begins, any other one at its dot
    cases others with
    | nil =>
      obtain ⟨htake, hdrop⟩ := span_of_past hfirst.1.chars hchar
      rw [identifiers, dotted_singleton, htake, hdrop, hlist]
      simp only
      rw [if_neg hzero, hback]
      cases rest with
      | nil => rfl
      | cons c rest =>
        have hc : c ≠ '.' := by simpa using hdot c rfl
        split
        next heq => exact absurd (List.cons.inj heq).1 hc
        next => rfl
    | cons second others =>
      have hnext := ih (List.cons_ne_nil _ _) hothers (Nat.le_of_succ_le_succ hfuel)
      have hpast : Past isIdentifierChar ('.' :: (dotted (second :: others) ++ rest)) :=
        past_cons (by decide)
      obtain ⟨htake, hdrop⟩ := span_of_past hfirst.1.chars hpast
      rw [identifiers, dotted_cons_cons, List.append_assoc, List.cons_append, htake, hdrop, hlist]
      simp only
      rw [if_neg hzero, hback, hnext]
      rfl

/-- What a mark and identifiers behind it are spelled as; nothing if there are none. -/
def suffix (mark : Char) (ids : List String) : List Char :=
  if ids.isEmpty then [] else mark :: dotted ids

theorem suffix_of_ne (h : ids ≠ []) : suffix mark ids = mark :: dotted ids := by
  rw [suffix, if_neg]
  simpa using h

theorem past_suffix {p : Char → Bool} (h : p mark = false) (hrest : Past p rest) :
    Past p (suffix mark ids ++ rest) := by
  unfold suffix
  split_ifs
  · exact hrest
  · exact past_cons h

theorem suffix_chars (h : ∀ id ∈ ids, Identifier id) (hc : c ∈ suffix mark ids) :
    c = mark ∨ isIdentifierChar c = true ∨ c = '.' := by
  unfold suffix at hc
  split_ifs at hc
  · cases hc
  · rcases List.mem_cons.mp hc with hmark | hc
    · exact Or.inl hmark
    · exact Or.inr (dotted_chars h hc)

theorem marked_ok {found : Option (List String)} (h : marked mark part cs = .ok (found, rest)) :
    cs = suffix mark (found.getD []) ++ rest ∧ ∀ id ∈ found.getD [], Accepted part id := by
  unfold marked at h
  match cs, h with
  | [], h =>
    cases h
    exact ⟨rfl, fun id hid => absurd hid List.not_mem_nil⟩
  | c :: behind, h =>
    simp only at h
    split_ifs at h with hmark
    · obtain ⟨⟨ids, left⟩, hids, h⟩ := ok_of_bind h
      cases h
      obtain ⟨hbehind, hne, hall⟩ := identifiers_ok hids
      rw [Option.getD_some, suffix_of_ne hne, hmark, List.cons_append, ← hbehind]
      exact ⟨rfl, hall⟩
    · cases h
      exact ⟨rfl, fun id hid => absurd hid List.not_mem_nil⟩

theorem marked_append (h : ∀ id ∈ ids, Accepted part id) (hmark : Past (· == mark) rest)
    (hchar : Past isIdentifierChar rest) (hdot : Past (· == '.') rest) :
    ∃ found, marked mark part (suffix mark ids ++ rest) = .ok (found, rest) ∧ found.getD [] = ids := by
  by_cases hne : ids = []
  · refine ⟨none, ?_, hne.symm⟩
    rw [hne]
    show marked mark part rest = .ok (none, rest)
    cases rest with
    | nil => rfl
    | cons c rest =>
      have hc : c ≠ mark := by simpa using hmark c rfl
      rw [marked, if_neg hc]
  · have hlength := length_le_dotted fun id hid => (h id hid).1
    have hfuel : ids.length ≤ (dotted ids ++ rest).length + 1 := by
      rw [List.length_append]
      omega
    refine ⟨some ids, ?_, rfl⟩
    rw [suffix_of_ne hne, List.cons_append, marked, if_pos rfl,
      identifiers_append hne h hchar hdot hfuel]
    rfl

/-! ### Whole versions -/

/-- The characters of the numbers of a version. -/
def numbers (v : Version) : List Char :=
  numeral v.major ++ '.' :: (numeral v.minor ++ '.' :: numeral v.patch)

theorem toList_text (v : Version) :
    v.text.toList = v.numbers ++ (suffix '-' v.pre ++ suffix '+' v.build) := by
  have hpre : (if v.pre.isEmpty then "" else "-" ++ v.preText).toList = suffix '-' v.pre := by
    rw [suffix, apply_ite String.toList, String.toList_append]
    rfl
  have hbuild : (if v.build.isEmpty then "" else "+" ++ ".".intercalate v.build).toList =
      suffix '+' v.build := by
    rw [suffix, apply_ite String.toList, String.toList_append]
    rfl
  rw [text, String.toList_append, String.toList_append, hpre, hbuild]
  simp [numbers, numeral]

theorem readFull_ok (h : readFull cs = .ok v) : v.WellFormed ∧ cs = v.text.toList := by
  obtain ⟨⟨major, cs₁⟩, hmajor, h⟩ := ok_of_bind h
  obtain ⟨cs₂, hdot, h⟩ := ok_of_bind h
  obtain ⟨⟨minor, cs₃⟩, hminor, h⟩ := ok_of_bind h
  obtain ⟨cs₄, hdot', h⟩ := ok_of_bind h
  obtain ⟨⟨patch, cs₅⟩, hpatch, h⟩ := ok_of_bind h
  obtain ⟨⟨pre, cs₆⟩, hpre, h⟩ := ok_of_bind h
  obtain ⟨⟨build, cs₇⟩, hbuild, h⟩ := ok_of_bind h
  match cs₇, h with
  | [], h =>
    cases h
    obtain ⟨hcs, hmajor⟩ := number_ok hmajor
    obtain ⟨hcs₂, hminor⟩ := number_ok hminor
    obtain ⟨hcs₄, hpatch⟩ := number_ok hpatch
    obtain ⟨hcs₅, hpre⟩ := marked_ok hpre
    obtain ⟨hcs₆, hbuild⟩ := marked_ok hbuild
    rw [List.append_nil] at hcs₆
    refine ⟨⟨hmajor, hminor, hpatch, ?_, fun id hid => (hbuild id hid).1⟩, ?_⟩
    · exact fun id hid => ⟨(hpre id hid).1, (hpre id hid).2 rfl⟩
    · rw [toList_text, hcs, dot_ok hdot, hcs₂, dot_ok hdot', hcs₄, hcs₅, hcs₆]
      simp [numbers]

theorem readFull_text (h : v.WellFormed) : readFull v.text.toList = .ok v := by
  have hbuild : ∀ p : Char → Bool, p '+' = false → Past p (suffix '+' v.build) := by
    intro p hp
    have hpast : Past p (suffix '+' v.build ++ []) := past_suffix hp (past_nil p)
    rwa [List.append_nil] at hpast
  have hdot : ∀ {cs : List Char}, Past isDigit ('.' :: cs) := past_cons (by decide)
  have hsuffix : Past isDigit (suffix '-' v.pre ++ suffix '+' v.build) :=
    past_suffix (by decide) (hbuild _ (by decide))
  obtain ⟨pre, hpre, hpreids⟩ : ∃ found, marked '-' .pre (suffix '-' v.pre ++ suffix '+' v.build) =
      .ok (found, suffix '+' v.build) ∧ found.getD [] = v.pre :=
    marked_append (fun id hid => ⟨(h.pre id hid).1, fun _ => (h.pre id hid).2⟩)
      (hbuild _ (by decide)) (hbuild _ (by decide)) (hbuild _ (by decide))
  obtain ⟨build, hplus, hbuildids⟩ : ∃ found, marked '+' .build (suffix '+' v.build ++ []) =
      .ok (found, []) ∧ found.getD [] = v.build :=
    marked_append (fun id hid => ⟨h.build id hid, nofun⟩) (past_nil _) (past_nil _) (past_nil _)
  rw [List.append_nil] at hplus
  rw [toList_text, numbers]
  simp only [List.append_assoc, List.cons_append]
  simp only [readFull, bind, Except.bind]
  rw [number_append h.major hdot]
  simp only [dot]
  rw [number_append h.minor hdot]
  simp only
  rw [number_append h.patch hsuffix]
  simp only
  rw [hpre]
  simp only
  rw [hplus, hpreids]
  simp only [hbuildids]
  rfl

/-- A text is read as a full version exactly if it is the text of a version that has one. -/
theorem readFull_eq_ok_iff : readFull cs = .ok v ↔ v.WellFormed ∧ cs = v.text.toList := by
  constructor
  · exact readFull_ok
  · rintro ⟨h, rfl⟩
    exact readFull_text h

end ClusterGate.Version
