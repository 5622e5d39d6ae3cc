import ClusterGate.Proofs.Version.Full

/-!
# The grammar of versions

The grammar is stated without the reader: which texts are decimal numbers, which are one, two or three
of them, and how marks, pre-release, build and blanks stand around these. The reader pads a text before
it takes it apart, so each direction has its own argument: a padded text is the full version of one
grammatical text only (`exists_core_of_pad`), and a grammatical text is padded to the full version it
stands for (`pad_core`). Main statement: `parse_grammar`.
-/

namespace ClusterGate.Version

open Text

variable {cs core front back : List Char} {i j k n : Nat} {c mark : Char} {v : Version}
  {input : String}

/-! ### The grammar -/

/-- The digits of a number of 64 bits, without leading zeros. -/
structure Decimal (cs : List Char) (n : Nat) : Prop where
  some : cs ≠ []
  digits : ∀ c ∈ cs, isDigit c = true
  unpadded : cs.head? = .some '0' → cs = ['0']
  value : digitsValue cs = n
  word : n ≤ maxWord

/-- One, two or three numbers with dots between them; a number that is missing is zero. -/
inductive Core : List Char → Nat → Nat → Nat → Prop
  | one {as i} (major : Decimal as i) : Core as i 0 0
  | two {as bs i j} (major : Decimal as i) (minor : Decimal bs j) : Core (as ++ '.' :: bs) i j 0
  | three {as bs cs i j k} (major : Decimal as i) (minor : Decimal bs j) (patch : Decimal cs k) :
      Core (as ++ '.' :: (bs ++ '.' :: cs)) i j k

/-- The text spells the version: between blanks stand at most one `v` of either case, the numbers, the
identifiers of the pre-release behind a hyphen and those of the build behind a plus sign. -/
inductive Spells : List Char → Version → Prop
  | intro {front mark core back : List Char} {v : Version}
      (front_blank : ∀ c ∈ front, isBlank c = true) (back_blank : ∀ c ∈ back, isBlank c = true)
      (mark_lawful : mark ∈ [[], ['v'], ['V']]) (numbers : Core core v.major v.minor v.patch)
      (pre : ∀ id ∈ v.pre, Identifier id ∧ ¬Padded id) (build : ∀ id ∈ v.build, Identifier id) :
      Spells (front ++ (mark ++ (core ++ (suffix '-' v.pre ++ suffix '+' v.build))) ++ back) v

/-! ### Numbers -/

theorem decimal_iff : Decimal cs n ↔ cs = numeral n ∧ n ≤ maxWord := by
  constructor
  · intro h
    refine ⟨?_, h.word⟩
    rw [← h.value, numeral_of_digits h.some h.digits h.unpadded]
  · rintro ⟨rfl, hword⟩
    exact ⟨numeral_ne_nil n, numeral_digits n, numeral_unpadded n, digitsValue_numeral n, hword⟩

theorem decimal_numeral (h : n ≤ maxWord) : Decimal (numeral n) n := decimal_iff.mpr ⟨rfl, h⟩

theorem Decimal.not_mem_dot (h : Decimal cs n) : '.' ∉ cs := fun hdot =>
  absurd (h.digits '.' hdot) (by decide)

theorem Core.word (h : Core cs i j k) : i ≤ maxWord ∧ j ≤ maxWord ∧ k ≤ maxWord := by
  cases h with
  | one major => exact ⟨major.word, Nat.zero_le _, Nat.zero_le _⟩
  | two major minor => exact ⟨major.word, minor.word, Nat.zero_le _⟩
  | three major minor patch => exact ⟨major.word, minor.word, patch.word⟩

theorem Core.chars (h : Core cs i j k) (hc : c ∈ cs) : isDigit c = true ∨ c = '.' := by
  cases h with
  | one major => exact Or.inl (major.digits c hc)
  | two major minor =>
    simp only [List.mem_append, List.mem_cons] at hc
    rcases hc with hc | hdot | hc
    · exact Or.inl (major.digits c hc)
    · exact Or.inr hdot
    · exact Or.inl (minor.digits c hc)
  | three major minor patch =>
    simp only [List.mem_append, List.mem_cons] at hc
    rcases hc with hc | hdot | hc | hdot | hc
    · exact Or.inl (major.digits c hc)
    · exact Or.inr hdot
    · exact Or.inl (minor.digits c hc)
    · exact Or.inr hdot
    · exact Or.inl (patch.digits c hc)

theorem Core.head (h : Core cs i j k) : ∃ c rest, cs = c :: rest ∧ isDigit c = true := by
  have hfirst : ∀ {as n} bs, Decimal as n →
      ∃ c rest, as ++ bs = c :: rest ∧ isDigit c = true := by
    intro as n bs hnumber
    obtain ⟨c, rest, rfl⟩ := List.exists_cons_of_ne_nil hnumber.some
    exact ⟨c, rest ++ bs, rfl, hnumber.digits c List.mem_cons_self⟩
  cases h with
  | one major =>
    obtain ⟨c, rest, hcs, hdigit⟩ := hfirst [] major
    exact ⟨c, rest, by rwa [List.append_nil] at hcs, hdigit⟩
  | two major => exact hfirst _ major
  | three major => exact hfirst _ major

theorem core_numbers (h : v.WellFormed) : Core v.numbers v.major v.minor v.patch :=
  .three (decimal_numeral h.major) (decimal_numeral h.minor) (decimal_numeral h.patch)

/-- What is before the first dot, and what is behind it. -/
theorem append_dot_inj {as bs xs ys : List Char} (hxs : '.' ∉ xs) (hys : '.' ∉ ys)
    (h : xs ++ '.' :: as = ys ++ '.' :: bs) : xs = ys ∧ as = bs := by
  have hspan : ∀ {zs : List Char} (rest : List Char), '.' ∉ zs →
      (zs ++ '.' :: rest).takeWhile (· != '.') = zs ∧
        (zs ++ '.' :: rest).dropWhile (· != '.') = '.' :: rest := by
    intro zs rest hzs
    refine span_of_past (fun c hc => ?_) (past_cons (by decide))
    rw [bne_iff_ne]
    rintro rfl
    exact hzs hc
  obtain ⟨hxs, has⟩ := hspan as hxs
  obtain ⟨hys, hbs⟩ := hspan bs hys
  rw [h] at hxs has
  exact ⟨hxs.symm.trans hys, (List.cons.inj (has.symm.trans hbs)).2⟩

/-! ### Padding -/

/-- The characters of the pre-release and of the build of a version. -/
def details (v : Version) : List Char := suffix '-' v.pre ++ suffix '+' v.build

theorem past_details (v : Version) : Past (fun c => !endsNumbers c) v.details := by
  refine past_suffix (by decide) ?_
  have hbuild : Past (fun c => !endsNumbers c) (suffix '+' v.build ++ []) :=
    past_suffix (by decide) (past_nil _)
  rwa [List.append_nil] at hbuild

theorem details_chars (hpre : ∀ id ∈ v.pre, Identifier id) (hbuild : ∀ id ∈ v.build, Identifier id)
    (hc : c ∈ v.details) : isIdentifierChar c = true ∨ c = '.' ∨ c = '+' := by
  rcases List.mem_append.mp hc with hc | hc
  · rcases suffix_chars hpre hc with rfl | hchar | hdot
    · exact Or.inl (by decide)
    · exact Or.inl hchar
    · exact Or.inr (Or.inl hdot)
  · rcases suffix_chars hbuild hc with hplus | hchar | hdot
    · exact Or.inr (Or.inr hplus)
    · exact Or.inl hchar
    · exact Or.inr (Or.inl hdot)

theorem not_endsNumbers (h : isDigit c = true ∨ c = '.') : (!endsNumbers c) = true := by
  rcases h with hdigit | rfl
  · have hne : c ≠ '-' ∧ c ≠ '+' := by
      constructor <;> (rintro rfl; exact absurd hdigit (by decide))
    simp [endsNumbers, hne.1, hne.2]
  · decide

/-- The numbers of a version end where its pre-release or its build begins. -/
theorem span_core (h : Core core i j k) :
    (core ++ v.details).takeWhile (fun c => !endsNumbers c) = core ∧
      (core ++ v.details).dropWhile (fun c => !endsNumbers c) = v.details :=
  span_of_past (fun _ hc => not_endsNumbers (h.chars hc)) (past_details v)

theorem pad_core (h : Core core v.major v.minor v.patch) :
    pad (core ++ v.details) = .ok v.text.toList := by
  have hzero : numeral 0 = ['0'] := rfl
  have hcount : ∀ {as n}, Decimal as n → as.count '.' = 0 := fun h =>
    List.count_eq_zero.mpr h.not_mem_dot
  obtain ⟨htake, hdrop⟩ := span_core (v := v) h
  unfold pad
  simp only [htake, hdrop]
  rw [toList_text]
  show _ = Except.ok (v.numbers ++ v.details)
  unfold numbers
  generalize v.major = i at h ⊢
  generalize v.minor = j at h ⊢
  generalize v.patch = k at h ⊢
  cases h with
  | one major =>
    rw [hcount major, (decimal_iff.mp major).1, hzero]
    simp
  | two major minor =>
    rw [List.count_append, List.count_cons_self, hcount major, hcount minor, hzero,
      (decimal_iff.mp major).1, (decimal_iff.mp minor).1]
    simp
  | three major minor patch =>
    rw [List.count_append, List.count_cons_self, List.count_append, List.count_cons_self,
      hcount major, hcount minor, hcount patch, (decimal_iff.mp major).1, (decimal_iff.mp minor).1,
      (decimal_iff.mp patch).1]
    rfl

/-- Numbers that are the numbers of a version once zeros are added. -/
theorem core_of_padded (h : v.WellFormed) :
    (core.count '.' = 0 → core ++ ".0.0".toList = v.numbers →
      Core core v.major v.minor v.patch) ∧
    (core.count '.' = 1 → core ++ ".0".toList = v.numbers →
      Core core v.major v.minor v.patch) := by
  have hmajor := decimal_numeral h.major
  have hminor := decimal_numeral h.minor
  have hpatch := decimal_numeral h.patch
  have hnil : ∀ {n : Nat}, ['0'] = numeral n → 0 = n := fun heq => numeral_injective heq
  constructor
  · intro hcount hcore
    obtain ⟨hfirst, hrest⟩ := append_dot_inj (List.count_eq_zero.mp hcount) hmajor.not_mem_dot hcore
    have hzero : '.' ∉ ['0'] := by decide
    obtain ⟨hsecond, hthird⟩ := append_dot_inj hzero hminor.not_mem_dot hrest
    rw [← hnil hsecond, ← hnil hthird, hfirst]
    exact .one hmajor
  · intro hcount hcore
    obtain ⟨as, bs, rfl, has⟩ := List.eq_append_cons_of_mem
      (List.count_pos_iff.mp (show 0 < core.count '.' by omega))
    rw [List.count_append, List.count_cons_self, List.count_eq_zero.mpr has] at hcount
    have hbs : '.' ∉ bs := List.count_eq_zero.mp (by omega)
    rw [List.append_assoc, List.cons_append] at hcore
    obtain ⟨hfirst, hrest⟩ := append_dot_inj has hmajor.not_mem_dot hcore
    obtain ⟨hsecond, hthird⟩ := append_dot_inj hbs hminor.not_mem_dot hrest
    rw [← hnil hthird, hfirst, hsecond]
    exact .two hmajor hminor

/-- A text that is padded to a full version consists of lawful numbers and of the rest of the
version. -/
theorem exists_core_of_pad (h : v.WellFormed) (hpad : pad cs = .ok v.text.toList) :
    ∃ core, Core core v.major v.minor v.patch ∧ cs = core ++ v.details := by
  have hsplit : cs.takeWhile (fun c => !endsNumbers c) ++ cs.dropWhile (fun c => !endsNumbers c) =
      cs := List.takeWhile_append_dropWhile
  have hinner : ∀ c ∈ cs.takeWhile (fun c => !endsNumbers c), (!endsNumbers c) = true := fun c hc =>
    List.mem_takeWhile_imp (p := fun c => !endsNumbers c) hc
  have hpast : Past (fun c => !endsNumbers c) (cs.dropWhile fun c => !endsNumbers c) := by
    intro c hc
    have hnot := List.head?_dropWhile_not (fun c => !endsNumbers c) cs
    rw [Option.mem_def.mp hc] at hnot
    simpa using hnot
  obtain ⟨htake, hdrop⟩ := span_core (v := v) (core_numbers h)
  rw [toList_text] at hpad
  unfold pad at hpad
  generalize cs.takeWhile (fun c => !endsNumbers c) = core at hsplit hinner hpad
  generalize cs.dropWhile (fun c => !endsNumbers c) = rest at hsplit hpast hpad
  -- the zeros belong to the numbers, so both sides end their numbers at the same place
  have hparts : ∀ zeros : List Char, (∀ c ∈ zeros, (!endsNumbers c) = true) →
      core ++ zeros ++ rest = v.numbers ++ v.details → core ++ zeros = v.numbers ∧ rest = v.details := by
    intro zeros hzeros heq
    have hall : ∀ c ∈ core ++ zeros, (!endsNumbers c) = true := fun c hc =>
      (List.mem_append.mp hc).elim (hinner c) (hzeros c)
    obtain ⟨htake', hdrop'⟩ := span_of_past hall hpast
    rw [heq] at htake' hdrop'
    exact ⟨htake'.symm.trans htake, hdrop'.symm.trans hdrop⟩
  refine ⟨core, ?_⟩
  rw [← hsplit]
  simp only at hpad
  split at hpad
  next hcount =>
    obtain ⟨hcore, hrest⟩ := hparts ".0.0".toList (List.all_eq_true.mp rfl) (Except.ok.inj hpad)
    exact ⟨(core_of_padded h).1 hcount hcore, by rw [hrest]⟩
  next hcount =>
    obtain ⟨hcore, hrest⟩ := hparts ".0".toList (List.all_eq_true.mp rfl) (Except.ok.inj hpad)
    exact ⟨(core_of_padded h).2 hcount hcore, by rw [hrest]⟩
  next =>
    obtain ⟨hcore, hrest⟩ := hparts [] (List.all_eq_true.mp rfl)
      (by rw [List.append_nil]; exact Except.ok.inj hpad)
    rw [List.append_nil] at hcore
    exact ⟨hcore ▸ core_numbers h, by rw [hrest]⟩
  next => cases hpad

/-! ### Blanks and the mark -/

theorem exists_trim (cs : List Char) :
    ∃ front back, (∀ c ∈ front, isBlank c = true) ∧ (∀ c ∈ back, isBlank c = true) ∧
      cs = front ++ trim cs ++ back := by
  have hfront : cs.takeWhile isBlank ++ cs.dropWhile isBlank = cs := List.takeWhile_append_dropWhile
  have hback : (cs.dropWhile isBlank).reverse.takeWhile isBlank ++
      (cs.dropWhile isBlank).reverse.dropWhile isBlank = (cs.dropWhile isBlank).reverse :=
    List.takeWhile_append_dropWhile
  refine ⟨cs.takeWhile isBlank, ((cs.dropWhile isBlank).reverse.takeWhile isBlank).reverse,
    fun c hc => List.mem_takeWhile_imp hc,
    fun c hc => List.mem_takeWhile_imp (List.mem_reverse.mp hc), ?_⟩
  rw [trim, List.append_assoc, ← List.reverse_append, hback, List.reverse_reverse, hfront]

theorem trim_append (hfront : ∀ c ∈ front, isBlank c = true) (hback : ∀ c ∈ back, isBlank c = true)
    (hne : cs ≠ []) (hcs : ∀ c ∈ cs, isBlank c = false) : trim (front ++ cs ++ back) = cs := by
  obtain ⟨first, rest, hfirst⟩ := List.exists_cons_of_ne_nil hne
  obtain ⟨last, init, hlast⟩ := List.exists_cons_of_ne_nil (List.reverse_ne_nil_iff.mpr hne)
  have hstart : Past isBlank (cs ++ back) := by
    rw [hfirst]
    exact past_cons (hcs first (hfirst ▸ List.mem_cons_self))
  have hend : Past isBlank cs.reverse := by
    rw [hlast]
    refine past_cons (hcs last (List.mem_reverse.mp ?_))
    rw [hlast]
    exact List.mem_cons_self
  have hbehind : ∀ c ∈ back.reverse, isBlank c = true := fun c hc => hback c (List.mem_reverse.mp hc)
  rw [trim, List.append_assoc, (span_of_past hfront hstart).2, List.reverse_append,
    (span_of_past hbehind hend).2, List.reverse_reverse]

theorem exists_mark (cs : List Char) : ∃ mark ∈ [[], ['v'], ['V']], cs = mark ++ dropMark cs := by
  unfold dropMark
  split
  · exact ⟨['v'], by simp, rfl⟩
  · exact ⟨['V'], by simp, rfl⟩
  · exact ⟨[], by simp, rfl⟩

theorem dropMark_append {mark : List Char} (hmark : mark ∈ [[], ['v'], ['V']])
    (hc : isDigit c = true) : dropMark (mark ++ c :: cs) = c :: cs := by
  rcases List.mem_cons.mp hmark with rfl | hmark
  · show dropMark (c :: cs) = c :: cs
    unfold dropMark
    split
    next heq =>
      obtain rfl := (List.cons.inj heq).1
      exact absurd hc (by decide)
    next heq =>
      obtain rfl := (List.cons.inj heq).1
      exact absurd hc (by decide)
    next => rfl
  rcases List.mem_cons.mp hmark with rfl | hmark
  · rfl
  · obtain rfl := List.mem_singleton.mp hmark
    rfl

theorem isBlank_eq_false (h : isIdentifierChar c = true ∨ c = '.' ∨ c = '+') :
    isBlank c = false := by
  have hrange : 43 ≤ c.toNat ∧ c.toNat ≤ 122 := by
    rcases h with hchar | rfl | rfl
    · simp only [isIdentifierChar, isDigit, Bool.or_eq_true, Bool.and_eq_true, decide_eq_true_eq,
        beq_iff_eq, Char.le_def, UInt32.le_iff_toNat_le] at hchar
      rcases hchar with ((hsmall | hcapital) | hdigit) | rfl
      · exact ⟨Nat.le_trans (by decide) hsmall.1, hsmall.2⟩
      · exact ⟨Nat.le_trans (by decide) hcapital.1, Nat.le_trans hcapital.2 (by decide)⟩
      · exact ⟨Nat.le_trans (by decide) hdigit.1, Nat.le_trans hdigit.2 (by decide)⟩
      · decide
    · decide
    · decide
  unfold isBlank
  simp only [Bool.or_eq_false_iff, Bool.and_eq_false_iff, decide_eq_false_iff_not, beq_eq_false_iff_ne]
  omega

/-! ### The reader and the grammar -/

/-- A version that a text spells has a text of its own. -/
theorem Spells.wellFormed (h : Spells cs v) : v.WellFormed := by
  cases h with
  | intro _ _ _ numbers pre build =>
    obtain ⟨hmajor, hminor, hpatch⟩ := numbers.word
    exact ⟨hmajor, hminor, hpatch, pre, build⟩

theorem spells_of_readChars (h : readChars cs = .ok v) : Spells cs v := by
  obtain ⟨front, back, hfront, hback, hcs⟩ := exists_trim cs
  obtain ⟨mark, hmark, htrim⟩ := exists_mark (trim cs)
  unfold readChars at h
  split at h
  next => cases h
  next =>
    obtain ⟨padded, hpad, h⟩ := ok_of_bind h
    obtain ⟨hlawful, rfl⟩ := readFull_eq_ok_iff.mp h
    obtain ⟨core, hcore, hdrop⟩ := exists_core_of_pad hlawful hpad
    rw [hcs, htrim, hdrop]
    exact .intro hfront hback hmark hcore hlawful.pre hlawful.build

theorem readChars_of_pad {stripped padded : List Char} (hdrop : dropMark (trim cs) = stripped)
    (hpad : pad stripped = .ok padded) (hne : stripped ≠ []) : readChars cs = readFull padded := by
  unfold readChars
  rw [hdrop]
  split
  next => contradiction
  next => rw [hpad]; rfl

theorem Spells.readChars_eq (h : Spells cs v) : readChars cs = .ok v := by
  have hlawful := h.wellFormed
  cases h with
  | @intro front mark core back v front_blank back_blank mark_lawful numbers pre build =>
    obtain ⟨c, rest, hcore, hdigit⟩ := numbers.head
    have hplain : ∀ c ∈ mark ++ (core ++ v.details), isBlank c = false := by
      intro c hc
      refine isBlank_eq_false ?_
      rcases List.mem_append.mp hc with hc | hc
      · have hmarks : [[], ['v'], ['V']].all (fun mark => mark.all isIdentifierChar) = true := rfl
        have hmark := List.all_eq_true.mp hmarks mark mark_lawful
        exact Or.inl (List.all_eq_true.mp hmark c hc)
      rcases List.mem_append.mp hc with hc | hc
      · rcases numbers.chars hc with hdigit | hdot
        · exact Or.inl (by simp [isIdentifierChar, hdigit])
        · exact Or.inr (Or.inl hdot)
      · exact details_chars (fun id hid => (pre id hid).1) build hc
    have hne : core ++ v.details ≠ [] := by simp [hcore]
    have htrim := trim_append front_blank back_blank (List.append_ne_nil_of_right_ne_nil mark hne) hplain
    have hdrop : dropMark (mark ++ (core ++ v.details)) = core ++ v.details := by
      rw [hcore]
      exact dropMark_append mark_lawful hdigit
    rw [← readFull_text hlawful]
    refine readChars_of_pad ?_ (pad_core numbers) hne
    show dropMark (trim (front ++ (mark ++ (core ++ v.details)) ++ back)) = core ++ v.details
    rw [htrim, hdrop]

theorem parse_eq_ok_iff : parse input = .ok v ↔ Spells input.toList v := by
  constructor
  · intro h
    unfold parse at h
    split at h
    next found hread =>
      cases h
      exact spells_of_readChars hread
    next => cases h
  · intro h
    rw [parse, h.readChars_eq]

/-- What the reader accepts is the grammar, what it reads is the version that is spelled, and it
returns the text itself with any refusal. -/
theorem parse_grammar (input : String) :
    (∀ v, parse input = .ok v ↔ Spells input.toList v) ∧
      ((∃ fault, parse input = .error ⟨input, fault⟩) ↔ ∀ v, ¬Spells input.toList v) := by
  refine ⟨fun v => parse_eq_ok_iff, ?_, ?_⟩
  · rintro ⟨fault, hrefused⟩ v hspells
    rw [parse_eq_ok_iff.mpr hspells] at hrefused
    cases hrefused
  · intro hnone
    unfold parse
    split
    next v hread => exact absurd (spells_of_readChars hread) (hnone v)
    next fault hread => exact ⟨fault, rfl⟩

end ClusterGate.Version
