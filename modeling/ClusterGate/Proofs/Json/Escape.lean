import ClusterGate.Proofs.Json.Pointer

/-!
# Escaping as replacement

A token is escaped by two replacements, of the tilde and then of the slash, and read back by the
inverse ones in the opposite order, so that none of them finds what another one has written. Pointers
and lists of tokens are then in one-to-one correspondence. Main statements: `escapeChars_eq`,
`unescapeChars_eq_some_iff`, `tokens?_eq_some_iff` and `eq_ofTokens_iff`.
-/

namespace ClusterGate

namespace Text

/-- A text with a part replaced wherever it is found from the left on; `skip` characters of the last
find are still ahead. -/
def replaceFrom (part new : List Char) : Nat → List Char → List Char
  | _, [] => []
  | skip + 1, _ :: rest => replaceFrom part new skip rest
  | 0, c :: rest =>
    if part.isPrefixOf (c :: rest) then new ++ replaceFrom part new (part.length - 1) rest
    else c :: replaceFrom part new 0 rest

/-- A text with every occurrence of a part replaced. -/
def replaceAll (part new cs : List Char) : List Char := replaceFrom part new 0 cs

variable {part new cs : List Char} {c d p q : Char}

theorem replaceFrom_eq (part new : List Char) (skip : Nat) (cs : List Char) :
    replaceFrom part new skip cs = replaceAll part new (cs.drop skip) := by
  induction skip generalizing cs with
  | zero => rfl
  | succ skip ih =>
    cases cs with
    | nil => rfl
    | cons c cs => rw [replaceFrom, ih, List.drop_succ_cons]

theorem replaceAll_append (p : Char) (part new cs : List Char) :
    replaceAll (p :: part) new (p :: (part ++ cs)) = new ++ replaceAll (p :: part) new cs := by
  have hfound : (p :: part).isPrefixOf (p :: (part ++ cs)) = true := by simp
  have hskip : (p :: part).length - 1 = part.length := rfl
  rw [replaceAll, replaceFrom, if_pos hfound, hskip, replaceFrom_eq, List.drop_left]

theorem replaceAll_of_not_prefix (h : ¬part <+: c :: cs) :
    replaceAll part new (c :: cs) = c :: replaceAll part new cs := by
  rw [replaceAll, replaceFrom, if_neg (by simpa using h), replaceFrom_eq, List.drop_zero]

theorem replaceAll_of_ne (h : c ≠ p) :
    replaceAll (p :: part) new (c :: cs) = c :: replaceAll (p :: part) new cs := by
  apply replaceAll_of_not_prefix
  rw [List.cons_prefix_cons]
  exact fun hfound => h hfound.1.symm

theorem replaceAll_of_second_ne (h : d ≠ q) :
    replaceAll [p, q] new (c :: d :: cs) = c :: replaceAll [p, q] new (d :: cs) := by
  apply replaceAll_of_not_prefix
  rw [List.cons_prefix_cons, List.cons_prefix_cons]
  exact fun hfound => h hfound.2.1.symm

end Text

namespace Pointer

open Text

variable {cs ds : List Char} {c : Char} {path : String} {tokens : List String}

/-! ### Escaping -/

/-- Tildes are replaced before the slashes, whose replacements have a tilde. -/
theorem escapeChars_eq (cs : List Char) :
    escapeChars cs = replaceAll ['/'] ['~', '1'] (replaceAll ['~'] ['~', '0'] cs) := by
  have hfound : ∀ (p : Char) (new cs : List Char),
      replaceAll [p] new (p :: cs) = new ++ replaceAll [p] new cs :=
    fun p new cs => replaceAll_append p [] new cs
  have htilde : '~' ≠ '/' := by decide
  have hzero : '0' ≠ '/' := by decide
  have hslash : '/' ≠ '~' := by decide
  fun_induction escapeChars cs with
  | case1 => rfl
  | case2 rest ih =>
    rw [hfound, List.cons_append, List.singleton_append, replaceAll_of_ne htilde,
      replaceAll_of_ne hzero, ih]
  | case3 rest ih => rw [replaceAll_of_ne hslash, hfound, ih, List.cons_append, List.singleton_append]
  | case4 c rest hTilde hSlash ih =>
    have hc : c ≠ '~' := fun h => hTilde h
    have hc' : c ≠ '/' := fun h => hSlash h
    rw [replaceAll_of_ne hc, replaceAll_of_ne hc', ih]

/-- Every tilde is followed by `0` or `1`. -/
def TildesCoded (cs : List Char) : Prop :=
  ∀ i : Nat, cs[i]? = some '~' → cs[i + 1]? = some '0' ∨ cs[i + 1]? = some '1'

theorem tildesCoded_nil : TildesCoded [] := fun i h => by simp at h

theorem tildesCoded_cons : TildesCoded (c :: cs) ↔
    (c = '~' → cs.head? = some '0' ∨ cs.head? = some '1') ∧ TildesCoded cs := by
  rw [List.head?_eq_getElem?]
  constructor
  · intro h
    exact ⟨fun hc => h 0 (congrArg some hc), fun i hi => h (i + 1) hi⟩
  · rintro ⟨hfirst, hrest⟩ i hi
    cases i with
    | zero => exact hfirst (Option.some.inj hi)
    | succ i => exact hrest i hi

/-! ### Reading back -/

/-- Reads escaped text back: slashes are restored before the tildes. -/
def unescape (cs : List Char) : List Char :=
  replaceAll ['~', '0'] ['~'] (replaceAll ['~', '1'] ['/'] cs)

theorem unescape_tilde (cs : List Char) : unescape ('~' :: '0' :: cs) = '~' :: unescape cs := by
  have hzero : '0' ≠ '~' := by decide
  have hone : '0' ≠ '1' := by decide
  rw [unescape, replaceAll_of_second_ne hone, replaceAll_of_ne hzero]
  exact replaceAll_append '~' ['0'] ['~'] _

theorem unescape_slash (cs : List Char) : unescape ('~' :: '1' :: cs) = '/' :: unescape cs := by
  have hslash : '/' ≠ '~' := by decide
  have hfound : replaceAll ['~', '1'] ['/'] ('~' :: '1' :: cs) =
      '/' :: replaceAll ['~', '1'] ['/'] cs := replaceAll_append '~' ['1'] ['/'] cs
  rw [unescape, hfound, replaceAll_of_ne hslash]
  rfl

theorem unescape_cons (h : c ≠ '~') : unescape (c :: cs) = c :: unescape cs := by
  rw [unescape, replaceAll_of_ne h, replaceAll_of_ne h]
  rfl

/-- Text is read back exactly if its tildes are coded, and then by the two replacements. -/
theorem unescapeChars_eq (cs : List Char) :
    (TildesCoded cs → unescapeChars cs = some (unescape cs)) ∧
      (¬TildesCoded cs → unescapeChars cs = none) := by
  fun_induction unescapeChars cs with
  | case1 => exact ⟨fun _ => rfl, fun h => absurd tildesCoded_nil h⟩
  | case2 rest ih =>
    have hcoded : TildesCoded ('~' :: '0' :: rest) ↔ TildesCoded rest := by
      simp [tildesCoded_cons]
    rw [hcoded, unescape_tilde]
    exact ⟨fun h => by rw [ih.1 h]; rfl, fun h => by rw [ih.2 h]; rfl⟩
  | case3 rest ih =>
    have hcoded : TildesCoded ('~' :: '1' :: rest) ↔ TildesCoded rest := by
      simp [tildesCoded_cons]
    rw [hcoded, unescape_slash]
    exact ⟨fun h => by rw [ih.1 h]; rfl, fun h => by rw [ih.2 h]; rfl⟩
  | case4 rest hzero hone =>
    refine ⟨fun h => ?_, fun _ => rfl⟩
    rcases (tildesCoded_cons.mp h).1 rfl with hhead | hhead
    · obtain ⟨tail, rfl⟩ := List.head?_eq_some_iff.mp hhead
      exact absurd rfl (hzero tail rfl)
    · obtain ⟨tail, rfl⟩ := List.head?_eq_some_iff.mp hhead
      exact absurd rfl (hone tail rfl)
  | case5 c rest hzero hone hc ih =>
    have hcoded : TildesCoded (c :: rest) ↔ TildesCoded rest := by
      simp [tildesCoded_cons, hc]
    rw [hcoded, unescape_cons hc]
    exact ⟨fun h => by rw [ih.1 h]; rfl, fun h => by rw [ih.2 h]; rfl⟩

theorem unescapeChars_eq_some_iff :
    unescapeChars cs = some ds ↔ TildesCoded cs ∧ unescape cs = ds := by
  obtain ⟨hcoded, hnone⟩ := unescapeChars_eq cs
  constructor
  · intro h
    by_cases htildes : TildesCoded cs
    · rw [hcoded htildes] at h
      exact ⟨htildes, Option.some.inj h⟩
    · rw [hnone htildes] at h
      cases h
  · rintro ⟨htildes, rfl⟩
    exact hcoded htildes

theorem unescape_escapeChars (cs : List Char) :
    TildesCoded (escapeChars cs) ∧ unescape (escapeChars cs) = cs :=
  unescapeChars_eq_some_iff.mp (unescapeChars_escapeChars cs)

/-! ### Whole pointers -/

/-- A pointer is empty or begins with a slash, and its tildes are coded. -/
structure IsWellFormed (path : String) : Prop where
  start : path.toList = [] ∨ path.toList.head? = some '/'
  coded : TildesCoded path.toList

/-- What stands behind each slash, read back. -/
def referenceTokens (path : String) : List String :=
  (pieces '/' path.toList).tail.map fun piece => String.ofList (unescape piece)

theorem head?_pieces {mark d : Char} (hd : d ≠ mark) {piece : List Char} {others : List (List Char)}
    (h : pieces mark cs = piece :: others) : piece.head? = some d ↔ cs.head? = some d := by
  have hcs := joinPieces_pieces mark cs
  rw [h] at hcs
  cases piece with
  | nil =>
    cases others with
    | nil =>
      rw [← hcs]
      rfl
    | cons second others =>
      rw [← hcs]
      simp [joinPieces, Ne.symm hd]
  | cons c piece =>
    cases others with
    | nil =>
      rw [← hcs]
      rfl
    | cons second others =>
      rw [← hcs]
      rfl

/-- Cutting at the slashes parts no tilde from what follows it. -/
theorem tildesCoded_pieces (cs : List Char) :
    (∀ piece ∈ pieces '/' cs, TildesCoded piece) ↔ TildesCoded cs := by
  induction cs with
  | nil => simp [pieces]
  | cons c cs ih =>
    have hslash : '/' ≠ '~' := by decide
    by_cases hc : c = '/'
    · subst hc
      rw [pieces, if_pos rfl, List.forall_mem_cons, ih, tildesCoded_cons]
      exact ⟨fun h => ⟨fun heq => absurd heq hslash, h.2⟩, fun h => ⟨tildesCoded_nil, h.2⟩⟩
    · obtain ⟨piece, others, hpieces⟩ := List.exists_cons_of_ne_nil (pieces_ne_nil '/' cs)
      have hzero := head?_pieces (d := '0') (by decide) hpieces
      have hone := head?_pieces (d := '1') (by decide) hpieces
      rw [pieces, if_neg hc, hpieces]
      rw [hpieces, List.forall_mem_cons] at ih
      simp only [List.forall_mem_cons]
      rw [tildesCoded_cons, tildesCoded_cons, hzero, hone, ← ih, and_assoc]

theorem mapM_unescapeChars (parts : List (List Char)) :
    parts.mapM (fun part => (unescapeChars part).map String.ofList) = some tokens ↔
      (∀ part ∈ parts, TildesCoded part) ∧
        parts.map (fun part => String.ofList (unescape part)) = tokens := by
  induction parts generalizing tokens with
  | nil => simp
  | cons part parts ih =>
    obtain ⟨hcoded, hnone⟩ := unescapeChars_eq part
    rw [List.forall_mem_cons, List.map_cons, List.mapM_cons]
    by_cases htildes : TildesCoded part
    · simp only [hcoded htildes, Option.map_some, Option.bind_eq_bind, Option.bind_some,
        Option.bind_eq_some_iff, Option.pure_def, Option.some.injEq, ih, htildes, true_and]
      constructor
      · rintro ⟨rest, ⟨hparts, rfl⟩, htokens⟩
        exact ⟨hparts, htokens⟩
      · rintro ⟨hparts, htokens⟩
        exact ⟨_, ⟨hparts, rfl⟩, htokens⟩
    · simp [hnone htildes, htildes]

/-- A text is read as a pointer exactly if it is one, and its tokens stand behind its slashes. -/
theorem tokens?_eq_some_iff :
    tokens? path = some tokens ↔ IsWellFormed path ∧ referenceTokens path = tokens := by
  have hstart : IsWellFormed path ↔
      (path.toList = [] ∨ path.toList.head? = some '/') ∧ TildesCoded path.toList :=
    ⟨fun h => ⟨h.start, h.coded⟩, fun h => ⟨h.1, h.2⟩⟩
  rw [hstart, tokens?, referenceTokens]
  generalize path.toList = cs
  split
  next => simp [tildesCoded_nil, pieces, eq_comm]
  next rest =>
    have hslash : '/' ≠ '~' := by decide
    have hcoded : TildesCoded ('/' :: rest) ↔ TildesCoded rest := by simp [tildesCoded_cons]
    rw [mapM_unescapeChars, tildesCoded_pieces, hcoded]
    simp [pieces]
  next hnil hcons =>
    have hnone : cs.head? ≠ some '/' := by
      intro h
      obtain ⟨rest, rfl⟩ := List.head?_eq_some_iff.mp h
      exact hcons rest rfl
    have hsome : cs ≠ [] := hnil
    simp [hnone, hsome]

/-! ### Pointers and their tokens -/

theorem tokens?_ofTokens (tokens : List String) : tokens? (ofTokens tokens) = some tokens := by
  induction tokens with
  | nil => exact tokens?_empty
  | cons token tokens ih => rw [ofTokens_cons, tokens?_push_append token ih]

/-- Without a slash, text is the escaped form of what it is read as. -/
theorem escapeChars_of_unescapeChars (hslash : '/' ∉ cs) (h : unescapeChars cs = some ds) :
    escapeChars ds = cs := by
  fun_induction unescapeChars cs generalizing ds with
  | case1 =>
    cases h
    rfl
  | case2 rest ih =>
    obtain ⟨es, hes, rfl⟩ := Option.map_eq_some_iff.mp h
    simp only [List.mem_cons, not_or] at hslash
    rw [escapeChars, ih hslash.2.2 hes]
  | case3 rest ih =>
    obtain ⟨es, hes, rfl⟩ := Option.map_eq_some_iff.mp h
    simp only [List.mem_cons, not_or] at hslash
    rw [escapeChars, ih hslash.2.2 hes]
  | case4 rest hzero hone => cases h
  | case5 c rest hzero hone hc ih =>
    obtain ⟨es, hes, rfl⟩ := Option.map_eq_some_iff.mp h
    simp only [List.mem_cons, not_or] at hslash
    rw [escapeChars.eq_4 c es hc (Ne.symm hslash.1), ih hslash.2 hes]

theorem not_mem_pieces (mark : Char) (cs : List Char) : ∀ piece ∈ pieces mark cs, mark ∉ piece := by
  induction cs with
  | nil => simp [pieces]
  | cons c cs ih =>
    rw [pieces]
    split
    next => exact List.forall_mem_cons.mpr ⟨List.not_mem_nil, ih⟩
    next hc =>
      obtain ⟨piece, others, hpieces⟩ := List.exists_cons_of_ne_nil (pieces_ne_nil mark cs)
      rw [hpieces] at ih ⊢
      obtain ⟨hpiece, hothers⟩ := List.forall_mem_cons.mp ih
      refine List.forall_mem_cons.mpr ⟨?_, hothers⟩
      rw [List.mem_cons, not_or]
      exact ⟨Ne.symm hc, hpiece⟩

theorem cons_joinPieces {mark : Char} {parts : List (List Char)} (h : parts ≠ []) :
    mark :: joinPieces mark parts = parts.flatMap (mark :: ·) := by
  induction parts with
  | nil => contradiction
  | cons part parts ih =>
    cases parts with
    | nil => simp [joinPieces]
    | cons second parts =>
      have hjoin : joinPieces mark (part :: second :: parts) =
          part ++ mark :: joinPieces mark (second :: parts) := rfl
      rw [hjoin, ih (List.cons_ne_nil _ _)]
      rfl

theorem flatMap_of_mapM {parts : List (List Char)} (hslash : ∀ part ∈ parts, '/' ∉ part)
    (h : parts.mapM (fun part => (unescapeChars part).map String.ofList) = some tokens) :
    parts.flatMap ('/' :: ·) = (ofTokens tokens).toList := by
  induction parts generalizing tokens with
  | nil =>
    cases h
    rfl
  | cons part parts ih =>
    obtain ⟨hfirst, hrest⟩ := List.forall_mem_cons.mp hslash
    rw [List.mapM_cons] at h
    obtain ⟨token, htoken, h⟩ := Option.bind_eq_some_iff.mp h
    obtain ⟨others, hothers, h⟩ := Option.bind_eq_some_iff.mp h
    cases h
    obtain ⟨cs, hread, rfl⟩ := Option.map_eq_some_iff.mp htoken
    have hescaped : escapeChars (String.ofList cs).toList = part := by
      rw [String.toList_ofList]
      exact escapeChars_of_unescapeChars hfirst hread
    rw [List.flatMap_cons, ih hrest hothers, ofTokens_cons, String.toList_append, toList_push, hescaped]
    rfl

/-- No two pointers have the same tokens. -/
theorem eq_ofTokens_iff : tokens? path = some tokens ↔ path = ofTokens tokens := by
  constructor
  · intro h
    unfold tokens? at h
    split at h
    next hnil =>
      cases h
      exact String.toList_injective hnil
    next rest hcons =>
      apply String.toList_injective
      have hjoin := joinPieces_pieces '/' rest
      rw [hcons, ← flatMap_of_mapM (not_mem_pieces '/' rest) h, ← cons_joinPieces (pieces_ne_nil '/' rest),
        hjoin]
    next => cases h
  · rintro rfl
    exact tokens?_ofTokens tokens

end Pointer

end ClusterGate
