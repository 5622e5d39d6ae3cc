import ClusterGate.Proofs.Json.Escape
import ClusterGate.Proofs.Patch.ByToken
import ClusterGate.Proofs.Wire

/-!
# The paths of a diff

A walk goes down two documents side by side, through the keys of objects and the indices of arrays.
The operations of a diff are the ones that the ends of the walks ask for, and the path of each spells
its walk: no key is taken for another path, whatever tildes and slashes it has. As standard JSON Patch
the operations are the same. Main statements: `mem_diff_iff` and `paths_spell_walks`.
-/

namespace ClusterGate.Patch

open Json (IsNest)

/-! ### Walks -/

/-- A step down into a document. -/
inductive Step where
  | key (k : String)
  | index (i : Nat)

namespace Step

/-- A key is its own token, and an index is written in decimal. -/
def token : Step → String
  | .key k => k
  | .index i => toString i

/-- What is behind the step. -/
def into? : Step → Json → Option Json
  | .key k, .obj members => Dict.get? k members
  | .index i, .arr elements => elements[i]?
  | _, _ => none

end Step

/-- Two objects are entered by the keys of either, and two arrays by the indices of either. -/
inductive Enters : Json → Json → Step → Prop
  | key (k : String) (before after : List (String × Json))
      (either : k ∈ Dict.keys before ∨ k ∈ Dict.keys after) :
      Enters (.obj before) (.obj after) (.key k)
  | index (i : Nat) (before after : List Json) (either : i < before.length ∨ i < after.length) :
      Enters (.arr before) (.arr after) (.index i)

/-- The steps lead from the first two places to the last two. -/
inductive Walked : Option Json → Option Json → List Step → Option Json → Option Json → Prop
  | here (old new : Option Json) : Walked old new [] old new
  | down {b a : Json} {step : Step} {steps : List Step} {old new : Option Json}
      (enters : Enters b a step) (rest : Walked (step.into? b) (step.into? a) steps old new) :
      Walked (some b) (some a) (step :: steps) old new

/-- What is to be done at a path where a walk ends: add what is new, remove what is gone, and replace
what differs and is not gone into. -/
inductive Asks (path : String) : Option Json → Option Json → Operation → Prop
  | addition (v : Json) : Asks path none (some v) (.add path v)
  | removal (v : Json) : Asks path (some v) none (.remove path)
  | replacement (b a : Json) (leaf : ¬IsNest b a) (differ : b.same a = false) :
      Asks path (some b) (some a) (.replace path a)

/-- The pointer that spells a walk. -/
def pathOf (steps : List Step) : String := Pointer.ofTokens (steps.map Step.token)

/-- The end of a walk asks for the operation at the path that spells the walk. -/
def IsDue (old new : Option Json) (op : Operation) : Prop :=
  ∃ steps o n, Walked old new steps o n ∧ Asks (pathOf steps) o n op

variable {old new o n : Option Json} {b a : Json} {op : Operation} {step : Step} {steps : List Step}
  {above path token : String}

theorem Enters.isNest (h : Enters b a step) : IsNest b a := by
  cases h <;> trivial

theorem Enters.step?_token (h : Enters b a step) :
    b.step? step.token = step.into? b ∧ a.step? step.token = step.into? a := by
  cases h with
  | key k before after either => exact ⟨rfl, rfl⟩
  | index i before after either => exact ⟨Json.step?_index before i, Json.step?_index after i⟩

theorem mem_indices {m n i : Nat} : i ∈ indices m n ↔ i < m ∨ i < n := by
  rw [indices, List.mem_append, List.mem_append, List.mem_reverse, List.mem_range, List.mem_range'_1,
    List.mem_range'_1]
  omega

theorem mem_visited_iff : token ∈ visited b a ↔ ∃ step, Enters b a step ∧ step.token = token := by
  constructor
  · intro h
    unfold visited at h
    split at h
    next before after =>
      rw [mem_sortedSet, List.mem_append] at h
      exact ⟨.key token, .key token before after h, rfl⟩
    next before after =>
      obtain ⟨i, hi, rfl⟩ := List.mem_map.mp h
      exact ⟨.index i, .index i before after (mem_indices.mp hi), rfl⟩
    next => cases h
  · rintro ⟨step, henters, rfl⟩
    cases henters with
    | key k before after either =>
      rw [visited, mem_sortedSet, List.mem_append]
      exact either
    | index i before after either =>
      exact List.mem_map.mpr ⟨i, mem_indices.mpr either, rfl⟩

/-- There are no steps from a place that is in one document only. -/
theorem Walked.stays (h : Walked old new steps o n) (hone : old = none ∨ new = none) :
    steps = [] ∧ o = old ∧ n = new := by
  cases h with
  | here => exact ⟨rfl, rfl, rfl⟩
  | down henters hrest => simp at hone

/-- In order, a document has only parts in order. -/
theorem Walked.ordered (h : Walked old new steps o n) (hnew : ∀ v ∈ new, v.Ordered) :
    ∀ v ∈ n, v.Ordered := by
  induction h with
  | here => exact hnew
  | @down b a step steps old new henters hrest ih =>
    apply ih
    intro v hv
    rw [← henters.step?_token.2] at hv
    exact Json.ordered_of_step? (hnew a rfl) hv

/-! ### What is due -/

theorem Asks.under (h : Asks path o n op) : Asks (above ++ path) o n (op.under above) := by
  cases h with
  | addition v => exact .addition v
  | removal v => exact .removal v
  | replacement b a leaf differ => exact .replacement b a leaf differ

/-- Every operation under a path is one moved there. -/
theorem Asks.exists_under (h : Asks (above ++ path) o n op) :
    ∃ inner, Asks path o n inner ∧ inner.under above = op := by
  cases h with
  | addition v => exact ⟨_, .addition v, rfl⟩
  | removal v => exact ⟨_, .removal v, rfl⟩
  | replacement b a leaf differ => exact ⟨_, .replacement b a leaf differ, rfl⟩

theorem pathOf_cons (step : Step) (steps : List Step) :
    pathOf (step :: steps) = Pointer.push "" step.token ++ pathOf steps :=
  Pointer.ofTokens_cons step.token (steps.map Step.token)

/-- Where a walk ends at once. -/
theorem isDue_of_asks (h : Asks "" old new op) : IsDue old new op :=
  ⟨[], old, new, .here old new, h⟩

theorem isDue_one_iff (hone : old = none ∨ new = none) : IsDue old new op ↔ Asks "" old new op := by
  refine ⟨?_, isDue_of_asks⟩
  rintro ⟨steps, o, n, hwalked, hasks⟩
  obtain ⟨rfl, rfl, rfl⟩ := hwalked.stays hone
  exact hasks

theorem not_asks_nest (h : IsNest b a) : ¬Asks path (some b) (some a) op := by
  rintro ⟨⟩
  contradiction

theorem isDue_leaf_iff (h : ¬IsNest b a) :
    IsDue (some b) (some a) op ↔ b.same a = false ∧ op = .replace "" a := by
  constructor
  · rintro ⟨steps, o, n, hwalked, hasks⟩
    cases hwalked with
    | here =>
      cases hasks with
      | replacement b a leaf differ => exact ⟨differ, rfl⟩
    | down henters hrest => exact absurd henters.isNest h
  · rintro ⟨hdiffer, rfl⟩
    exact isDue_of_asks (.replacement b a h hdiffer)

/-- In two documents with parts, an operation is due exactly if it is one step down. -/
theorem isDue_nest_iff (h : IsNest b a) :
    IsDue (some b) (some a) op ↔ ∃ step inner, Enters b a step ∧
      IsDue (step.into? b) (step.into? a) inner ∧ inner.under (Pointer.push "" step.token) = op := by
  constructor
  · rintro ⟨steps, o, n, hwalked, hasks⟩
    cases hwalked with
    | here => exact absurd hasks (not_asks_nest h)
    | @down _ _ step steps _ _ henters hrest =>
      rw [pathOf_cons] at hasks
      obtain ⟨inner, hinner, hunder⟩ := hasks.exists_under
      exact ⟨step, inner, henters, ⟨steps, o, n, hrest, hinner⟩, hunder⟩
  · rintro ⟨step, inner, henters, ⟨steps, o, n, hrest, hinner⟩, rfl⟩
    refine ⟨step :: steps, o, n, .down henters hrest, ?_⟩
    rw [pathOf_cons]
    exact hinner.under

/-! ### What a diff has -/

theorem mem_diff_leaf (h : ¬IsNest b a) : op ∈ diff b a ↔ IsDue (some b) (some a) op := by
  rw [diff, diffAt_of_not_nest h, isDue_leaf_iff h]
  split
  next hsame => simp [hsame]
  next hdiffer => simp [hdiffer]

theorem mem_slotDiff_iff
    (h : ∀ v w, old = some v → new = some w → (op ∈ diff v w ↔ IsDue (some v) (some w) op)) :
    op ∈ slotDiff old new ↔ IsDue old new op := by
  match old, new with
  | some v, some w => exact h v w rfl rfl
  | some v, none =>
    rw [slotDiff, List.mem_singleton, isDue_one_iff (Or.inr rfl)]
    constructor
    · rintro rfl
      exact .removal v
    · rintro ⟨⟩
      rfl
  | none, some w =>
    rw [slotDiff, List.mem_singleton, isDue_one_iff (Or.inl rfl)]
    constructor
    · rintro rfl
      exact .addition w
    · rintro ⟨⟩
      rfl
  | none, none =>
    rw [slotDiff, isDue_one_iff (Or.inl rfl)]
    constructor
    · rintro ⟨⟩
    · rintro ⟨⟩

/-- Two documents with parts: what holds below each token holds of the whole walk. -/
theorem mem_diff_nest (hnest : IsNest b a) (hb : b.Ordered) (ha : a.Ordered)
    (h : ∀ token v w, b.step? token = some v → a.step? token = some w →
      ∀ op, op ∈ diff v w ↔ IsDue (some v) (some w) op) :
    op ∈ diff b a ↔ IsDue (some b) (some a) op := by
  have hslot : ∀ token inner, inner ∈ slotDiff (b.step? token) (a.step? token) ↔
      IsDue (b.step? token) (a.step? token) inner :=
    fun token inner => mem_slotDiff_iff fun v w hv hw => h token v w hv hw inner
  rw [diff_eq_flatMap hnest hb ha, List.mem_flatMap, isDue_nest_iff hnest]
  constructor
  · rintro ⟨token, htoken, hop⟩
    obtain ⟨step, henters, rfl⟩ := mem_visited_iff.mp htoken
    obtain ⟨inner, hinner, hunder⟩ := List.mem_map.mp hop
    obtain ⟨hold, hnew⟩ := henters.step?_token
    rw [hslot, hold, hnew] at hinner
    exact ⟨step, inner, henters, hinner, hunder⟩
  · rintro ⟨step, inner, henters, hinner, hunder⟩
    obtain ⟨hold, hnew⟩ := henters.step?_token
    rw [← hold, ← hnew, ← hslot] at hinner
    exact ⟨step.token, mem_visited_iff.mpr ⟨step, henters, rfl⟩, List.mem_map.mpr ⟨inner, hinner, hunder⟩⟩

/-- The operations of a diff are the ones that are due. -/
theorem mem_diff_iff (hb : b.Ordered) (ha : a.Ordered) (op : Operation) :
    op ∈ diff b a ↔ IsDue (some b) (some a) op := by
  revert op
  exact Json.ordered_pair_induction
    (P := fun b a => ∀ op, op ∈ diff b a ↔ IsDue (some b) (some a) op)
    (fun _ _ h _ => mem_diff_leaf h) (fun _ _ hnest hb ha h _ => mem_diff_nest hnest hb ha h) b a hb ha

/-! ### As standard JSON Patch -/

theorem inOrder_of_mem_diff (hb : b.Ordered) (ha : a.Ordered) (h : op ∈ diff b a) : op.InOrder := by
  obtain ⟨steps, o, n, hwalked, hasks⟩ := (mem_diff_iff hb ha op).mp h
  have hnew : ∀ v ∈ n, v.Ordered := by
    apply hwalked.ordered
    rintro v hv
    cases hv
    exact ha
  cases hasks with
  | addition v => exact hnew v rfl
  | removal v => trivial
  | replacement b a leaf differ => exact hnew a rfl

theorem Operation.readStandard?_encode (horder : op.InOrder)
    (hpath : Pointer.isPointer op.path = true) :
    readStandard? (Doc.ofValue op.encode) = some op := by
  rw [readStandard?, read?_encode horder, Option.filter_some, if_pos hpath]

theorem standard_of_pointers {ops : List Operation}
    (h : ∀ op ∈ ops, op.InOrder ∧ Pointer.isPointer op.path = true) : standard ops = .ok ops := by
  have hread : Doc.list? Operation.readStandard? (Doc.ofValue (encode ops)) = some ops := by
    apply Doc.list?_ofValue
    intro op hop
    obtain ⟨horder, hpath⟩ := h op hop
    exact Operation.readStandard?_encode horder hpath
  rw [standard, hread]

theorem standard_diff (hb : b.Ordered) (ha : a.Ordered) : standard (diff b a) = .ok (diff b a) :=
  standard_of_pointers fun op hop =>
    ⟨inOrder_of_mem_diff hb ha hop, isPointer_of_inner (inner_of_mem_diff b a op hop)⟩

/-! ### The paths -/

theorem Asks.path_eq (h : Asks path o n op) : op.path = path := by
  cases h <;> rfl

theorem spells_iff : path = pathOf steps ↔
    Pointer.IsWellFormed path ∧ Pointer.referenceTokens path = steps.map Step.token := by
  rw [← Pointer.tokens?_eq_some_iff, Pointer.eq_ofTokens_iff, pathOf]

theorem isDue_iff : IsDue old new op ↔ ∃ steps o n, Walked old new steps o n ∧ Asks op.path o n op ∧
    Pointer.IsWellFormed op.path ∧ Pointer.referenceTokens op.path = steps.map Step.token := by
  constructor
  · rintro ⟨steps, o, n, hwalked, hasks⟩
    have hpath := hasks.path_eq
    rw [← hpath] at hasks
    exact ⟨steps, o, n, hwalked, hasks, spells_iff.mp hpath⟩
  · rintro ⟨steps, o, n, hwalked, hasks, hspells⟩
    rw [spells_iff.mpr hspells] at hasks
    exact ⟨steps, o, n, hwalked, hasks⟩

/-- Escaping replaces the tildes and then the slashes, and the inverse replacements in the opposite
order undo it. An escaped token has no slash, no tilde that is not coded, and begins another one
exactly if the tokens do. Hence an operation is in a diff exactly if the end of a walk asks for it and
its path is a pointer whose tokens are the keys and the decimal indices of that walk; and as standard
JSON Patch the diff is accepted and written alike. -/
theorem paths_spell_walks :
    (∀ s : String,
      (Pointer.escape s).toList =
        Text.replaceAll ['/'] ['~', '1'] (Text.replaceAll ['~'] ['~', '0'] s.toList) ∧
      Pointer.unescape (Pointer.escape s).toList = s.toList ∧
      '/' ∉ (Pointer.escape s).toList ∧ Pointer.TildesCoded (Pointer.escape s).toList) ∧
    (∀ s t : String, (Pointer.escape t).toList <+: (Pointer.escape s).toList ↔ t.toList <+: s.toList) ∧
    (∀ path, Pointer.isPointer path = true ↔ Pointer.IsWellFormed path) ∧
    ∀ before after : Json, before.Ordered → after.Ordered →
      (∀ op, op ∈ diff before after ↔ ∃ steps old new,
        Walked (some before) (some after) steps old new ∧ Asks op.path old new op ∧
          Pointer.IsWellFormed op.path ∧ Pointer.referenceTokens op.path = steps.map Step.token) ∧
      ∃ patch, standard (diff before after) = .ok patch ∧
        encode patch = encode (diff before after) := by
  have htext : ∀ s, (Pointer.escape s).toList = Pointer.escapeChars s.toList :=
    fun s => String.toList_ofList
  simp only [htext]
  refine ⟨fun s => ?_, fun s t => Pointer.escapeChars_prefix_iff, fun path => ?_, fun b a hb ha => ?_⟩
  · obtain ⟨hcoded, hback⟩ := Pointer.unescape_escapeChars s.toList
    exact ⟨Pointer.escapeChars_eq s.toList, hback, Pointer.slash_not_mem_escapeChars s.toList, hcoded⟩
  · rw [Pointer.isPointer, Option.isSome_iff_exists]
    constructor
    · rintro ⟨tokens, htokens⟩
      exact (Pointer.tokens?_eq_some_iff.mp htokens).1
    · intro hformed
      exact ⟨_, Pointer.tokens?_eq_some_iff.mpr ⟨hformed, rfl⟩⟩
  · refine ⟨fun op => ?_, diff b a, standard_diff hb ha, rfl⟩
    rw [mem_diff_iff hb ha, isDue_iff]

/-- A key with a slash, and one that looks like an escaped slash. -/
theorem paths_spell_walks_marked :
    let before := Json.obj [("a/b", .arr [.int 1, .int 2]), ("~1", .int 0)]
    let after := Json.obj [("a/b", .arr [.int 1]), ("~1", .int 5)]
    let removal := Operation.remove "/a~1b/1"
    let replacement := Operation.replace "/~01" (.int 5)
    before.Ordered ∧ after.Ordered ∧ diff before after = [removal, replacement] ∧
      Walked (some before) (some after) [.key "a/b", .index 1] (some (.int 2)) none ∧
      Pointer.IsWellFormed removal.path ∧ Pointer.referenceTokens removal.path = ["a/b", "1"] ∧
      Walked (some before) (some after) [.key "~1"] (some (.int 0)) (some (.int 5)) ∧
      Pointer.IsWellFormed replacement.path ∧ Pointer.referenceTokens replacement.path = ["~1"] ∧
      ∃ patch, standard (diff before after) = .ok patch ∧
        encode patch = encode (diff before after) := by
  intro before after removal replacement
  have hdiff : diff before after = [removal, replacement] := by
    have hpaths : Pointer.push "" "a/b" ++ "/" ++ Nat.repr 1 = "/a~1b/1" ∧
        Pointer.push "" "~1" = "/~01" := by decide +kernel
    simp [before, after, removal, replacement, diff, diffAt, diffMembers, diffElements, removals,
      Json.same, hpaths]
  have hbefore : before.Ordered := by
    simp only [before, Json.Ordered, Json.OrderedMembers, Json.OrderedElements, Dict.Sorted]
    decide
  have hafter : after.Ordered := by
    simp only [after, Json.Ordered, Json.OrderedMembers, Json.OrderedElements, Dict.Sorted]
    decide
  obtain ⟨-, -, -, hdocuments⟩ := paths_spell_walks
  obtain ⟨hmember, hstandard⟩ := hdocuments before after hbefore hafter
  have hformed : ∀ op ∈ diff before after, Pointer.IsWellFormed op.path := by
    intro op hop
    obtain ⟨steps, old, new, hwalked, hasks, hformed, htokens⟩ := (hmember op).mp hop
    exact hformed
  rw [hdiff] at hformed
  refine ⟨hbefore, hafter, hdiff, ?elements, hformed removal (by simp), ?tokens, ?members,
    hformed replacement (by simp), ?tokens', hstandard⟩
  case elements =>
    refine .down (.key "a/b" _ _ (Or.inl (by decide))) ?_
    exact .down (.index 1 [.int 1, .int 2] [.int 1] (Or.inl (by decide))) (.here _ _)
  case members => exact .down (.key "~1" _ _ (Or.inl (by decide))) (.here _ _)
  case tokens => decide +kernel
  case tokens' => decide +kernel

end ClusterGate.Patch
