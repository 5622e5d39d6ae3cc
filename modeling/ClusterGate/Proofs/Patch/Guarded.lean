import ClusterGate.Proofs.Patch.ByKey
import ClusterGate.Proofs.Patch.PutBack
import ClusterGate.Proofs.Patch.RoundTrip

/-!
# Patches without guarded places

The operations of a diff that do not lie under the path of a guard are the diff towards the document
with the guarded members put back (`without_diff`). So what is left of a patch after several guards is
the patch of two documents again, and runs.
-/

namespace ClusterGate.Patch

variable {start key token first : String} {tokens above : List String}
  {before after : List (String × Json)} {op : Operation}

/-! ### Which operations lie under a path -/

theorem isUnder_push (hop : Pointer.isPointer op.path = true) :
    isUnder (Pointer.push "" start) (op.under (Pointer.push "" key)) = covers start key := by
  rw [isUnder, covers, Operation.path_under, Bool.eq_iff_iff, List.isPrefixOf_iff_prefix,
    List.isPrefixOf_iff_prefix, Pointer.push_prefix_iff hop]

theorem isUnder_push_append (hop : Pointer.isPointer op.path = true) :
    isUnder (Pointer.push "" token ++ Pointer.ofTokens (first :: tokens))
        (op.under (Pointer.push "" key)) =
      (token == key && isUnder (Pointer.ofTokens (first :: tokens)) op) := by
  rw [isUnder, isUnder, Operation.path_under, Bool.eq_iff_iff, Bool.and_eq_true, beq_iff_eq,
    List.isPrefixOf_iff_prefix, List.isPrefixOf_iff_prefix, Pointer.push_append_prefix_iff hop]

theorem without_push_memberDiff :
    without (Pointer.push "" start) (memberDiff before after key) =
      if covers start key then [] else memberDiff before after key := by
  have hunder : ∀ op ∈ memberDiff before after key,
      (!isUnder (Pointer.push "" start) op) = !covers start key := by
    intro op hop
    obtain ⟨inner, hinner, rfl⟩ := List.mem_map.mp hop
    rw [isUnder_push (isPointer_of_mem_slotDiff hinner)]
  rw [without, List.filter_congr hunder]
  cases covers start key <;> simp

theorem without_push_append_memberDiff :
    without (Pointer.push "" token ++ Pointer.ofTokens (first :: tokens))
        (memberDiff before after key) =
      if token = key then
        (without (Pointer.ofTokens (first :: tokens))
          (slotDiff (Dict.get? key before) (Dict.get? key after))).map
            (·.under (Pointer.push "" key))
      else memberDiff before after key := by
  have hunder : ∀ inner ∈ slotDiff (Dict.get? key before) (Dict.get? key after),
      (!isUnder (Pointer.push "" token ++ Pointer.ofTokens (first :: tokens))
        (inner.under (Pointer.push "" key))) =
      !(token == key && isUnder (Pointer.ofTokens (first :: tokens)) inner) := by
    intro inner hinner
    rw [isUnder_push_append (isPointer_of_mem_slotDiff hinner)]
  rw [without, without, memberDiff, List.filter_map, Function.comp_def, List.filter_congr hunder]
  split
  next heq => simp [heq]
  next hne => simp [beq_false_of_ne hne]

/-! ### The diff towards the document with members put back -/

theorem diff_obj {others : List (String × Json)} (hbefore : Dict.Sorted before)
    (hafter : Dict.Sorted after)
    (hkeys : ∀ l, Dict.get? l before = none → Dict.get? l others = none → Dict.get? l after = none) :
    diff (.obj before) (.obj after) =
      (sortedSet (Dict.keys before ++ Dict.keys others)).flatMap (memberDiff before after) := by
  rw [diff, diffAt]
  refine diffMembers_eq_flatMap (sortedSet_sorted _) hbefore hafter ?_ ?_
  · exact fun l hl => mem_sortedSet.mpr (List.mem_append_left _ hl)
  · intro l hl
    by_contra hnot
    rw [mem_sortedSet, List.mem_append, not_or] at hnot
    obtain ⟨hb, ho⟩ := hnot
    exact Dict.get?_eq_none_iff.mp
      (hkeys l (Dict.get?_eq_none_iff.mpr hb) (Dict.get?_eq_none_iff.mpr ho)) hl

theorem memberDiff_putBackMembers :
    memberDiff before (putBackMembers start before after) key =
      if covers start key then [] else memberDiff before after key := by
  rw [memberDiff, get?_putBackMembers]
  split
  · rw [slotDiff_self, List.map_nil]
  · rfl

theorem memberDiff_insert {b new : Json} (hb : Dict.get? token before = some b) :
    memberDiff before (Dict.insert token new after) key =
      if token = key then (diff b new).map (·.under (Pointer.push "" key))
      else memberDiff before after key := by
  rw [memberDiff]
  split
  next heq =>
    subst heq
    rw [hb, Dict.get?_insert_self, slotDiff]
  next hne => rw [Dict.get?_insert_of_ne _ _ (Ne.symm hne), memberDiff]

theorem without_diff {before after : Json} (hbefore : before.IsObjectAt above)
    (hafter : after.IsObjectAt above) (hb : before.Ordered) (ha : after.Ordered) :
    without (Pointer.ofTokens (above ++ [start])) (diff before after) =
      diff before (putBackAt start above before after) := by
  refine Json.objects_induction
    (P := fun above before after => before.Ordered → after.Ordered →
      without (Pointer.ofTokens (above ++ [start])) (diff before after) =
        diff before (putBackAt start above before after))
    ?here ?below hbefore hafter hb ha
  case here =>
    intro before after hb ha
    -- Both diffs walk through the keys of `before` and `after`, so they can be compared key by key.
    have hkeys : ∀ l, Dict.get? l before = none → Dict.get? l after = none →
        Dict.get? l (putBackMembers start before after) = none := by
      intro l hlb hla
      rw [get?_putBackMembers, hlb, hla, ite_self]
    rw [putBackAt, diff_obj hb.1 ha.1 fun _ _ hl => hl, diff_obj hb.1 sorted_putBackMembers hkeys,
      List.nil_append, Pointer.ofTokens_singleton, without, List.filter_flatMap]
    refine List.flatMap_congr fun key _ => ?_
    rw [memberDiff_putBackMembers]
    exact without_push_memberDiff
  case below =>
    intro token above before after b a htb hta ih hb ha
    have hkeys : ∀ l, Dict.get? l before = none → Dict.get? l after = none →
        Dict.get? l (Dict.insert token (putBackAt start above b a) after) = none := by
      intro l _ hla
      have hne : l ≠ token := by
        rintro rfl
        rw [hta] at hla
        cases hla
      rw [Dict.get?_insert_of_ne _ _ hne, hla]
    -- The rest of the path has a token: its slash keeps the path out of the neighbours of `token`.
    obtain ⟨first, tokens, htokens⟩ := List.exists_cons_of_ne_nil
      (List.append_ne_nil_of_right_ne_nil above (List.cons_ne_nil start []))
    have hrest := ih (hb.get? htb) (ha.get? hta)
    rw [htokens] at hrest
    rw [putBackAt_below htb hta, diff_obj hb.1 ha.1 fun _ _ hl => hl,
      diff_obj hb.1 (Dict.sorted_insert ha.1) hkeys, List.cons_append, Pointer.ofTokens_cons, htokens,
      without, List.filter_flatMap]
    refine List.flatMap_congr fun key _ => ?_
    rw [memberDiff_insert htb]
    refine without_push_append_memberDiff.trans ?_
    split
    next heq =>
      subst heq
      rw [htb, hta, slotDiff, hrest]
    next => rfl

/-! ### Several guards -/

variable {guards : List Guard} {before after : Json}

/-- Every guard names an object of both documents. -/
def Fit (guards : List Guard) (before after : Json) : Prop :=
  ∀ g ∈ guards, before.IsObjectAt g.above ∧ after.IsObjectAt g.above

/-- Induction over guards, with the members of the first one put back before the others. -/
theorem guards_induction {P : List Guard → Json → Prop}
    (done : ∀ after, after.Ordered → P [] after)
    (next : ∀ g guards after, before.IsObjectAt g.above → after.IsObjectAt g.above → after.Ordered →
      P guards (g.putBack before after) → P (g :: guards) after)
    (hbefore : before.Ordered) (hafter : after.Ordered) (hguards : Fit guards before after) :
    P guards after := by
  induction guards generalizing after with
  | nil => exact done after hafter
  | cons g guards ih =>
    obtain ⟨hb, ha⟩ := hguards g List.mem_cons_self
    refine next g guards after hb ha hafter (ih (ordered_putBackAt hb ha hbefore hafter) ?_)
    intro other hother
    obtain ⟨hob, hoa⟩ := hguards other (List.mem_cons_of_mem _ hother)
    exact ⟨hob, isObjectAt_putBackAt hb ha hob hoa⟩

theorem ordered_putBackAll (hbefore : before.Ordered) (hafter : after.Ordered)
    (hguards : Fit guards before after) : (putBackAll guards before after).Ordered := by
  refine guards_induction (P := fun guards after => (putBackAll guards before after).Ordered)
    ?done ?next hbefore hafter hguards
  case done => exact fun after h => h
  case next => exact fun g guards after _ _ _ ih => ih

theorem withoutAll_diff (hbefore : before.Ordered) (hafter : after.Ordered)
    (hguards : Fit guards before after) :
    withoutAll (guards.map Guard.path) (diff before after) =
      diff before (putBackAll guards before after) := by
  refine guards_induction (P := fun guards after =>
    withoutAll (guards.map Guard.path) (diff before after) =
      diff before (putBackAll guards before after)) ?done ?next hbefore hafter hguards
  case done => exact fun after _ => rfl
  case next =>
    intro g guards after hb ha hafter ih
    rw [List.map_cons, withoutAll, List.foldl_cons, Guard.path,
      without_diff hb ha hbefore hafter]
    exact ih

theorem withoutAll_eq_filter (paths : List String) (ops : List Operation) :
    withoutAll paths ops = ops.filter fun op => paths.all fun path => !isUnder path op := by
  induction paths generalizing ops with
  | nil => simp [withoutAll]
  | cons path paths ih =>
    rw [withoutAll, List.foldl_cons, ← withoutAll, ih, without, List.filter_filter]
    refine List.filter_congr fun op _ => ?_
    rw [List.all_cons, Bool.and_comm]

theorem withoutAll_congr {paths others : List String} (h : ∀ path, path ∈ paths ↔ path ∈ others)
    (ops : List Operation) : withoutAll paths ops = withoutAll others ops := by
  rw [withoutAll_eq_filter, withoutAll_eq_filter]
  refine List.filter_congr fun op _ => ?_
  rw [Bool.eq_iff_iff, List.all_eq_true, List.all_eq_true]
  simp only [h]

/-- Guarded members are put back for good: no later guard takes them away again. -/
theorem follow?_putBackAll_of_guarded {keys : List String} (hbefore : before.Ordered)
    (hafter : after.Ordered) (hguards : Fit guards before after)
    (hkeys : (∃ g ∈ guards, ∃ key, covers g.start key = true ∧ keys = g.above ++ [key]) ∨
      after.follow? keys = before.follow? keys) :
    (putBackAll guards before after).follow? keys = before.follow? keys := by
  refine guards_induction (P := fun guards after =>
    (∃ g ∈ guards, ∃ key, covers g.start key = true ∧ keys = g.above ++ [key]) ∨
      after.follow? keys = before.follow? keys →
    (putBackAll guards before after).follow? keys = before.follow? keys)
    ?done ?next hbefore hafter hguards hkeys
  case done =>
    rintro after - (⟨g, hg, -⟩ | heq)
    · cases hg
    · exact heq
  case next =>
    rintro g guards after hb ha - ih (⟨other, hother, key, hkey, rfl⟩ | heq)
    · rcases List.mem_cons.mp hother with rfl | hother
      · exact ih (Or.inr (follow?_putBackAt_of_covers hb ha hkey))
      · exact ih (Or.inl ⟨other, hother, key, hkey, rfl⟩)
    · exact ih (Or.inr (follow?_putBackAt_of_eq hb ha hbefore heq))

theorem follow?_putBackAll_of_not_touches {keys : List String} (hbefore : before.Ordered)
    (hafter : after.Ordered) (hguards : Fit guards before after)
    (hkeys : ∀ g ∈ guards, ¬g.Touches keys) :
    (putBackAll guards before after).follow? keys = after.follow? keys := by
  refine guards_induction (P := fun guards after => (∀ g ∈ guards, ¬g.Touches keys) →
    (putBackAll guards before after).follow? keys = after.follow? keys)
    ?done ?next hbefore hafter hguards hkeys
  case done => exact fun after _ _ => rfl
  case next =>
    intro g guards after hb ha _ ih hkeys
    have hrest := ih fun other hother => hkeys other (List.mem_cons_of_mem _ hother)
    exact hrest.trans (follow?_putBackAt_of_not_touches hb ha (hkeys g List.mem_cons_self))

theorem leads_putBackAll (hbefore : before.Ordered) (hafter : after.Ordered)
    (hguards : Fit guards before after) :
    ∃ result, performOn? (withoutAll (guards.map Guard.path) (diff before after)) before =
      some result ∧ result.same (putBackAll guards before after) = true := by
  have hordered := ordered_putBackAll hbefore hafter hguards
  obtain ⟨result, hrun, hsame, -⟩ := performOn?_diff hbefore hordered
  exact ⟨result, by rw [withoutAll_diff hbefore hafter hguards, hrun], hsame⟩

/-- A diff without the operations under guarded paths runs and ends in the wanted document with the
guarded members as they were; what no guard touches is as wanted. Neither the order of the guards
nor their repetition matters. -/
theorem performOn?_withoutAll {before after : Json} {guards : List Guard}
    (hbefore : before.Ordered) (hafter : after.Ordered) (hguards : Fit guards before after) :
    ∃ result,
      performOn? (withoutAll (guards.map Guard.path) (diff before after)) before = some result ∧
      result.same (putBackAll guards before after) = true ∧
      (∀ g ∈ guards, ∀ key, covers g.start key = true →
        (putBackAll guards before after).follow? (g.above ++ [key]) =
          before.follow? (g.above ++ [key])) ∧
      (∀ keys, (∀ g ∈ guards, ¬g.Touches keys) →
        (putBackAll guards before after).follow? keys = after.follow? keys) ∧
      ∀ again : List Guard, (∀ g, g ∈ again ↔ g ∈ guards) →
        performOn? (withoutAll (again.map Guard.path) (diff before after)) before = some result ∧
        result.same (putBackAll again before after) = true := by
  obtain ⟨result, hrun, hsame⟩ := leads_putBackAll hbefore hafter hguards
  refine ⟨result, hrun, hsame, ?_, ?_, ?_⟩
  · intro g hg key hkey
    exact follow?_putBackAll_of_guarded hbefore hafter hguards (Or.inl ⟨g, hg, key, hkey, rfl⟩)
  · exact fun keys hkeys => follow?_putBackAll_of_not_touches hbefore hafter hguards hkeys
  · intro again hagain
    have hfit : Fit again before after := fun g hg => hguards g ((hagain g).mp hg)
    obtain ⟨other, hother, hothersame⟩ := leads_putBackAll hbefore hafter hfit
    have hpaths : ∀ path, path ∈ again.map Guard.path ↔ path ∈ guards.map Guard.path := by
      intro path
      simp only [List.mem_map, hagain]
    rw [withoutAll_congr hpaths] at hother ⊢
    obtain rfl := Option.some.inj (hrun.symm.trans hother)
    exact ⟨hrun, hothersame⟩

/-- Keys with marks in them, a guard below a key that itself stays open, and one inside another. -/
theorem performOn?_withoutAll_marked :
    let before : Json := .obj [
      ("a/b", .obj [("net", .obj [("x", .int 1), ("y", .int 1)]), ("n~1", .int 1), ("o", .int 1)]),
      ("z", .null)]
    let after : Json := .obj [
      ("a/b", .obj [("net", .obj [("xx", .int 3), ("y", .int 2)]), ("neu", .null), ("o", .int 2)]),
      ("new", .null)]
    let guards : List Guard :=
      [⟨["a/b"], "n~"⟩, ⟨["a/b", "net"], "x"⟩, ⟨["a/b"], "n~1"⟩, ⟨[], "z"⟩]
    before.Ordered ∧ after.Ordered ∧ Fit guards before after ∧
      ∃ result, performOn?
        (withoutAll ["/a~1b/n~0", "/a~1b/net/x", "/a~1b/n~01", "/z"] (diff before after)) before =
          some result ∧
        result.same (.obj [
          ("a/b", .obj [("net", .obj [("x", .int 1), ("y", .int 2)]), ("neu", .null),
            ("n~1", .int 1), ("o", .int 2)]),
          ("new", .null), ("z", .null)]) = true := by
  intro before after guards
  have hbefore : before.Ordered := by
    simp only [before, Json.Ordered, Json.OrderedMembers, Dict.Sorted]
    decide
  have hafter : after.Ordered := by
    simp only [after, Json.Ordered, Json.OrderedMembers, Dict.Sorted]
    decide
  have hfit : Fit guards before after := by
    simp only [Fit, guards, List.forall_mem_cons, List.not_mem_nil, false_implies, implies_true,
      and_true]
    exact ⟨⟨⟨_, rfl⟩, ⟨_, rfl⟩⟩, ⟨⟨_, rfl⟩, ⟨_, rfl⟩⟩, ⟨⟨_, rfl⟩, ⟨_, rfl⟩⟩, ⟨_, rfl⟩, ⟨_, rfl⟩⟩
  have hpaths : guards.map Guard.path = ["/a~1b/n~0", "/a~1b/net/x", "/a~1b/n~01", "/z"] := by
    decide
  obtain ⟨result, hrun, hsame, -⟩ := performOn?_withoutAll hbefore hafter hfit
  rw [hpaths] at hrun
  exact ⟨hbefore, hafter, hfit, result, hrun, hsame⟩

end ClusterGate.Patch
