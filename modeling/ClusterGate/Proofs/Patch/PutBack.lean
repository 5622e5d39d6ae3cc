import ClusterGate.Json.Pointer
import ClusterGate.Proofs.Json.Ordered

/-!
# Guarded members

A guard names an object by the keys that lead to it and covers the members of that object whose keys
begin with a text. To put the guarded members back is to give them, in the wanted document, what they
have in the given one; everything beside them stays as it is wanted.
-/

namespace ClusterGate

namespace Json

variable {key : String} {keys : List String} {v w : Json} {members : List (String × Json)}

/-- The value that keys lead to, from object to object. -/
def follow? : List String → Json → Option Json
  | [], v => some v
  | key :: keys, v => (v.member? key).bind (follow? keys)

/-- The keys lead to an object, and on the way from object to object. -/
def IsObjectAt (keys : List String) (v : Json) : Prop := ∃ members, v.follow? keys = some (.obj members)

theorem follow?_obj :
    (obj members).follow? (key :: keys) = (Dict.get? key members).bind (follow? keys) := rfl

theorem isObjectAt_obj :
    (obj members).IsObjectAt (key :: keys) ↔
      ∃ w, Dict.get? key members = some w ∧ w.IsObjectAt keys := by
  constructor
  · rintro ⟨inner, h⟩
    obtain ⟨w, hw, hrest⟩ := Option.bind_eq_some_iff.mp h
    exact ⟨w, hw, inner, hrest⟩
  · rintro ⟨w, hw, inner, hrest⟩
    exact ⟨inner, Option.bind_eq_some_iff.mpr ⟨w, hw, hrest⟩⟩

theorem IsObjectAt.eq_obj (h : v.IsObjectAt keys) : ∃ members, v = .obj members := by
  obtain ⟨inner, h⟩ := h
  cases keys with
  | nil => exact ⟨inner, Option.some.inj h⟩
  | cons key keys =>
    obtain ⟨w, hw, -⟩ := Option.bind_eq_some_iff.mp h
    cases v with
    | obj members => exact ⟨members, rfl⟩
    | _ => cases hw

theorem Ordered.get? (h : (obj members).Ordered) (hget : Dict.get? key members = some v) :
    v.Ordered :=
  orderedMembers_iff.mp h.2 key v ((Dict.get?_eq_some_iff h.1).mp hget)

/-- Induction along keys that lead to an object in each of two documents. -/
theorem objects_induction {P : List String → Json → Json → Prop}
    (here : ∀ before after, P [] (.obj before) (.obj after))
    (below : ∀ key keys before after b a, Dict.get? key before = some b →
      Dict.get? key after = some a → P keys b a → P (key :: keys) (.obj before) (.obj after))
    {keys : List String} {before after : Json} (hbefore : before.IsObjectAt keys)
    (hafter : after.IsObjectAt keys) : P keys before after := by
  induction keys generalizing before after with
  | nil =>
    obtain ⟨bs, rfl⟩ := hbefore.eq_obj
    obtain ⟨as, rfl⟩ := hafter.eq_obj
    exact here bs as
  | cons key keys ih =>
    obtain ⟨bs, rfl⟩ := hbefore.eq_obj
    obtain ⟨as, rfl⟩ := hafter.eq_obj
    obtain ⟨b, hb, hbrest⟩ := isObjectAt_obj.mp hbefore
    obtain ⟨a, ha, harest⟩ := isObjectAt_obj.mp hafter
    exact below key keys bs as b a hb ha (ih hbrest harest)

end Json

namespace Patch

/-- The members, of the object that the keys `above` lead to, whose keys begin with `start`. -/
structure Guard where
  above : List String
  start : String

def covers (start key : String) : Bool := start.toList.isPrefixOf key.toList

/-- The members of an object, those whose keys begin with `start` as they were before. -/
def putBackMembers (start : String) (before after : Dict Json) : Dict Json :=
  Dict.tabulate (sortedSet (Dict.keys before ++ Dict.keys after)) fun key =>
    if covers start key then Dict.get? key before else Dict.get? key after

/-- The same inside the object that keys lead to. -/
def putBackAt (start : String) : List String → Json → Json → Json
  | [], .obj before, .obj after => .obj (putBackMembers start before after)
  | key :: keys, .obj before, .obj after =>
    match Dict.get? key before, Dict.get? key after with
    | some b, some a => .obj (Dict.insert key (putBackAt start keys b a) after)
    | _, _ => .obj after
  | _, _, after => after

namespace Guard

def path (g : Guard) : String := Pointer.ofTokens (g.above ++ [g.start])

/-- The wanted document with the guarded members as they were before. -/
def putBack (g : Guard) (before after : Json) : Json := putBackAt g.start g.above before after

/-- The place that keys lead to is guarded, lies in a guarded member or has guarded members in it. -/
def Touches (g : Guard) (keys : List String) : Prop :=
  keys <+: g.above ∨ ∃ key, covers g.start key = true ∧ g.above ++ [key] <+: keys

end Guard

/-- The wanted document with the members of every guard as they were before. -/
def putBackAll (guards : List Guard) (before after : Json) : Json :=
  guards.foldl (fun wanted g => g.putBack before wanted) after

variable {start key : String} {keys above : List String} {before after : List (String × Json)}
  {b a : Json}

/-! ### What stands under a key -/

theorem get?_putBackMembers :
    Dict.get? key (putBackMembers start before after) =
      if covers start key then Dict.get? key before else Dict.get? key after := by
  refine Dict.get?_tabulate (sortedSet_sorted _) fun key hkey => ?_
  rw [mem_sortedSet, List.mem_append, not_or] at hkey
  split
  · exact Dict.get?_eq_none_iff.mpr hkey.1
  · exact Dict.get?_eq_none_iff.mpr hkey.2

theorem sorted_putBackMembers : Dict.Sorted (putBackMembers start before after) :=
  Dict.sorted_tabulate (sortedSet_sorted _) _

theorem putBackAt_below (hb : Dict.get? key before = some b) (ha : Dict.get? key after = some a) :
    putBackAt start (key :: keys) (.obj before) (.obj after) =
      .obj (Dict.insert key (putBackAt start keys b a) after) := by
  rw [putBackAt, hb, ha]

theorem ordered_putBackAt {before after : Json} (hbefore : before.IsObjectAt above)
    (hafter : after.IsObjectAt above) (hb : before.Ordered) (ha : after.Ordered) :
    (putBackAt start above before after).Ordered := by
  refine Json.objects_induction
    (P := fun above before after => before.Ordered → after.Ordered →
      (putBackAt start above before after).Ordered)
    ?here ?below hbefore hafter hb ha
  case here =>
    intro before after hb ha
    refine ⟨sorted_putBackMembers, Json.orderedMembers_iff.mpr fun key v hv => ?_⟩
    have hget := (Dict.get?_eq_some_iff sorted_putBackMembers).mpr hv
    rw [get?_putBackMembers] at hget
    split at hget
    · exact hb.get? hget
    · exact ha.get? hget
  case below =>
    intro key keys before after b a hkb hka ih hb ha
    rw [putBackAt_below hkb hka]
    exact ha.insert (ih (hb.get? hkb) (ha.get? hka))

theorem isObjectAt_putBackAt {before after : Json} (hbefore : before.IsObjectAt above)
    (hafter : after.IsObjectAt above) (hb : before.IsObjectAt keys) (ha : after.IsObjectAt keys) :
    (putBackAt start above before after).IsObjectAt keys := by
  refine Json.objects_induction
    (P := fun above before after => ∀ keys, before.IsObjectAt keys → after.IsObjectAt keys →
      (putBackAt start above before after).IsObjectAt keys)
    ?here ?below hbefore hafter keys hb ha
  case here =>
    intro before after keys hb ha
    cases keys with
    | nil => exact ⟨_, rfl⟩
    | cons key keys =>
      obtain ⟨b, hkb, hbrest⟩ := Json.isObjectAt_obj.mp hb
      obtain ⟨a, hka, harest⟩ := Json.isObjectAt_obj.mp ha
      refine Json.isObjectAt_obj.mpr ⟨if covers start key then b else a, ?_, ?_⟩
      · rw [get?_putBackMembers, hkb, hka, apply_ite some]
      · split
        · exact hbrest
        · exact harest
  case below =>
    intro key above before after b a hkb hka ih keys hb ha
    rw [putBackAt_below hkb hka]
    cases keys with
    | nil => exact ⟨_, rfl⟩
    | cons l keys =>
      obtain ⟨b', hlb, hbrest⟩ := Json.isObjectAt_obj.mp hb
      obtain ⟨a', hla, harest⟩ := Json.isObjectAt_obj.mp ha
      by_cases hl : l = key
      · subst hl
        obtain rfl := Option.some.inj (hkb.symm.trans hlb)
        obtain rfl := Option.some.inj (hka.symm.trans hla)
        exact Json.isObjectAt_obj.mpr ⟨_, Dict.get?_insert_self l _ after, ih keys hbrest harest⟩
      · exact Json.isObjectAt_obj.mpr
          ⟨a', (Dict.get?_insert_of_ne _ _ hl).trans hla, harest⟩

/-! ### Where the document changes -/

theorem putBackMembers_self (h : Dict.Sorted before) :
    putBackMembers start before before = before := by
  refine Dict.eq_of_get? sorted_putBackMembers h fun key => ?_
  rw [get?_putBackMembers, ite_self]

theorem putBackAt_self {v : Json} (hv : v.IsObjectAt above) (h : v.Ordered) :
    putBackAt start above v v = v := by
  induction above generalizing v with
  | nil =>
    obtain ⟨members, rfl⟩ := hv.eq_obj
    exact congrArg Json.obj (putBackMembers_self h.1)
  | cons key above ih =>
    obtain ⟨members, rfl⟩ := hv.eq_obj
    obtain ⟨w, hw, hrest⟩ := Json.isObjectAt_obj.mp hv
    rw [putBackAt_below hw hw, ih hrest (h.get? hw)]
    obtain ⟨front, rest, rfl⟩ := List.append_of_mem ((Dict.get?_eq_some_iff h.1).mp hw)
    rw [Dict.insert_append_cons h.1]

/-- A place that is as it was before stays so. -/
theorem follow?_putBackAt_of_eq {before after : Json} (hbefore : before.IsObjectAt above)
    (hafter : after.IsObjectAt above) (hordered : before.Ordered)
    (heq : after.follow? keys = before.follow? keys) :
    (putBackAt start above before after).follow? keys = before.follow? keys := by
  refine Json.objects_induction
    (P := fun above before after => before.IsObjectAt above → ∀ keys, before.Ordered →
      after.follow? keys = before.follow? keys →
      (putBackAt start above before after).follow? keys = before.follow? keys)
    ?here ?below hbefore hafter hbefore keys hordered heq
  case here =>
    intro before after hat keys hordered heq
    cases keys with
    | nil =>
      have hsame : Json.obj after = Json.obj before := Option.some.inj heq
      rw [hsame, putBackAt_self hat hordered]
    | cons key keys =>
      rw [Json.follow?_obj, Json.follow?_obj] at heq
      rw [putBackAt, Json.follow?_obj, Json.follow?_obj, get?_putBackMembers]
      split
      · rfl
      · exact heq
  case below =>
    intro key above before after b a hkb hka ih hat keys hordered heq
    obtain ⟨b', hkb', hrest⟩ := Json.isObjectAt_obj.mp hat
    obtain rfl := Option.some.inj (hkb.symm.trans hkb')
    cases keys with
    | nil =>
      -- The place lies above the guard: all of it is as before, and what is put back is there already.
      have hsame : Json.obj after = Json.obj before := Option.some.inj heq
      rw [hsame, putBackAt_self hat hordered]
    | cons l keys =>
      rw [putBackAt_below hkb hka]
      rw [Json.follow?_obj, Json.follow?_obj] at heq ⊢
      by_cases hl : l = key
      · subst hl
        rw [hkb, hka] at heq
        rw [Dict.get?_insert_self, hkb]
        exact ih hrest keys (hordered.get? hkb) heq
      · rw [Dict.get?_insert_of_ne _ _ hl, heq]

theorem follow?_putBackAt_of_covers {before after : Json} (hbefore : before.IsObjectAt above)
    (hafter : after.IsObjectAt above) (hkey : covers start key = true) :
    (putBackAt start above before after).follow? (above ++ [key]) =
      before.follow? (above ++ [key]) := by
  refine Json.objects_induction
    (P := fun above before after => (putBackAt start above before after).follow? (above ++ [key]) =
      before.follow? (above ++ [key]))
    ?here ?below hbefore hafter
  case here =>
    intro before after
    rw [List.nil_append, putBackAt, Json.follow?_obj, Json.follow?_obj, get?_putBackMembers,
      if_pos hkey]
  case below =>
    intro l above before after b a hlb hla ih
    rw [putBackAt_below hlb hla, List.cons_append, Json.follow?_obj, Json.follow?_obj,
      Dict.get?_insert_self, hlb]
    exact ih

theorem touches_nil : (Guard.mk above start).Touches [] := Or.inl List.nil_prefix

theorem touches_of_covers (hkey : covers start key = true) :
    (Guard.mk [] start).Touches (key :: keys) :=
  Or.inr ⟨key, hkey, List.cons_prefix_cons.mpr ⟨rfl, List.nil_prefix⟩⟩

theorem touches_cons (h : (Guard.mk above start).Touches keys) :
    (Guard.mk (key :: above) start).Touches (key :: keys) := by
  rcases h with h | ⟨l, hl, h⟩
  · exact Or.inl (List.cons_prefix_cons.mpr ⟨rfl, h⟩)
  · exact Or.inr ⟨l, hl, List.cons_prefix_cons.mpr ⟨rfl, h⟩⟩

theorem follow?_putBackAt_of_not_touches {before after : Json} (hbefore : before.IsObjectAt above)
    (hafter : after.IsObjectAt above) (hkeys : ¬(Guard.mk above start).Touches keys) :
    (putBackAt start above before after).follow? keys = after.follow? keys := by
  refine Json.objects_induction
    (P := fun above before after => ∀ keys, ¬(Guard.mk above start).Touches keys →
      (putBackAt start above before after).follow? keys = after.follow? keys)
    ?here ?below hbefore hafter keys hkeys
  case here =>
    intro before after keys hkeys
    cases keys with
    | nil => exact absurd touches_nil hkeys
    | cons key keys =>
      have hkey : ¬covers start key = true := fun h => hkeys (touches_of_covers h)
      rw [putBackAt, Json.follow?_obj, Json.follow?_obj, get?_putBackMembers, if_neg hkey]
  case below =>
    intro key above before after b a hkb hka ih keys hkeys
    cases keys with
    | nil => exact absurd touches_nil hkeys
    | cons l keys =>
      rw [putBackAt_below hkb hka, Json.follow?_obj, Json.follow?_obj]
      by_cases hl : l = key
      · subst hl
        rw [Dict.get?_insert_self, hka]
        exact ih keys fun h => hkeys (touches_cons h)
      · rw [Dict.get?_insert_of_ne _ _ hl]

end Patch

end ClusterGate
