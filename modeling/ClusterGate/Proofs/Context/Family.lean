import ClusterGate.Context
import Mathlib.Data.List.Induction

/-!
# Families of contexts

Contexts are made, cloned, put below others, given deadlines and cancelled, in any order. Who heeds
whom is told by how they were made: clones heed each other, and a child heeds its parent. A context
turns out cancelled exactly if one that it heeds was. Main statement: `Family.isCancelled_iff`.
-/

namespace ClusterGate

/-! ### Lines of tokens -/

namespace Tokens

variable {ts : Tokens} {t u p : TokenId}

theorem lineage_of_parent (h : ts.parents[t]? = some (some p)) (hlt : p < t) :
    ts.lineage t = t :: ts.lineage p := by
  rw [lineage]
  simp only [h, if_pos hlt]

theorem mem_lineage_self (ts : Tokens) (t : TokenId) : t ∈ ts.lineage t := by
  rw [lineage]
  split
  next =>
    split
    next => exact List.mem_cons_self
    next => exact List.mem_singleton_self t
  next => exact List.mem_singleton_self t

theorem mem_lineage_cases (h : u ∈ ts.lineage t) :
    u = t ∨ ∃ p, ts.parents[t]? = some (some p) ∧ p < t ∧ u ∈ ts.lineage p := by
  rw [lineage] at h
  split at h
  next p hparent =>
    split at h
    next hlt =>
      rcases List.mem_cons.mp h with rfl | h
      · exact Or.inl rfl
      · exact Or.inr ⟨p, hparent, hlt, h⟩
    next => exact Or.inl (List.mem_singleton.mp h)
  next => exact Or.inl (List.mem_singleton.mp h)

theorem le_of_mem_lineage (h : u ∈ ts.lineage t) : u ≤ t := by
  induction t using Nat.strongRecOn with
  | ind t ih =>
    rcases mem_lineage_cases h with rfl | ⟨p, -, hlt, hp⟩
    · exact Nat.le_refl _
    · exact Nat.le_trans (ih p hlt hp) (Nat.le_of_lt hlt)

theorem isCancelled_iff : ts.isCancelled t = true ↔ ∃ u ∈ ts.lineage t, u ∈ ts.cancelled := by
  simp only [isCancelled, List.any_eq_true, List.contains_iff_mem]

/-- A line depends on the parents of those that are not younger. -/
theorem lineage_congr {ts' : Tokens} (h : ∀ u ≤ t, ts'.parents[u]? = ts.parents[u]?) :
    ts'.lineage t = ts.lineage t := by
  induction t using Nat.strongRecOn with
  | ind t ih =>
    unfold lineage
    rw [h t (Nat.le_refl t)]
    cases ts.parents[t]? with
    | none => rfl
    | some parent =>
      cases parent with
      | none => rfl
      | some p =>
        by_cases hlt : p < t
        · simp only [if_pos hlt]
          rw [ih p hlt fun u hu => h u (Nat.le_trans hu (Nat.le_of_lt hlt))]
        · simp only [if_neg hlt]

theorem lineage_fresh (parent : Option TokenId) (h : t < ts.parents.length) :
    (ts.fresh parent).2.lineage t = ts.lineage t :=
  lineage_congr fun _ hu => List.getElem?_append_left (Nat.lt_of_le_of_lt hu h)

theorem isCancelled_fresh (parent : Option TokenId) (h : t < ts.parents.length) :
    (ts.fresh parent).2.isCancelled t = ts.isCancelled t := by
  rw [isCancelled, isCancelled, lineage_fresh parent h]
  rfl

theorem lineage_cancel (u : TokenId) : (ts.cancel u).lineage t = ts.lineage t :=
  lineage_congr fun _ _ => rfl

theorem isCancelled_cancel (u : TokenId) (h : ts.isCancelled t = true) :
    (ts.cancel u).isCancelled t = true := by
  obtain ⟨v, hv, hcancelled⟩ := isCancelled_iff.mp h
  refine isCancelled_iff.mpr ⟨v, ?_, List.mem_cons_of_mem _ hcancelled⟩
  rw [lineage_cancel]
  exact hv

end Tokens

/-! ### Families -/

/-- What is done with contexts. The number of a context is its place in the order of their making. -/
inductive Deed where
  | fresh
  | clone (i : Nat)
  | child (i : Nat)
  | deadlineAt (i : Nat) (time : Nat)
  | cancel (i : Nat)

inductive Origin where
  | root
  | cloneOf (i : Nat)
  | childOf (i : Nat)

structure Family where
  tokens : Tokens := {}
  members : List Context := []

namespace Family

/-- A deed; one that asks for a context that is not there does nothing. -/
def step (f : Family) : Deed → Family
  | .fresh =>
    let (t, tokens) := f.tokens.fresh none
    ⟨tokens, f.members ++ [{ token := t }]⟩
  | .clone i => match f.members[i]? with
    | some c => { f with members := f.members ++ [c] }
    | none => f
  | .child i => match f.members[i]? with
    | some c =>
      let (c, tokens) := c.child f.tokens
      ⟨tokens, f.members ++ [c]⟩
    | none => f
  | .deadlineAt i time =>
    { f with members := f.members.modify i fun c => { c with deadline := some time } }
  | .cancel i => match f.members[i]? with
    | some c => { f with tokens := f.tokens.cancel c.token }
    | none => f

/-- What several deeds make of nothing. -/
def after (deeds : List Deed) : Family := deeds.foldl step {}

/-- What a deed adds to how the contexts were made. -/
def noted (os : List Origin) : Deed → List Origin
  | .fresh => os ++ [.root]
  | .clone i => if i < os.length then os ++ [.cloneOf i] else os
  | .child i => if i < os.length then os ++ [.childOf i] else os
  | .deadlineAt _ _ | .cancel _ => os

/-- How each context was made, by the deeds alone. -/
def origins (deeds : List Deed) : List Origin := deeds.foldl noted []

/-- The context was there at some time and was cancelled. -/
def Struck (deeds : List Deed) (j : Nat) : Prop :=
  ∃ earlier later, deeds = earlier ++ .cancel j :: later ∧ j < (origins earlier).length

/-- Who is to end with whom: clones with each other, and children with their parents. -/
inductive Heeds (os : List Origin) : Nat → Nat → Prop where
  | self (i : Nat) : Heeds os i i
  | original {i k j : Nat} (made : os[i]? = some (.cloneOf k)) (rest : Heeds os k j) : Heeds os i j
  | clone {i k j : Nat} (made : os[k]? = some (.cloneOf i)) (rest : Heeds os k j) : Heeds os i j
  | parent {i k j : Nat} (made : os[i]? = some (.childOf k)) (rest : Heeds os k j) : Heeds os i j

namespace Heeds

variable {os : List Origin} {i j k : Nat}

theorem trans (h : Heeds os i j) (h' : Heeds os j k) : Heeds os i k := by
  induction h with
  | self => exact h'
  | original made _ ih => exact .original made (ih h')
  | clone made _ ih => exact .clone made (ih h')
  | parent made _ ih => exact .parent made (ih h')

theorem append (h : Heeds os i j) (more : List Origin) : Heeds (os ++ more) i j := by
  have hkept : ∀ {k : Nat} {o : Origin}, os[k]? = some o → (os ++ more)[k]? = some o := by
    intro k o hk
    rw [List.getElem?_append_left (List.getElem?_eq_some_iff.mp hk).1]
    exact hk
  induction h with
  | self => exact .self _
  | original made _ ih => exact .original (hkept made) ih
  | clone made _ ih => exact .clone (hkept made) ih
  | parent made _ ih => exact .parent (hkept made) ih

end Heeds

def held (f : Family) : List TokenId := f.members.map Context.token

variable {deeds : List Deed} {d : Deed} {i j k l : Nat} {t u p : TokenId} {c : Context}
  {held : List TokenId} {parents : List (Option TokenId)} {os : List Origin} {o : Origin}

theorem after_concat (deeds : List Deed) (d : Deed) :
    after (deeds ++ [d]) = (after deeds).step d := by
  rw [after, List.foldl_append]
  rfl

theorem origins_concat (deeds : List Deed) (d : Deed) :
    origins (deeds ++ [d]) = noted (origins deeds) d := by
  rw [origins, List.foldl_append]
  rfl

theorem noted_extends (os : List Origin) (d : Deed) : ∃ more, noted os d = os ++ more := by
  cases d with
  | fresh => exact ⟨_, rfl⟩
  | clone i | child i =>
    rw [noted]
    split
    · exact ⟨_, rfl⟩
    · exact ⟨[], (List.append_nil _).symm⟩
  | deadlineAt | cancel => exact ⟨[], (List.append_nil _).symm⟩

theorem origins_extends (deeds more : List Deed) :
    ∃ later, origins (deeds ++ more) = origins deeds ++ later := by
  induction more using List.reverseRecOn with
  | nil => exact ⟨[], by simp⟩
  | append_singleton more d ih =>
    obtain ⟨later, hlater⟩ := ih
    obtain ⟨last, hlast⟩ := noted_extends (origins (deeds ++ more)) d
    refine ⟨later ++ last, ?_⟩
    rw [← List.append_assoc, origins_concat, hlast, hlater, List.append_assoc]

theorem struck_concat :
    Struck (deeds ++ [d]) j ↔ Struck deeds j ∨ d = .cancel j ∧ j < (origins deeds).length := by
  constructor
  · rintro ⟨earlier, later, heq, hj⟩
    rcases List.eq_nil_or_concat later with rfl | ⟨front, last, rfl⟩
    · obtain ⟨rfl, hd⟩ := List.append_inj' heq rfl
      exact Or.inr ⟨(List.singleton_inj.mp hd), hj⟩
    · rw [List.concat_eq_append, ← List.cons_append, ← List.append_assoc] at heq
      obtain ⟨rfl, -⟩ := List.append_inj' heq rfl
      exact Or.inl ⟨earlier, front, rfl, hj⟩
  · rintro (⟨earlier, later, rfl, hj⟩ | ⟨rfl, hj⟩)
    · exact ⟨earlier, later ++ [d], by simp, hj⟩
    · exact ⟨deeds, [], rfl, hj⟩

theorem Struck.lt_length (h : Struck deeds j) : j < (origins deeds).length := by
  obtain ⟨earlier, later, rfl, hj⟩ := h
  obtain ⟨more, hmore⟩ := origins_extends earlier (.cancel j :: later)
  rw [hmore, List.length_append]
  exact Nat.lt_add_right _ hj

/-! ### Tokens tell who heeds whom -/

theorem getElem?_concat_iff {β : Type} {xs : List β} {x y : β} :
    (xs ++ [x])[i]? = some y ↔ xs[i]? = some y ∨ i = xs.length ∧ x = y := by
  rw [List.getElem?_append]
  split
  next hlt =>
    have hne : i ≠ xs.length := Nat.ne_of_lt hlt
    simp [hne]
  next hge =>
    have hnone : xs[i]? = none := List.getElem?_eq_none (Nat.le_of_not_lt hge)
    rw [hnone, List.getElem?_singleton]
    by_cases heq : i = xs.length
    · simp [heq]
    · have hne : ¬i - xs.length = 0 := by omega
      simp [heq, hne]

theorem getElem?_append_of_some {β : Type} {xs : List β} {y : β} (h : xs[i]? = some y)
    (more : List β) : (xs ++ more)[i]? = some y := by
  rw [List.getElem?_append_left (List.getElem?_eq_some_iff.mp h).1]
  exact h

/-- Clones hold one token, and the token of a child lies below that of its parent. -/
structure Placed (held : List TokenId) (parents : List (Option TokenId)) (os : List Origin) :
    Prop where
  length : held.length = os.length
  bound : ∀ {i t : Nat}, held[i]? = some t → t < parents.length
  clone : ∀ {k i : Nat}, os[k]? = some (.cloneOf i) → ∃ t, held[k]? = some t ∧ held[i]? = some t
  child : ∀ {k i : Nat}, os[k]? = some (.childOf i) → ∃ t p, held[k]? = some t ∧
    held[i]? = some p ∧ parents[t]? = some (some p) ∧ p < t

/-- Nobody else is as close to one another. -/
structure Reflects (held : List TokenId) (parents : List (Option TokenId)) (os : List Origin) : Prop
    extends Placed held parents os where
  same : ∀ {i j t : Nat}, held[i]? = some t → held[j]? = some t → Heeds os i j
  parent : ∀ {i t p : Nat}, held[i]? = some t → parents[t]? = some (some p) →
    ∃ k, held[k]? = some p ∧ Heeds os i k
  alone : ∀ {k l i j t : Nat}, os[k]? = some (.childOf i) → os[l]? = some (.childOf j) →
    held[k]? = some t → held[l]? = some t → k = l

/-- What the parent of a new token tells of how its context is made. -/
inductive Owns (held : List TokenId) : Option TokenId → Origin → Prop where
  | root : Owns held none .root
  | child {i : Nat} {p : TokenId} (above : held[i]? = some p) : Owns held (some p) (.childOf i)

theorem Placed.token_last (h : Placed held parents os) (t : TokenId) :
    (held ++ [t])[os.length]? = some t := by
  rw [← h.length]
  exact List.getElem?_concat_length

theorem Placed.origin_last (h : Placed held parents os) (o : Origin) :
    (os ++ [o])[held.length]? = some o := by
  rw [h.length]
  exact List.getElem?_concat_length

theorem Placed.held_of_append {more : List TokenId} (h : Placed held parents os)
    (hk : os[k]? = some o) (ht : (held ++ more)[k]? = some t) : held[k]? = some t := by
  have hlt : k < held.length := by
    rw [h.length]
    exact (List.getElem?_eq_some_iff.mp hk).1
  rw [List.getElem?_append_left hlt] at ht
  exact ht

theorem Placed.origin_of_append {more : List Origin} (h : Placed held parents os)
    (ht : held[k]? = some t) (hk : (os ++ more)[k]? = some o) : os[k]? = some o := by
  have hlt : k < os.length := by
    rw [← h.length]
    exact (List.getElem?_eq_some_iff.mp ht).1
  rw [List.getElem?_append_left hlt] at hk
  exact hk

/-! #### A context with a token of its own -/

theorem Placed.bound_or_last (h : Placed held parents os)
    (ht : (held ++ [parents.length])[i]? = some t) :
    held[i]? = some t ∧ t < parents.length ∨ i = held.length ∧ t = parents.length := by
  rcases getElem?_concat_iff.mp ht with hold | ⟨hlast, rfl⟩
  · exact Or.inl ⟨hold, h.bound hold⟩
  · exact Or.inr ⟨hlast, rfl⟩

theorem Placed.make {parent : Option TokenId} (h : Placed held parents os)
    (hmade : Owns held parent o) :
    Placed (held ++ [parents.length]) (parents ++ [parent]) (os ++ [o]) where
  length := by simp [h.length]
  bound := by
    intro i t ht
    rw [List.length_append, List.length_singleton]
    rcases h.bound_or_last ht with ⟨-, hlt⟩ | ⟨-, rfl⟩
    · exact Nat.lt_succ_of_lt hlt
    · exact Nat.lt_succ_self _
  clone := by
    intro k i hk
    rcases getElem?_concat_iff.mp hk with hk | ⟨-, rfl⟩
    · obtain ⟨t, hkt, hit⟩ := h.clone hk
      exact ⟨t, getElem?_append_of_some hkt _, getElem?_append_of_some hit _⟩
    · cases hmade
  child := by
    intro k i hk
    rcases getElem?_concat_iff.mp hk with hk | ⟨rfl, rfl⟩
    · obtain ⟨t, p, hkt, hip, hparent, hlt⟩ := h.child hk
      exact ⟨t, p, getElem?_append_of_some hkt _, getElem?_append_of_some hip _,
        getElem?_append_of_some hparent _, hlt⟩
    · cases hmade with
      | child above =>
        exact ⟨_, _, h.token_last _, getElem?_append_of_some above _, List.getElem?_concat_length,
          h.bound above⟩

theorem Reflects.make {parent : Option TokenId} (h : Reflects held parents os)
    (hmade : Owns held parent o) :
    Reflects (held ++ [parents.length]) (parents ++ [parent]) (os ++ [o]) where
  toPlaced := h.toPlaced.make hmade
  same := by
    intro i j t hi hj
    rcases h.bound_or_last hi with ⟨hi, hilt⟩ | ⟨rfl, rfl⟩
    · rcases h.bound_or_last hj with ⟨hj, -⟩ | ⟨-, rfl⟩
      · exact (h.same hi hj).append _
      · exact absurd hilt (Nat.lt_irrefl _)
    · rcases h.bound_or_last hj with ⟨-, hjlt⟩ | ⟨rfl, -⟩
      · exact absurd hjlt (Nat.lt_irrefl _)
      · exact .self _
  parent := by
    intro i t p hi hparent
    rcases h.bound_or_last hi with ⟨hi, hlt⟩ | ⟨rfl, rfl⟩
    · rw [List.getElem?_append_left hlt] at hparent
      obtain ⟨k, hk, hheeds⟩ := h.parent hi hparent
      exact ⟨k, getElem?_append_of_some hk _, hheeds.append _⟩
    · rw [List.getElem?_concat_length] at hparent
      cases hparent
      cases hmade with
      | child above =>
        exact ⟨_, getElem?_append_of_some above _, .parent (h.origin_last _) (.self _)⟩
  alone := by
    intro k l i j t hk hl hkt hlt
    rcases h.bound_or_last hkt with ⟨hkt, hbound⟩ | ⟨rfl, rfl⟩
    · rcases h.bound_or_last hlt with ⟨hlt, -⟩ | ⟨-, rfl⟩
      · exact h.alone (h.origin_of_append hkt hk) (h.origin_of_append hlt hl) hkt hlt
      · exact absurd hbound (Nat.lt_irrefl _)
    · rcases h.bound_or_last hlt with ⟨-, hbound⟩ | ⟨rfl, -⟩
      · exact absurd hbound (Nat.lt_irrefl _)
      · rfl

/-! #### A context that shares its token with another one -/

theorem childOf_of_concat (hk : (os ++ [Origin.cloneOf i])[k]? = some (.childOf j)) :
    os[k]? = some (.childOf j) := by
  rcases getElem?_concat_iff.mp hk with hk | ⟨-, hne⟩
  · exact hk
  · cases hne

theorem Placed.share (h : Placed held parents os) (hi : held[i]? = some t) :
    Placed (held ++ [t]) parents (os ++ [.cloneOf i]) where
  length := by simp [h.length]
  bound := by
    intro j u hj
    rcases getElem?_concat_iff.mp hj with hj | ⟨-, rfl⟩
    · exact h.bound hj
    · exact h.bound hi
  clone := by
    intro k j hk
    rcases getElem?_concat_iff.mp hk with hk | ⟨rfl, heq⟩
    · obtain ⟨u, hku, hju⟩ := h.clone hk
      exact ⟨u, getElem?_append_of_some hku _, getElem?_append_of_some hju _⟩
    · cases heq
      exact ⟨t, h.token_last t, getElem?_append_of_some hi _⟩
  child := by
    intro k j hk
    obtain ⟨u, p, hku, hjp, hparent, hlt⟩ := h.child (childOf_of_concat hk)
    exact ⟨u, p, getElem?_append_of_some hku _, getElem?_append_of_some hjp _, hparent, hlt⟩

theorem Reflects.share (h : Reflects held parents os) (hi : held[i]? = some t) :
    Reflects (held ++ [t]) parents (os ++ [.cloneOf i]) where
  toPlaced := h.toPlaced.share hi
  same := by
    intro a b u ha hb
    rcases getElem?_concat_iff.mp ha with ha | ⟨rfl, rfl⟩
    · rcases getElem?_concat_iff.mp hb with hb | ⟨rfl, rfl⟩
      · exact (h.same ha hb).append _
      · exact ((h.same ha hi).append _).trans (.clone (h.origin_last _) (.self _))
    · rcases getElem?_concat_iff.mp hb with hb | ⟨rfl, -⟩
      · exact .original (h.origin_last _) ((h.same hi hb).append _)
      · exact .self _
  parent := by
    intro a u p ha hparent
    rcases getElem?_concat_iff.mp ha with ha | ⟨rfl, rfl⟩
    · obtain ⟨k, hk, hheeds⟩ := h.parent ha hparent
      exact ⟨k, getElem?_append_of_some hk _, hheeds.append _⟩
    · obtain ⟨k, hk, hheeds⟩ := h.parent hi hparent
      exact ⟨k, getElem?_append_of_some hk _, .original (h.origin_last _) (hheeds.append _)⟩
  alone := by
    intro k l a b u hk hl hku hlu
    have hk := childOf_of_concat hk
    have hl := childOf_of_concat hl
    exact h.alone hk hl (h.held_of_append hk hku) (h.held_of_append hl hlu)

section Lines

variable {ts : Tokens}

theorem Reflects.mem_lineage (h : Reflects held ts.parents os) (hheeds : Heeds os i j)
    (hi : held[i]? = some t) (hj : held[j]? = some u) : u ∈ ts.lineage t := by
  -- a step to a clone keeps the token, and a step to a parent goes up its line
  induction hheeds generalizing t with
  | self =>
    rw [hi] at hj
    cases hj
    exact ts.mem_lineage_self _
  | original made _ ih =>
    obtain ⟨t', hi', hk⟩ := h.clone made
    rw [hi] at hi'
    cases hi'
    exact ih hk hj
  | clone made _ ih =>
    obtain ⟨t', hk, hi'⟩ := h.clone made
    rw [hi] at hi'
    cases hi'
    exact ih hk hj
  | parent made _ ih =>
    obtain ⟨t', p, hi', hk, hparent, hlt⟩ := h.child made
    rw [hi] at hi'
    cases hi'
    rw [Tokens.lineage_of_parent hparent hlt]
    exact List.mem_cons_of_mem _ (ih hk hj)

theorem Reflects.heeds (h : Reflects held ts.parents os) (hi : held[i]? = some t)
    (hj : held[j]? = some u) (hmem : u ∈ ts.lineage t) : Heeds os i j := by
  induction t using Nat.strongRecOn generalizing i with
  | ind t ih =>
    rcases Tokens.mem_lineage_cases hmem with rfl | ⟨p, hparent, hlt, hp⟩
    · exact h.same hi hj
    · obtain ⟨k, hk, hheeds⟩ := h.parent hi hparent
      exact hheeds.trans (ih p hlt hk hp)

end Lines

/-! ### What a deed does to the tokens -/

section Deeds

variable {f : Family}

theorem held_of_member (h : f.members[i]? = some c) : f.held[i]? = some c.token := by
  rw [Family.held, List.getElem?_map, h]
  rfl

theorem held_fresh (f : Family) : (f.step .fresh).held = f.held ++ [f.tokens.parents.length] := by
  simp [step, Family.held, Tokens.fresh]

theorem held_clone (hc : f.members[i]? = some c) :
    (f.step (.clone i)).held = f.held ++ [c.token] := by
  simp [step, hc, Family.held]

theorem tokens_clone (f : Family) (i : Nat) : (f.step (.clone i)).tokens = f.tokens := by
  rw [step]
  split <;> rfl

theorem held_child (hc : f.members[i]? = some c) :
    (f.step (.child i)).held = f.held ++ [f.tokens.parents.length] := by
  simp [step, hc, Family.held, Context.child, Tokens.fresh]

theorem tokens_child (hc : f.members[i]? = some c) :
    (f.step (.child i)).tokens = (f.tokens.fresh (some c.token)).2 := by
  simp [step, hc, Context.child]

/-- Only deadlines change, and no token holds one. -/
theorem held_deadlineAt (f : Family) (i time : Nat) :
    (f.step (.deadlineAt i time)).held = f.held := by
  rw [step, Family.held, Family.held]
  refine List.ext_getElem? fun k => ?_
  rw [List.getElem?_map, List.getElem?_map, List.getElem?_modify]
  split
  · cases f.members[k]? <;> rfl
  · simp

theorem held_cancel (f : Family) (i : Nat) : (f.step (.cancel i)).held = f.held := by
  rw [step]
  split <;> rfl

theorem parents_cancel (f : Family) (i : Nat) :
    (f.step (.cancel i)).tokens.parents = f.tokens.parents := by
  rw [step]
  split <;> rfl

theorem clone_of_missing (h : f.members[i]? = none) : f.step (.clone i) = f := by
  simp only [step, h]

theorem child_of_missing (h : f.members[i]? = none) : f.step (.child i) = f := by
  simp only [step, h]

theorem held_grows (f : Family) (d : Deed) : ∃ more, (f.step d).held = f.held ++ more := by
  cases d with
  | fresh => exact ⟨_, held_fresh f⟩
  | clone i =>
    cases hc : f.members[i]? with
    | none => exact ⟨[], by rw [clone_of_missing hc, List.append_nil]⟩
    | some c => exact ⟨_, held_clone hc⟩
  | child i =>
    cases hc : f.members[i]? with
    | none => exact ⟨[], by rw [child_of_missing hc, List.append_nil]⟩
    | some c => exact ⟨_, held_child hc⟩
  | deadlineAt i time => exact ⟨[], by rw [held_deadlineAt, List.append_nil]⟩
  | cancel i => exact ⟨[], by rw [held_cancel, List.append_nil]⟩

theorem held_step (hi : f.held[i]? = some t) (d : Deed) : (f.step d).held[i]? = some t := by
  obtain ⟨more, hmore⟩ := held_grows f d
  rw [hmore]
  exact getElem?_append_of_some hi more

/-- Only a cancellation cancels, and it cancels the token of its context. -/
theorem mem_cancelled_step :
    t ∈ (f.step d).tokens.cancelled ↔
      t ∈ f.tokens.cancelled ∨ ∃ i, d = .cancel i ∧ f.held[i]? = some t := by
  cases d with
  | fresh | deadlineAt => simp [step, Tokens.fresh]
  | clone i => simp [tokens_clone]
  | child i => cases hc : f.members[i]? <;> simp [step, hc, Context.child, Tokens.fresh]
  | cancel i =>
    cases hc : f.members[i]? <;>
      simp [step, hc, Tokens.cancel, Family.held, or_comm, eq_comm]

end Deeds

/-! ### Every family -/

/-- The tokens of a family tell who heeds whom and who was cancelled. -/
structure Sound (deeds : List Deed) : Prop where
  reflects : Reflects (after deeds).held (after deeds).tokens.parents (origins deeds)
  cancelled : ∀ t, t ∈ (after deeds).tokens.cancelled ↔
    ∃ j, Struck deeds j ∧ (after deeds).held[j]? = some t

theorem Sound.lt_length (h : Sound deeds) (hi : (after deeds).held[i]? = some t) :
    i < (origins deeds).length := by
  rw [← h.reflects.length]
  exact (List.getElem?_eq_some_iff.mp hi).1

theorem Sound.lt_of_member (h : Sound deeds) (hc : (after deeds).members[i]? = some c) :
    i < (origins deeds).length :=
  h.lt_length (held_of_member hc)

theorem Sound.member (h : Sound deeds) (hi : i < (origins deeds).length) :
    ∃ c, (after deeds).members[i]? = some c := by
  have hlt : i < (after deeds).members.length := by
    have hlength := h.reflects.length
    rw [Family.held, List.length_map] at hlength
    rw [hlength]
    exact hi
  exact ⟨_, List.getElem?_eq_getElem hlt⟩

theorem Sound.present_or_missing (h : Sound deeds) (i : Nat) :
    (∃ c, (after deeds).members[i]? = some c ∧ i < (origins deeds).length) ∨
      (after deeds).members[i]? = none ∧ ¬i < (origins deeds).length := by
  cases hc : (after deeds).members[i]? with
  | some c => exact Or.inl ⟨c, rfl, h.lt_of_member hc⟩
  | none =>
    refine Or.inr ⟨rfl, fun hlt => ?_⟩
    obtain ⟨c, hsome⟩ := h.member hlt
    rw [hc] at hsome
    cases hsome

theorem Sound.reflects_step (h : Sound deeds) (d : Deed) :
    Reflects ((after deeds).step d).held ((after deeds).step d).tokens.parents
      (noted (origins deeds) d) := by
  cases d with
  | fresh =>
    rw [held_fresh]
    exact h.reflects.make .root
  | clone i =>
    rcases h.present_or_missing i with ⟨c, hc, hi⟩ | ⟨hnone, hi⟩
    · rw [held_clone hc, tokens_clone, noted, if_pos hi]
      exact h.reflects.share (held_of_member hc)
    · rw [clone_of_missing hnone, noted, if_neg hi]
      exact h.reflects
  | child i =>
    rcases h.present_or_missing i with ⟨c, hc, hi⟩ | ⟨hnone, hi⟩
    · rw [held_child hc, tokens_child hc, noted, if_pos hi]
      exact h.reflects.make (.child (held_of_member hc))
    · rw [child_of_missing hnone, noted, if_neg hi]
      exact h.reflects
  | deadlineAt i time =>
    rw [held_deadlineAt]
    exact h.reflects
  | cancel i =>
    rw [held_cancel, parents_cancel]
    exact h.reflects

theorem Sound.cancelled_step (h : Sound deeds) (d : Deed) (t : TokenId) :
    t ∈ ((after deeds).step d).tokens.cancelled ↔
      ∃ j, Struck (deeds ++ [d]) j ∧ ((after deeds).step d).held[j]? = some t := by
  rw [mem_cancelled_step, h.cancelled]
  constructor
  · rintro (⟨j, hstruck, hj⟩ | ⟨j, rfl, hj⟩)
    · exact ⟨j, struck_concat.mpr (Or.inl hstruck), held_step hj d⟩
    · exact ⟨j, struck_concat.mpr (Or.inr ⟨rfl, h.lt_length hj⟩), held_step hj _⟩
  · rintro ⟨j, hstruck, hj⟩
    -- whoever was struck was there before the deed
    have hold : ∀ {j : Nat}, j < (origins deeds).length →
        ((after deeds).step d).held[j]? = some t → (after deeds).held[j]? = some t := by
      intro j hlt hj
      obtain ⟨more, hmore⟩ := held_grows (after deeds) d
      rw [hmore] at hj
      exact h.reflects.held_of_append (List.getElem?_eq_getElem hlt) hj
    rcases struck_concat.mp hstruck with hstruck | ⟨rfl, hlt⟩
    · exact Or.inl ⟨j, hstruck, hold hstruck.lt_length hj⟩
    · exact Or.inr ⟨j, rfl, hold hlt hj⟩

theorem Sound.concat (h : Sound deeds) (d : Deed) : Sound (deeds ++ [d]) := by
  refine ⟨?_, fun t => ?_⟩
  · rw [after_concat, origins_concat]
    exact h.reflects_step d
  · rw [after_concat]
    exact h.cancelled_step d t

theorem sound_after (deeds : List Deed) : Sound deeds := by
  induction deeds using List.reverseRecOn with
  | nil =>
    refine ⟨⟨⟨rfl, nofun, nofun, nofun⟩, nofun, nofun, nofun⟩, fun t => ?_⟩
    refine iff_of_false (List.not_mem_nil) ?_
    rintro ⟨j, hstruck, -⟩
    exact absurd hstruck.lt_length (Nat.not_lt_zero j)
  | append_singleton deeds d ih => exact ih.concat d

/-- A context is cancelled exactly if one that it heeds was. -/
theorem isCancelled_iff (hi : (after deeds).held[i]? = some t) :
    (after deeds).tokens.isCancelled t = true ↔
      ∃ j, Struck deeds j ∧ Heeds (origins deeds) i j := by
  have hsound := sound_after deeds
  rw [Tokens.isCancelled_iff]
  constructor
  · rintro ⟨u, hu, hcancelled⟩
    obtain ⟨j, hstruck, hj⟩ := (hsound.cancelled u).mp hcancelled
    exact ⟨j, hstruck, hsound.reflects.heeds hi hj hu⟩
  · rintro ⟨j, hstruck, hheeds⟩
    obtain ⟨d, hd⟩ := hsound.member hstruck.lt_length
    have hj := held_of_member hd
    exact ⟨d.token, hsound.reflects.mem_lineage hheeds hi hj,
      (hsound.cancelled d.token).mpr ⟨j, hstruck, hj⟩⟩

/-! ### Downwards only -/

/-- A context does not heed its children, nor any that heeds one of them. -/
theorem not_heeds_descendant (hk : (origins deeds)[k]? = some (.childOf i))
    (hbelow : Heeds (origins deeds) j k) : ¬Heeds (origins deeds) i j := by
  intro hheeds
  obtain ⟨t, p, hkt, hip, -, hlt⟩ := (sound_after deeds).reflects.child hk
  have hmem := (sound_after deeds).reflects.mem_lineage (hheeds.trans hbelow) hip hkt
  exact absurd (Tokens.le_of_mem_lineage hmem) (Nat.not_le_of_lt hlt)

/-- A child does not heed another child of its parent, nor of a clone of the parent, nor of anybody
below it, nor whoever heeds that child. -/
theorem not_heeds_sibling {a b : Nat} (hk : (origins deeds)[k]? = some (.childOf a))
    (hl : (origins deeds)[l]? = some (.childOf b)) (hba : Heeds (origins deeds) b a) (hne : k ≠ l)
    (hbelow : Heeds (origins deeds) j l) : ¬Heeds (origins deeds) k j := by
  intro hheeds
  have hsound := (sound_after deeds).reflects
  obtain ⟨t, p, hkt, hap, hparent, hlt⟩ := hsound.child hk
  obtain ⟨u, q, hlu, hbq, -, hlt'⟩ := hsound.child hl
  -- the token of the other child is younger than both parents, so it is in no line of theirs
  have hpq : p ≤ q := Tokens.le_of_mem_lineage (hsound.mem_lineage hba hbq hap)
  rcases Tokens.mem_lineage_cases (hsound.mem_lineage (hheeds.trans hbelow) hkt hlu) with
    heq | ⟨p', hp', -, hmem⟩
  · rw [heq] at hlu
    exact hne (hsound.alone hk hl hkt hlu)
  · rw [hparent] at hp'
    cases hp'
    have hup : u ≤ p := Tokens.le_of_mem_lineage hmem
    exact Nat.lt_irrefl q (Nat.lt_of_lt_of_le hlt' (Nat.le_trans hup hpq))

/-! ### What a deed leaves as it was -/

variable {f : Family}

theorem member_step (hc : f.members[i]? = some c) (hd : ∀ time, d ≠ .deadlineAt i time) :
    (f.step d).members[i]? = some c := by
  cases d with
  | fresh => exact getElem?_append_of_some hc _
  | clone j | child j =>
    rw [step]
    split
    next => exact getElem?_append_of_some hc _
    next => exact hc
  | deadlineAt j time =>
    have hne : j ≠ i := by
      rintro rfl
      exact hd time rfl
    simp only [step, List.getElem?_modify, if_neg hne, hc]
    rfl
  | cancel j =>
    rw [step]
    split
    next => exact hc
    next => exact hc

theorem member_deadlineAt (hc : f.members[i]? = some c) (time : Nat) :
    (f.step (.deadlineAt i time)).members[i]? = some { c with deadline := some time } := by
  simp only [step, List.getElem?_modify, if_true, hc]
  rfl

theorem isCancelled_step (hbound : t < f.tokens.parents.length)
    (h : f.tokens.isCancelled t = true) (d : Deed) :
    t < (f.step d).tokens.parents.length ∧ (f.step d).tokens.isCancelled t = true := by
  have hfresh : ∀ parent, t < (f.tokens.fresh parent).2.parents.length ∧
      (f.tokens.fresh parent).2.isCancelled t = true := by
    intro parent
    rw [Tokens.isCancelled_fresh parent hbound]
    refine ⟨?_, h⟩
    rw [Tokens.fresh, List.length_append]
    exact Nat.lt_add_right _ hbound
  cases d with
  | fresh => exact hfresh none
  | clone i =>
    rw [step]
    split
    next => exact ⟨hbound, h⟩
    next => exact ⟨hbound, h⟩
  | child i =>
    rw [step]
    split
    next c hc => exact hfresh (some c.token)
    next => exact ⟨hbound, h⟩
  | deadlineAt => exact ⟨hbound, h⟩
  | cancel i =>
    rw [step]
    split
    next c hc => exact ⟨hbound, Tokens.isCancelled_cancel c.token h⟩
    next => exact ⟨hbound, h⟩

end Family

end ClusterGate
