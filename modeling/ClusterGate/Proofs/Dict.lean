import ClusterGate.Dict
import Mathlib.Data.List.Induction
import Mathlib.Data.List.Sort

/-!
# Laws of dictionaries

In a sorted dictionary the operations act at one place: what stands before and behind the key stays.
Two sorted dictionaries with the same lookups are equal.
-/

namespace ClusterGate

namespace Dict

variable {α : Type} {key : String} {value other : α} {front rest d : Dict α}

theorem sorted_iff_keys : Sorted d ↔ d.keys.Pairwise (· < ·) := by
  rw [Sorted, keys, List.pairwise_map]

theorem sorted_cons {entry : String × α} :
    Sorted (entry :: d) ↔ (∀ e ∈ d, entry.1 < e.1) ∧ Sorted d := List.pairwise_cons

/-- Order does not look at values. -/
theorem Sorted.replace (h : Sorted (front ++ (key, value) :: rest)) :
    Sorted (front ++ (key, other) :: rest) := by
  rw [sorted_iff_keys] at h ⊢
  simpa [keys] using h

theorem Sorted.drop (h : Sorted (front ++ (key, value) :: rest)) : Sorted (front ++ rest) :=
  h.sublist (List.Sublist.append_left (List.sublist_cons_self _ _) _)

theorem Sorted.front_lt (h : Sorted (front ++ (key, value) :: rest)) :
    ∀ e ∈ front, e.1 < key :=
  fun e he => (List.pairwise_append.mp h).2.2 e he (key, value) List.mem_cons_self

theorem Sorted.lt_rest (h : Sorted (front ++ (key, value) :: rest)) :
    ∀ e ∈ rest, key < e.1 :=
  (List.pairwise_cons.mp (List.pairwise_append.mp h).2.1).1

/-- A key between the entries before and behind it keeps the order. -/
theorem Sorted.insert_between (h : Sorted (front ++ rest)) (hfront : ∀ e ∈ front, e.1 < key)
    (hrest : ∀ e ∈ rest, key < e.1) : Sorted (front ++ (key, value) :: rest) := by
  obtain ⟨hf, hr, hfr⟩ := List.pairwise_append.mp h
  refine List.pairwise_append.mpr ⟨hf, List.pairwise_cons.mpr ⟨hrest, hr⟩, ?_⟩
  intro e he e' he'
  rcases List.mem_cons.mp he' with rfl | he'
  · exact hfront e he
  · exact hfr e he e' he'

/-! ### One place -/

theorem get?_append_cons (h : Sorted (front ++ (key, value) :: rest)) :
    get? key (front ++ (key, value) :: rest) = some value := by
  have hlt := h.front_lt
  induction front with
  | nil => simp [get?]
  | cons e front ih =>
    obtain ⟨k, v⟩ := e
    have hne : k ≠ key := String.ne_of_lt (hlt (k, v) List.mem_cons_self)
    rw [List.cons_append, get?, if_neg hne]
    exact ih (sorted_cons.mp h).2 fun e he => hlt e (List.mem_cons_of_mem _ he)

theorem get?_eq_some_iff (h : Sorted d) : get? key d = some value ↔ (key, value) ∈ d := by
  constructor
  · intro hget
    induction d with
    | nil => cases hget
    | cons e rest ih =>
      obtain ⟨k, v⟩ := e
      rw [get?] at hget
      split at hget
      next hkey =>
        cases hget
        rw [hkey]
        exact List.mem_cons_self
      next => exact List.mem_cons_of_mem _ (ih (sorted_cons.mp h).2 hget)
  · intro hmem
    obtain ⟨front, rest, rfl⟩ := List.append_of_mem hmem
    exact get?_append_cons h

theorem insert_append (h : Sorted (front ++ (key, value) :: rest)) :
    insert key value (front ++ rest) = front ++ (key, value) :: rest := by
  induction front with
  | nil =>
    cases rest with
    | nil => rfl
    | cons e rest => exact if_pos (h.lt_rest e List.mem_cons_self)
  | cons e front ih =>
    obtain ⟨k, v⟩ := e
    have hlt : k < key := h.front_lt (k, v) List.mem_cons_self
    rw [List.cons_append, insert, if_neg (String.lt_asymm hlt), if_neg (String.ne_of_lt hlt).symm,
      ih (sorted_cons.mp h).2]
    rfl

theorem insert_append_cons (h : Sorted (front ++ (key, value) :: rest)) :
    insert key other (front ++ (key, value) :: rest) = front ++ (key, other) :: rest := by
  induction front with
  | nil => rw [List.nil_append, insert, if_neg (String.lt_irrefl key), if_pos rfl, List.nil_append]
  | cons e front ih =>
    obtain ⟨k, v⟩ := e
    have hlt : k < key := h.front_lt (k, v) List.mem_cons_self
    rw [List.cons_append, insert, if_neg (String.lt_asymm hlt), if_neg (String.ne_of_lt hlt).symm,
      ih (sorted_cons.mp h).2]
    rfl

theorem erase_of_ne (h : ∀ e ∈ d, e.1 ≠ key) : erase key d = d :=
  List.filter_eq_self.mpr fun e he => decide_eq_true (h e he)

theorem erase_append_cons (h : Sorted (front ++ (key, value) :: rest)) :
    erase key (front ++ (key, value) :: rest) = front ++ rest := by
  have hfront : erase key front = front :=
    erase_of_ne fun e he => String.ne_of_lt (h.front_lt e he)
  have hrest : erase key rest = rest :=
    erase_of_ne fun e he => (String.ne_of_lt (h.lt_rest e he)).symm
  unfold erase at hfront hrest ⊢
  rw [List.filter_append, List.filter_cons_of_neg (by simp), hfront, hrest]

/-! ### Collected entries -/

theorem mem_of_mem_insert {entry : String × α} (h : entry ∈ d.insert key value) :
    entry = (key, value) ∨ entry ∈ d := by
  induction d with
  | nil => exact Or.inl (List.mem_singleton.mp h)
  | cons e rest ih =>
    obtain ⟨k, v⟩ := e
    rw [insert] at h
    split at h
    · exact List.mem_cons.mp h
    · split at h
      · rcases List.mem_cons.mp h with h | h
        · exact Or.inl h
        · exact Or.inr (List.mem_cons_of_mem _ h)
      · rcases List.mem_cons.mp h with rfl | h
        · exact Or.inr List.mem_cons_self
        · exact (ih h).imp_right (List.mem_cons_of_mem _)

theorem sorted_insert (h : Sorted d) : Sorted (d.insert key value) := by
  induction d with
  | nil => exact List.pairwise_singleton _ _
  | cons e rest ih =>
    obtain ⟨k, v⟩ := e
    obtain ⟨hk, hrest⟩ := sorted_cons.mp h
    rw [insert]
    split
    · rename_i hlt
      refine sorted_cons.mpr ⟨?_, h⟩
      intro e he
      rcases List.mem_cons.mp he with rfl | he
      · exact hlt
      · exact String.lt_trans hlt (hk e he)
    · rename_i hlt
      split
      · rename_i heq
        subst heq
        exact sorted_cons.mpr ⟨hk, hrest⟩
      · rename_i hne
        refine sorted_cons.mpr ⟨?_, ih hrest⟩
        intro e he
        rcases mem_of_mem_insert he with rfl | he
        · exact (Std.lt_trichotomy key k).resolve_left hlt |>.resolve_left hne
        · exact hk e he

theorem sorted_foldl_insert (entries : List (String × α)) (h : Sorted d) :
    Sorted (entries.foldl (fun d entry => insert entry.1 entry.2 d) d) := by
  induction entries generalizing d with
  | nil => exact h
  | cons e rest ih => exact ih (sorted_insert h)

theorem sorted_ofList (entries : List (String × α)) : Sorted (ofList entries) :=
  sorted_foldl_insert entries List.Pairwise.nil

theorem get?_foldl_insert (entries : List (String × α)) (d : Dict α) :
    get? key (entries.foldl (fun d entry => insert entry.1 entry.2 d) d) =
      ((entries.reverse.find? fun entry => entry.1 == key).map Prod.snd).or (get? key d) := by
  induction entries generalizing d with
  | nil => rfl
  | cons e rest ih =>
    rw [List.foldl_cons, ih, List.reverse_cons, List.find?_append, Option.map_or, Option.or_assoc]
    congr 1
    by_cases hkey : e.1 = key
    · subst hkey
      simp
    · rw [get?_insert_of_ne _ _ (Ne.symm hkey)]
      simp [hkey]

/-- Of several entries under one key the last one counts. -/
theorem get?_ofList (entries : List (String × α)) :
    get? key (ofList entries) =
      (entries.reverse.find? fun entry => entry.1 == key).map Prod.snd := by
  rw [ofList, get?_foldl_insert]
  exact Option.or_none

theorem insert_ne_nil : insert key value d ≠ [] := by
  cases d with
  | nil => simp [insert]
  | cons e rest =>
    rw [insert]
    split
    · simp
    · split <;> simp

theorem mem_of_mem_foldl_insert {entries : List (String × α)} {entry : String × α}
    (h : entry ∈ entries.foldl (fun d entry => insert entry.1 entry.2 d) d) :
    entry ∈ d ∨ entry ∈ entries := by
  induction entries generalizing d with
  | nil => exact Or.inl h
  | cons e rest ih =>
    rcases ih h with h | h
    · rcases mem_of_mem_insert h with rfl | h
      · exact Or.inr List.mem_cons_self
      · exact Or.inl h
    · exact Or.inr (List.mem_cons_of_mem _ h)

theorem mem_of_mem_ofList {entries : List (String × α)} {entry : String × α}
    (h : entry ∈ ofList entries) : entry ∈ entries :=
  (mem_of_mem_foldl_insert h).resolve_left (List.not_mem_nil)

/-- Collecting the entries of a dictionary gives it back. -/
theorem ofList_of_sorted (h : Sorted d) : ofList d = d := by
  induction d using List.reverseRecOn with
  | nil => rfl
  | append_singleton d e ih =>
    have hfront : ofList d = d := ih (h.sublist (List.sublist_append_left _ _))
    rw [ofList, List.foldl_concat]
    change insert e.1 e.2 (ofList d) = _
    have hinsert := insert_append h
    rw [List.append_nil] at hinsert
    rw [hfront, hinsert]

/-! ### Lookups -/

theorem get?_eq_find? (key : String) (d : Dict α) :
    d.get? key = (d.find? fun entry => entry.1 == key).map Prod.snd := by
  induction d with
  | nil => rfl
  | cons entry rest ih =>
    obtain ⟨k, v⟩ := entry
    rw [get?]
    by_cases hkey : k = key
    · rw [if_pos hkey, List.find?_cons_of_pos (by simpa using hkey)]
      rfl
    · rw [if_neg hkey, List.find?_cons_of_neg (by simpa using hkey), ih]

theorem mem_keys_iff : key ∈ d.keys ↔ ∃ value, (key, value) ∈ d := by
  simp [keys]

theorem get?_eq_none_iff : get? key d = none ↔ key ∉ d.keys := by
  induction d with
  | nil => simp [get?, keys]
  | cons e rest ih =>
    obtain ⟨k, v⟩ := e
    rw [get?]
    by_cases hkey : k = key
    · simp [hkey, keys]
    · rw [if_neg hkey, ih]
      simp [keys, Ne.symm hkey]

theorem eq_of_get? {e : Dict α} (hd : Sorted d) (he : Sorted e)
    (h : ∀ key, get? key d = get? key e) : d = e := by
  have hantisymm : Std.Antisymm fun a b : String × α => a.1 < b.1 :=
    ⟨fun a b hab hba => absurd hba (String.lt_asymm hab)⟩
  have hirrefl : Std.Irrefl fun a b : String × α => a.1 < b.1 :=
    ⟨fun a => String.lt_irrefl a.1⟩
  refine List.Pairwise.eq_of_mem_iff hd he ?_
  rintro ⟨k, v⟩
  rw [← get?_eq_some_iff hd, ← get?_eq_some_iff he, h]

/-- Ascending keys are known by their members. -/
theorem eq_of_ascending {ks ls : List String} (hk : ks.Pairwise (· < ·)) (hl : ls.Pairwise (· < ·))
    (h : ∀ k, k ∈ ks ↔ k ∈ ls) : ks = ls := by
  have hantisymm : Std.Antisymm fun a b : String => a < b :=
    ⟨fun a b hab hba => absurd hba (String.lt_asymm hab)⟩
  exact List.Pairwise.eq_of_mem_iff hk hl h

/-! ### Tabulated entries -/

/-- The entries that a function gives to the keys of a list. -/
def tabulate (keys : List String) (value? : String → Option α) : Dict α :=
  keys.filterMap fun k => (value? k).map (k, ·)

theorem mem_tabulate {ks : List String} {value? : String → Option α} :
    (key, value) ∈ tabulate ks value? ↔ key ∈ ks ∧ value? key = some value := by
  simp only [tabulate, List.mem_filterMap, Option.map_eq_some_iff, Prod.mk.injEq]
  constructor
  · rintro ⟨k, hk, v, hv, rfl, rfl⟩
    exact ⟨hk, hv⟩
  · rintro ⟨hk, hv⟩
    exact ⟨key, hk, value, hv, rfl, rfl⟩

theorem sorted_tabulate {ks : List String} (h : ks.Pairwise (· < ·))
    (value? : String → Option α) : Sorted (tabulate ks value?) := by
  refine List.Pairwise.filterMap _ ?_ h
  intro k l hlt e he e' he'
  obtain ⟨v, -, rfl⟩ := Option.map_eq_some_iff.mp he
  obtain ⟨w, -, rfl⟩ := Option.map_eq_some_iff.mp he'
  exact hlt

theorem get?_tabulate {ks : List String} (h : ks.Pairwise (· < ·)) {value? : String → Option α}
    (hks : ∀ key, key ∉ ks → value? key = none) : get? key (tabulate ks value?) = value? key := by
  have hsorted := sorted_tabulate h value?
  refine Option.ext fun v => ?_
  rw [get?_eq_some_iff hsorted, mem_tabulate, and_iff_right_iff_imp]
  intro hv
  by_contra hkey
  rw [hks key hkey] at hv
  cases hv

end Dict

theorem sortedSet_sorted (texts : List String) : (sortedSet texts).Pairwise (· < ·) :=
  Dict.sorted_iff_keys.mp (Dict.sorted_ofList _)

theorem mem_sortedSet {text : String} {texts : List String} :
    text ∈ sortedSet texts ↔ text ∈ texts := by
  constructor
  · intro h
    obtain ⟨_, hmem⟩ := Dict.mem_keys_iff.mp h
    obtain ⟨t, ht, heq⟩ := List.mem_map.mp (Dict.mem_of_mem_ofList hmem)
    cases heq
    exact ht
  · intro h
    by_contra hnot
    have hnone := Dict.get?_eq_none_iff.mpr hnot
    rw [Dict.get?_ofList, Option.map_eq_none_iff, List.find?_eq_none] at hnone
    have hentry : (text, ()) ∈ (texts.map fun t => (t, ())).reverse :=
      List.mem_reverse.mpr (List.mem_map.mpr ⟨text, h, rfl⟩)
    exact hnone _ hentry (by simp)

end ClusterGate
