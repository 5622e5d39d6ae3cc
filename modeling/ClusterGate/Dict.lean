/-!
# Dictionaries

Entries under text keys, kept in ascending key order with one entry per key. The order of keys is
the order of their code points, which is also the order of their UTF-8 bytes.
-/

namespace ClusterGate

abbrev Dict (α : Type) := List (String × α)

namespace Dict

variable {α : Type}

/-- Puts a value under a key; an entry that has the key already is replaced. -/
def insert (key : String) (value : α) : Dict α → Dict α
  | [] => [(key, value)]
  | (k, v) :: rest =>
    if key < k then (key, value) :: (k, v) :: rest
    else if key = k then (key, value) :: rest
    else (k, v) :: insert key value rest

def get? (key : String) : Dict α → Option α
  | [] => none
  | (k, v) :: rest => if k = key then some v else get? key rest

def erase (key : String) (d : Dict α) : Dict α := d.filter (fun entry => entry.1 ≠ key)

def keys (d : Dict α) : List String := d.map Prod.fst

/-- Collects entries; of several entries under one key the last one stays. -/
def ofList (entries : List (String × α)) : Dict α :=
  entries.foldl (fun d entry => insert entry.1 entry.2 d) []

/-- Keys strictly ascend. -/
def Sorted (d : Dict α) : Prop := d.Pairwise (fun a b => a.1 < b.1)

@[simp] theorem get?_insert_self (key : String) (value : α) (d : Dict α) :
    (d.insert key value).get? key = some value := by
  induction d with
  | nil => simp [insert, get?]
  | cons entry rest ih =>
    obtain ⟨k, v⟩ := entry
    rw [insert]
    split
    · simp [get?]
    · split
      · simp [get?]
      · rename_i hne
        simp [get?, Ne.symm hne, ih]

theorem get?_insert_of_ne {key other : String} (value : α) (d : Dict α) (h : other ≠ key) :
    (d.insert key value).get? other = d.get? other := by
  induction d with
  | nil => simp [insert, get?, Ne.symm h]
  | cons entry rest ih =>
    obtain ⟨k, v⟩ := entry
    rw [insert]
    split
    · simp [get?, Ne.symm h]
    · split
      · rename_i heq
        subst heq
        simp [get?, Ne.symm h]
      · simp only [get?, ih]

end Dict

/-- A set of texts: ascending, without repetition. -/
def sortedSet (texts : List String) : List String :=
  (Dict.ofList (texts.map fun text => (text, ()))).keys

end ClusterGate
