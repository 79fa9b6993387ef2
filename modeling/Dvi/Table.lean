/-!
# Tables in the order of insertion

A `Table` maps keys to values and remembers the order in which its keys came to be there. Setting a key
that is there keeps its place; a key that is erased and set again goes to the end.

Main statements: **`find?_insert`** and **`find?_erase`** say what is found after a change, and
**`keys_insert`**, **`keys_erase`** say which keys there are, and in which order.
-/

namespace Dvi

/-- Values by key, in the order in which the keys were first set. -/
structure Table (κ ν : Type) where
  entries : List (κ × ν) := []
  keys_nodup : (entries.map Prod.fst).Nodup := by exact List.nodup_nil

namespace Table

variable {κ ν : Type} [DecidableEq κ]

/-- The entries with the value of `key` set. -/
def assign (key : κ) (value : ν) : List (κ × ν) → List (κ × ν)
  | [] => [(key, value)]
  | (k, v) :: rest => if k = key then (k, value) :: rest else (k, v) :: assign key value rest

theorem map_fst_assign (key : κ) (value : ν) (es : List (κ × ν)) :
    (assign key value es).map Prod.fst =
      if key ∈ es.map Prod.fst then es.map Prod.fst else es.map Prod.fst ++ [key] := by
  induction es with
  | nil => rfl
  | cons e rest ih =>
    obtain ⟨k, v⟩ := e
    by_cases h : k = key
    · subst h
      simp [assign]
    · have h' : ¬ key = k := fun e => h e.symm
      simp only [assign, h, if_false, List.map_cons, ih, List.mem_cons, h', false_or]
      split <;> rfl

theorem lookup_cons_eq (k k' : κ) (v : ν) (rest : List (κ × ν)) :
    List.lookup k ((k', v) :: rest) = if k = k' then some v else rest.lookup k := by
  rw [List.lookup_cons]
  by_cases h : k = k'
  · simp [h]
  · rw [beq_false_of_ne h, if_neg h]

theorem lookup_assign (key : κ) (value : ν) (es : List (κ × ν)) (k : κ) :
    (assign key value es).lookup k = if k = key then some value else es.lookup k := by
  induction es with
  | nil => simp [assign, lookup_cons_eq]
  | cons e rest ih =>
    obtain ⟨k', v⟩ := e
    by_cases h : k' = key
    · subst h
      by_cases hk : k = k' <;> simp [assign, lookup_cons_eq, hk]
    · by_cases hk : k = k'
      · subst hk
        simp [assign, h]
      · simp [assign, h, lookup_cons_eq, hk, ih]

/-- The keys, first set first. -/
def keys (t : Table κ ν) : List κ := t.entries.map Prod.fst

/-- The values, in the order of their keys. -/
def values (t : Table κ ν) : List ν := t.entries.map Prod.snd

/-- The number of keys. -/
def size (t : Table κ ν) : Nat := t.entries.length

/-- There is no key. -/
def isEmpty (t : Table κ ν) : Bool := t.entries.isEmpty

/-- The value of a key. -/
def find? (t : Table κ ν) (key : κ) : Option ν := t.entries.lookup key

/-- A key has a value. -/
def contains (t : Table κ ν) (key : κ) : Bool := (t.find? key).isSome

/-- The table with the value of `key` set. -/
def insert (t : Table κ ν) (key : κ) (value : ν) : Table κ ν where
  entries := assign key value t.entries
  keys_nodup := by
    rw [map_fst_assign]
    split
    · exact t.keys_nodup
    · rename_i h
      refine List.nodup_append.2 ⟨t.keys_nodup, by simp, ?_⟩
      intro a ha b hb e
      rw [List.mem_singleton.1 hb] at e
      exact h (e ▸ ha)

/-- The table without `key`; the order of the others stays. -/
def erase (t : Table κ ν) (key : κ) : Table κ ν where
  entries := t.entries.filter (·.1 ≠ key)
  keys_nodup := t.keys_nodup.sublist (List.Sublist.map _ List.filter_sublist)

theorem find?_insert (t : Table κ ν) (key k : κ) (value : ν) :
    (t.insert key value).find? k = if k = key then some value else t.find? k :=
  lookup_assign key value t.entries k

theorem keys_insert (t : Table κ ν) (key : κ) (value : ν) :
    (t.insert key value).keys = if key ∈ t.keys then t.keys else t.keys ++ [key] :=
  map_fst_assign key value t.entries

theorem find?_erase (t : Table κ ν) (key k : κ) :
    (t.erase key).find? k = if k = key then none else t.find? k := by
  simp only [find?, erase]
  induction t.entries with
  | nil => simp
  | cons e rest ih =>
    obtain ⟨k', v⟩ := e
    by_cases hk' : k' = key
    · subst hk'
      by_cases hk : k = k' <;> simpa [lookup_cons_eq, hk] using ih
    · by_cases hk : k = k'
      · subst hk
        simp [hk']
      · simpa [lookup_cons_eq, hk, hk'] using ih

theorem keys_erase (t : Table κ ν) (key : κ) : (t.erase key).keys = t.keys.filter (· ≠ key) := by
  simp only [keys, erase, List.filter_map]
  rfl

end Table

end Dvi
