import Dvi.Table

/-!
# Keys of tables

* `Table.contains_iff_mem_keys`, `Table.contains_insert`: which keys a table has;
* **`Table.entries_insert`**: a table grows at its end, unless a key gets another value.
-/

namespace Dvi

namespace Table

variable {κ ν : Type} [DecidableEq κ]

theorem contains_iff {t : Table κ ν} {k : κ} : t.contains k = true ↔ ∃ v, t.find? k = some v := by
  rw [contains, Option.isSome_iff_exists]

theorem contains_empty (k : κ) : ({} : Table κ ν).contains k = false := rfl

theorem contains_iff_mem_keys {t : Table κ ν} {k : κ} : t.contains k = true ↔ k ∈ t.keys := by
  rw [contains, find?, List.lookup_isSome_iff, keys, List.mem_map]
  exact exists_congr fun e => and_congr_right fun _ => beq_iff_eq.trans eq_comm

theorem contains_insert {t : Table κ ν} {key k : κ} {value : ν} :
    (t.insert key value).contains k = true ↔ t.contains k = true ∨ k = key := by
  simp only [contains, find?_insert]
  by_cases h : k = key <;> simp [h]

theorem assign_of_lookup_eq_none {key : κ} {value : ν} {es : List (κ × ν)} (h : es.lookup key = none) :
    assign key value es = es ++ [(key, value)] := by
  induction es with
  | nil => rfl
  | cons e rest ih =>
    obtain ⟨k, v⟩ := e
    rw [lookup_cons_eq] at h
    split at h
    · cases h
    · rename_i hk
      simp [assign, Ne.symm hk, ih h]

theorem assign_of_lookup_eq_some {key : κ} {value : ν} {es : List (κ × ν)} (h : es.lookup key = some value) :
    assign key value es = es := by
  induction es with
  | nil => cases h
  | cons e rest ih =>
    obtain ⟨k, v⟩ := e
    rw [lookup_cons_eq] at h
    split at h
    · rename_i hk
      simp_all [assign]
    · rename_i hk
      simp [assign, Ne.symm hk, ih h]

theorem entries_insert_of_not_contains {t : Table κ ν} {key : κ} {value : ν} (h : ¬ t.contains key = true) :
    (t.insert key value).entries = t.entries ++ [(key, value)] := by
  rw [contains, Option.not_isSome_iff_eq_none] at h
  exact assign_of_lookup_eq_none h

theorem mem_assign {key : κ} {value : ν} {es : List (κ × ν)} {e : κ × ν} (h : e ∈ assign key value es) :
    e = (key, value) ∨ e ∈ es := by
  induction es with
  | nil => exact .inl (List.mem_singleton.1 h)
  | cons e' rest ih =>
    obtain ⟨k, v⟩ := e'
    rw [assign] at h
    split at h
    · rename_i hk
      obtain rfl | h := List.mem_cons.1 h
      · exact .inl (by rw [hk])
      · exact .inr (.tail _ h)
    · obtain rfl | h := List.mem_cons.1 h
      · exact .inr (.head rest)
      · exact (ih h).imp_right (.tail _)

theorem mem_entries_insert {t : Table κ ν} {key : κ} {value : ν} {e : κ × ν}
    (h : e ∈ (t.insert key value).entries) : e = (key, value) ∨ e ∈ t.entries :=
  mem_assign h

/-- A table grows at its end, unless a key gets another value. -/
theorem entries_insert {t : Table κ ν} {key : κ} {value : ν} (h : ∀ v, t.find? key = some v → v = value) :
    t.entries <+: (t.insert key value).entries := by
  rcases hf : t.find? key with _ | v
  · exact ⟨_, (assign_of_lookup_eq_none hf).symm⟩
  · rw [h v hf] at hf
    exact (assign_of_lookup_eq_some hf).symm ▸ List.prefix_rfl

end Table

end Dvi
