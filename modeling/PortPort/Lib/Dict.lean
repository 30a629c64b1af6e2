import Mathlib.Data.List.AList

/-! # Dictionaries that keep the order of insertion

An association list without duplicate keys, newest entry first. Assigning to a key that is present
keeps its place. -/

abbrev Dict (κ ν : Type*) := AList fun _ : κ => ν

namespace Dict

variable {κ ν : Type*} [DecidableEq κ]

/-- `d[k] = v`. -/
def set (d : Dict κ ν) (k : κ) (v : ν) : Dict κ ν :=
  if k ∈ d.keys then AList.replace k v d else AList.insert k v d

/-- The oldest key. -/
def first? (d : Dict κ ν) : Option κ := d.keys.getLast?

private theorem cons_ne {k k' : κ} {v : ν} {l : List (Sigma fun _ : κ => ν)} (h : k' ≠ k) :
    (⟨k, v⟩ :: l : List (Sigma fun _ : κ => ν)).dlookup k' = l.dlookup k' :=
  List.dlookup_cons_ne _ _ h

theorem dlookup_kreplace_of_mem {k : κ} {v : ν} {l : List (Sigma fun _ : κ => ν)}
    (h : k ∈ l.keys) (k' : κ) :
    (l.kreplace k v).dlookup k' = if k' = k then some v else l.dlookup k' := by
  induction l with
  | nil => simp at h
  | cons x l ih =>
    obtain ⟨k₀, v₀⟩ := x
    rw [List.kreplace]
    by_cases h0 : k = k₀
    · subst h0
      rw [List.lookmap_cons_some (b := ⟨k, v⟩) _ _ (by simp)]
      by_cases hk : k' = k
      · subst hk; simp
      · rw [if_neg hk, cons_ne hk, cons_ne hk]
    · have hl : k ∈ l.keys := by simpa [h0] using h
      rw [List.lookmap_cons_none _ _ (by simp [h0])]
      by_cases hk : k' = k₀
      · subst hk
        rw [if_neg (Ne.symm h0), List.dlookup_cons_eq, List.dlookup_cons_eq]
      · rw [cons_ne hk, cons_ne hk]
        exact ih hl

theorem lookup_set (d : Dict κ ν) (k k' : κ) (v : ν) :
    (d.set k v).lookup k' = if k' = k then some v else d.lookup k' := by
  unfold set
  split
  · rename_i h
    exact dlookup_kreplace_of_mem h k'
  · split
    · rename_i h; subst h; exact AList.lookup_insert _
    · rename_i h; exact AList.lookup_insert_ne h

theorem lookup_erase (d : Dict κ ν) (k k' : κ) :
    AList.lookup k' (AList.erase k d) = if k' = k then none else AList.lookup k' d := by
  split
  · rename_i h; subst h; exact AList.lookup_erase ..
  · rename_i h; exact AList.lookup_erase_ne h

theorem erase_of_lookup_eq_none {d : Dict κ ν} {k : κ} (h : d.lookup k = none) :
    AList.erase k d = d :=
  AList.ext (List.kerase_of_notMem_keys fun hk => AList.lookup_eq_none.mp h (AList.mem_keys.mpr hk))

theorem first?_mem {d : Dict κ ν} {k : κ} (h : first? d = some k) : ∃ v, d.lookup k = some v := by
  have hk : k ∈ d := AList.mem_keys.mpr (List.mem_of_getLast? h)
  exact Option.isSome_iff_exists.mp (AList.lookup_isSome.mpr hk)

theorem first?_eq_none {d : Dict κ ν} (h : first? d = none) (k : κ) : d.lookup k = none := by
  rw [AList.lookup_eq_none, AList.mem_keys, List.getLast?_eq_none_iff.mp h]
  exact List.not_mem_nil

/-- `len(d)`. -/
def size (d : Dict κ ν) : Nat := d.keys.length

omit [DecidableEq κ] in
@[simp] theorem size_empty : (∅ : Dict κ ν).size = 0 := rfl

theorem size_set {d : Dict κ ν} {k : κ} (h : d.lookup k = none) (v : ν) :
    (d.set k v).size = d.size + 1 := by
  have hk : k ∉ d.keys := fun hm => AList.lookup_eq_none.mp h (AList.mem_keys.mpr hm)
  rw [size, size, set, if_neg hk, AList.keys_insert, List.erase_of_not_mem hk, List.length_cons]

theorem size_erase {d : Dict κ ν} {k : κ} {v : ν} (h : d.lookup k = some v) :
    Dict.size (AList.erase k d) + 1 = d.size := by
  have hk : k ∈ d.keys := AList.mem_keys.mp (AList.lookup_isSome.mp (by rw [h]; rfl))
  rw [size, size, AList.keys_erase, List.length_erase_of_mem hk]
  have := List.length_pos_of_mem hk
  omega

theorem size_set_le (d : Dict κ ν) (k : κ) (v : ν) : (d.set k v).size ≤ d.size + 1 := by
  by_cases h : d.lookup k = none
  · exact Nat.le_of_eq (size_set h v)
  · have hk : k ∈ d.keys :=
      AList.mem_keys.mp (AList.lookup_isSome.mp (Option.isSome_iff_ne_none.mpr h))
    rw [size, set, if_pos hk, AList.keys_replace]
    exact Nat.le_succ _

theorem size_erase_le (d : Dict κ ν) (k : κ) : Dict.size (AList.erase k d) ≤ d.size := by
  rw [size, AList.keys_erase]
  exact List.length_erase_le

theorem size_eq_zero {d : Dict κ ν} (h : ∀ k, d.lookup k = none) : d.size = 0 := by
  rw [size, List.length_eq_zero_iff, List.eq_nil_iff_forall_not_mem]
  exact fun k hk => AList.lookup_eq_none.mp (h k) (AList.mem_keys.mpr hk)

end Dict
