import Mathlib.Data.List.AList
import Mathlib.Algebra.BigOperators.Group.List.Basic
import Mathlib.Algebra.Order.BigOperators.Group.List
import Mathlib.Algebra.Ring.Nat

/-!
# Totals over finite maps

A finite map is an association list without repeated keys (`AList`), at a constant value type.
`AList.total` adds up a weight over all bindings; the lemmas below say what one insertion or
erasure does to it. They are what counting arguments about stores need: a counter kept beside a
map agrees with a total over the map as long as both move by the same amount.
-/

universe u v

/-- A finite map from keys to values. The order of the bindings carries no meaning. -/
abbrev HashMap (K : Type u) (V : Type v) := AList (fun _ : K => V)

namespace AList

variable {K : Type u} {V : Type v}

/-- The sum of a weight over all bindings. -/
def total (f : K → V → ℕ) (m : HashMap K V) : ℕ := (m.entries.map fun s => f s.1 s.2).sum

@[simp] lemma total_empty (f : K → V → ℕ) : total f (∅ : HashMap K V) = 0 := rfl

variable [DecidableEq K]

lemma mem_entries_iff {m : HashMap K V} {k : K} {v : V} :
    (⟨k, v⟩ : Sigma fun _ : K => V) ∈ m.entries ↔ m.lookup k = some v :=
  mem_lookup_iff.symm

/-- Change the value bound to `k`, if there is one. -/
def modify (k : K) (g : V → V) (m : HashMap K V) : HashMap K V :=
  match m.lookup k with
  | some v => m.insert k (g v)
  | none => m

lemma modify_of_some {m : HashMap K V} {k : K} {v : V} {g : V → V} (h : m.lookup k = some v) :
    m.modify k g = m.insert k (g v) := by
  simp [modify, h]

lemma modify_of_none {m : HashMap K V} {k : K} {g : V → V} (h : m.lookup k = none) :
    m.modify k g = m := by
  simp [modify, h]

lemma lookup_modify_self (m : HashMap K V) (k : K) (g : V → V) :
    (m.modify k g).lookup k = (m.lookup k).map g := by
  cases h : m.lookup k with
  | none => rw [modify_of_none h, h, Option.map_none]
  | some v => rw [modify_of_some h, lookup_insert, Option.map_some]

lemma lookup_modify_ne {m : HashMap K V} {k k' : K} {g : V → V} (h : k' ≠ k) :
    (m.modify k g).lookup k' = m.lookup k' := by
  cases hk : m.lookup k with
  | none => rw [modify_of_none hk]
  | some v => rw [modify_of_some hk, lookup_insert_ne h]

/-- A property of all bindings after one of them has changed. -/
lemma forall_modify {P : K → V → Prop} {m : HashMap K V} {k : K} {g : V → V}
    (h : ∀ k v, m.lookup k = some v → P k v)
    (hg : ∀ v, m.lookup k = some v → P k v → P k (g v)) :
    ∀ k' v, (m.modify k g).lookup k' = some v → P k' v := by
  intro k' v hv
  by_cases hk : k' = k
  · subst hk
    rw [lookup_modify_self] at hv
    obtain ⟨w, hw, rfl⟩ := Option.map_eq_some_iff.mp hv
    exact hg w hw (h k' w hw)
  · rw [lookup_modify_ne hk] at hv
    exact h k' v hv

lemma forall_erase {P : K → V → Prop} {m : HashMap K V}
    (h : ∀ k v, m.lookup k = some v → P k v) (k : K) :
    ∀ k' v, (m.erase k).lookup k' = some v → P k' v := by
  intro k' v hv
  by_cases hk : k' = k
  · rw [hk, lookup_erase] at hv
    cases hv
  · rw [lookup_erase_ne hk] at hv
    exact h k' v hv

lemma forall_insert {P : K → V → Prop} {m : HashMap K V} {k : K} {v : V}
    (h : ∀ k v, m.lookup k = some v → P k v) (hv : P k v) :
    ∀ k' w, (m.insert k v).lookup k' = some w → P k' w := by
  intro k' w hw
  by_cases hk : k' = k
  · rw [hk, lookup_insert] at hw
    cases hw
    exact hk ▸ hv
  · rw [lookup_insert_ne hk] at hw
    exact h k' w hw

lemma lookup_insert_eq_ite (m : HashMap K V) (k k' : K) (v : V) :
    (m.insert k v).lookup k' = if k' = k then some v else m.lookup k' := by
  split_ifs with h
  · rw [h, lookup_insert]
  · rw [lookup_insert_ne h]

lemma lookup_erase_eq_ite (m : HashMap K V) (k k' : K) :
    (m.erase k).lookup k' = if k' = k then none else m.lookup k' := by
  split_ifs with h
  · rw [h, lookup_erase]
  · rw [lookup_erase_ne h]

/-! ### Totals -/

lemma add_total_erase {m : HashMap K V} {k : K} {v : V} (f : K → V → ℕ)
    (h : m.lookup k = some v) : f k v + (m.erase k).total f = m.total f := by
  have hmem : (⟨k, v⟩ : Sigma fun _ : K => V) ∈ m.entries := mem_entries_iff.mpr h
  obtain ⟨w, l₁, l₂, hl₁, hm, he⟩ := List.exists_of_kerase (List.mem_keys_of_mem hmem)
  have hw : w = v := by
    have hmem' : (⟨k, w⟩ : Sigma fun _ : K => V) ∈ m.entries := by rw [hm]; simp
    rw [mem_entries_iff, h] at hmem'
    exact (Option.some.inj hmem').symm
  subst hw
  have hm' : m.total f
      = (l₁.map fun s => f s.1 s.2).sum + (f k w + (l₂.map fun s => f s.1 s.2).sum) := by
    rw [total, hm, List.map_append, List.sum_append, List.map_cons, List.sum_cons]
  have he' : (m.erase k).total f
      = (l₁.map fun s => f s.1 s.2).sum + (l₂.map fun s => f s.1 s.2).sum := by
    have he₀ : (m.erase k).entries = l₁ ++ l₂ := he
    rw [total, he₀, List.map_append, List.sum_append]
  omega

lemma erase_of_lookup_none {m : HashMap K V} {k : K} (h : m.lookup k = none) : m.erase k = m := by
  apply AList.ext
  exact List.kerase_of_notMem_keys (lookup_eq_none.mp h)

lemma total_insert (m : HashMap K V) (k : K) (v : V) (f : K → V → ℕ) :
    (m.insert k v).total f = f k v + (m.erase k).total f := by
  rw [total, entries_insert, List.map_cons, List.sum_cons]
  rfl

lemma total_insert_of_none {m : HashMap K V} {k : K} (f : K → V → ℕ) (v : V)
    (h : m.lookup k = none) : (m.insert k v).total f = f k v + m.total f := by
  rw [total_insert, erase_of_lookup_none h]

/-- Replacing a binding moves the total by the difference of the two weights. -/
lemma total_insert_add {m : HashMap K V} {k : K} {v : V} (f : K → V → ℕ) (w : V)
    (h : m.lookup k = some v) : (m.insert k w).total f + f k v = m.total f + f k w := by
  have := add_total_erase f h
  rw [total_insert]
  omega

lemma total_modify_add {m : HashMap K V} {k : K} {v : V} (f : K → V → ℕ) (g : V → V)
    (h : m.lookup k = some v) : (m.modify k g).total f + f k v = m.total f + f k (g v) := by
  rw [modify_of_some h, total_insert_add f (g v) h]

lemma le_total {m : HashMap K V} {k : K} {v : V} (f : K → V → ℕ) (h : m.lookup k = some v) :
    f k v ≤ m.total f := by
  have := add_total_erase f h
  omega

lemma total_congr {m : HashMap K V} {f g : K → V → ℕ}
    (h : ∀ k v, m.lookup k = some v → f k v = g k v) : m.total f = m.total g := by
  simp only [total]
  congr 1
  apply List.map_congr_left
  intro s hs
  exact h s.1 s.2 (mem_entries_iff.mp hs)

lemma total_eq_zero {m : HashMap K V} {f : K → V → ℕ}
    (h : ∀ k v, m.lookup k = some v → f k v = 0) : m.total f = 0 := by
  rw [total_congr (g := fun _ _ => 0) h]
  simp [total]

end AList
