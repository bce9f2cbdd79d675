import Mathlib.Algebra.BigOperators.Ring.List
import Mathlib.Algebra.GroupWithZero.Nat
import Mathlib.Data.List.TakeWhile
import TensorCache.Geometry

/-!
# Element and byte counts

The running product of the dimensions is checked at every step, and a zero that is still to come
does not undo an overflow. The count is that of the whole shape exactly when the product of the
dimensions before the first zero fits, so it can depend on their order.
-/

namespace TensorCache

/-! ### Products -/

/-- The product of the dimensions, unbounded. -/
def natProd (ds : List UInt64) : ℕ := (ds.map UInt64.toNat).prod

def beforeZero (ds : List UInt64) : List UInt64 := ds.takeWhile (· ≠ 0)

def nonzero (ds : List UInt64) : List UInt64 := ds.filter (· ≠ 0)

variable {ds ds' : List UInt64} {d n m : UInt64}

@[simp] lemma natProd_nil : natProd [] = 1 := rfl

@[simp] lemma natProd_cons : natProd (d :: ds) = d.toNat * natProd ds := by
  rw [natProd, List.map_cons, List.prod_cons, natProd]

lemma natProd_append : natProd (ds ++ ds') = natProd ds * natProd ds' := by
  rw [natProd, List.map_append, List.prod_append, natProd, natProd]

lemma natProd_perm (h : ds.Perm ds') : natProd ds = natProd ds' := (h.map _).prod_eq

lemma toNat_eq_zero : d.toNat = 0 ↔ d = 0 := by
  rw [← UInt64.toNat_inj]
  rfl

lemma natProd_eq_zero : natProd ds = 0 ↔ 0 ∈ ds := by
  simp [natProd, List.prod_eq_zero_iff, toNat_eq_zero]

lemma natProd_pos (h : 0 ∉ ds) : 0 < natProd ds := by
  rw [Nat.pos_iff_ne_zero, ne_eq, natProd_eq_zero]
  exact h

lemma zero_notMem_beforeZero : 0 ∉ beforeZero ds := by
  intro hmem
  simpa using List.mem_takeWhile_imp hmem

lemma beforeZero_eq (h : 0 ∉ ds) : beforeZero ds = ds := by
  rw [beforeZero, List.takeWhile_eq_self_iff]
  intro d hd
  exact decide_eq_true fun hzero => h (hzero ▸ hd)

/-- Zeros further back leave room for more dimensions that are not zero. -/
lemma natProd_beforeZero_le : natProd (beforeZero ds) ≤ natProd (nonzero ds) := by
  have hself : nonzero (beforeZero ds) = beforeZero ds := by
    rw [nonzero, List.filter_eq_self]
    exact fun d hd => decide_eq_true fun hzero => zero_notMem_beforeZero (hzero ▸ hd)
  have hsplit : nonzero ds = beforeZero ds ++ nonzero (ds.dropWhile (· ≠ 0)) := by
    rw [← hself, nonzero, nonzero, beforeZero, nonzero, ← List.filter_append,
      List.takeWhile_append_dropWhile]
  rw [hsplit, natProd_append]
  refine Nat.le_mul_of_pos_right _ (natProd_pos fun hmem => ?_)
  simpa using (List.mem_filter.mp hmem).2

/-! ### The loop -/

lemma checkedMul_eq_some_iff : checkedMul n d = some m ↔ m.toNat = n.toNat * d.toNat := by
  refine ⟨toNat_of_checkedMul, fun h => ?_⟩
  have hlt : n.toNat * d.toNat < 2 ^ 64 := h ▸ m.toNat_lt
  rw [checkedMul, if_pos hlt, Option.some_inj, ← UInt64.toNat_inj, UInt64.toNat_mul,
    Nat.mod_eq_of_lt hlt, h]

namespace Shape

lemma numelFrom_zero (ds : List UInt64) : numelFrom 0 ds = .ok 0 := by
  induction ds with
  | nil => rfl
  | cons d ds ih =>
    have hzero : checkedMul 0 d = some 0 := checkedMul_eq_some_iff.mpr (Nat.zero_mul _).symm
    rw [numelFrom, hzero]
    exact ih

/-- The loop fails where the product up to the first zero overflows. -/
lemma numelFrom_eq (hn : n ≠ 0) :
    numelFrom n ds = if n.toNat * natProd (beforeZero ds) < 2 ^ 64
      then .ok (UInt64.ofNat (n.toNat * natProd ds))
      else .error (.geometry "shape element count overflow") := by
  induction ds generalizing n with
  | nil =>
    rw [beforeZero, List.takeWhile_nil, natProd_nil, Nat.mul_one, if_pos n.toNat_lt,
      UInt64.ofNat_toNat]
    rfl
  | cons d ds ih =>
    by_cases hd : d = 0
    · have hzero : checkedMul n 0 = some 0 := checkedMul_eq_some_iff.mpr (Nat.mul_zero _).symm
      subst hd
      rw [numelFrom, hzero, beforeZero, List.takeWhile_cons_of_neg (by simp), natProd_nil,
        Nat.mul_one, if_pos n.toNat_lt, natProd_cons]
      simp only [numelFrom_zero, UInt64.toNat_zero, Nat.zero_mul, Nat.mul_zero]
      rfl
    · have hbefore : beforeZero (d :: ds) = d :: beforeZero ds :=
        List.takeWhile_cons_of_pos (decide_eq_true hd)
      rw [hbefore, natProd_cons, natProd_cons, ← Nat.mul_assoc, ← Nat.mul_assoc, numelFrom]
      by_cases hfits : n.toNat * d.toNat < 2 ^ 64
      · have hprod : (n * d).toNat = n.toNat * d.toNat := by
          rw [UInt64.toNat_mul, Nat.mod_eq_of_lt hfits]
        have hne : n * d ≠ 0 := by
          rw [ne_eq, ← toNat_eq_zero, hprod, Nat.mul_eq_zero, toNat_eq_zero, toNat_eq_zero]
          exact fun h => h.elim hn hd
        rw [checkedMul_eq_some_iff.mpr hprod, ← hprod]
        exact ih hne
      · have hnone : checkedMul n d = none := by rw [checkedMul, if_neg hfits]
        have hover : ¬ n.toNat * d.toNat * natProd (beforeZero ds) < 2 ^ 64 := fun hlt =>
          hfits (lt_of_le_of_lt (Nat.le_mul_of_pos_right _ (natProd_pos zero_notMem_beforeZero)) hlt)
        rw [hnone, if_neg hover]

/-- The element count, or where it overflows. -/
theorem numel_eq (s : Shape) :
    s.numel = if natProd (beforeZero s.dims) < 2 ^ 64 then .ok (UInt64.ofNat (natProd s.dims))
      else .error (.geometry "shape element count overflow") := by
  rw [numel, numelFrom_eq (by decide)]
  simp only [UInt64.toNat_one, Nat.one_mul]

variable {s : Shape}

/-- A product that fits up to the first zero fits as a whole. -/
lemma natProd_lt (h : natProd (beforeZero s.dims) < 2 ^ 64) : natProd s.dims < 2 ^ 64 := by
  by_cases hzero : 0 ∈ s.dims
  · rw [natProd_eq_zero.mpr hzero]
    decide
  · rwa [beforeZero_eq hzero] at h

lemma numel_ok_iff : s.numel = .ok n ↔
    natProd s.dims = n.toNat ∧ natProd (beforeZero s.dims) < 2 ^ 64 := by
  rw [numel_eq]
  split_ifs with hlt
  · rw [Except.ok.injEq, ← UInt64.toNat_inj, UInt64.toNat_ofNat_of_lt' (natProd_lt hlt)]
    exact (and_iff_left hlt).symm
  · exact iff_of_false (fun h => by cases h) fun h => hlt h.2

lemma byteLen_ok_iff {elem b : UInt64} (hpos : elem ≠ 0)
    (hle : elem ≤ 0xFFFFFFFFFFFFFFFF / 8) : s.byteLen elem = .ok b ↔
      natProd s.dims * elem.toNat = b.toNat ∧ natProd (beforeZero s.dims) < 2 ^ 64 := by
  rw [byteLen, if_neg (by rw [not_or]; exact ⟨hpos, UInt64.not_lt.mpr hle⟩)]
  by_cases hlt : natProd (beforeZero s.dims) < 2 ^ 64
  · obtain ⟨n, hnumel⟩ : ∃ n, s.numel = .ok n := ⟨_, by rw [numel_eq, if_pos hlt]⟩
    rw [hnumel, and_iff_left hlt, (numel_ok_iff.mp hnumel).1, eq_comm (b := b.toNat),
      ← checkedMul_eq_some_iff]
    cases hmul : checkedMul n elem <;> simp [bind, Except.bind, hmul]
  · rw [numel_eq, if_neg hlt]
    exact iff_of_false (fun h => by cases h) fun h => hlt h.2

/-- The counts are the products of the dimensions, and fail only where these do not fit. -/
structure Exact (s : Shape) : Prop where
  numel : ∀ n, s.numel = .ok n ↔ natProd s.dims = n.toNat
  byteLen : ∀ elem, elem ≠ 0 → elem ≤ 0xFFFFFFFFFFFFFFFF / 8 →
    ∀ b, s.byteLen elem = .ok b ↔ natProd s.dims * elem.toNat = b.toNat

/-- The same dimensions in another order have the same counts. -/
def OrderFree (s : Shape) : Prop :=
  ∀ s' : Shape, s'.dims.Perm s.dims → s'.numel = s.numel ∧ ∀ elem, s'.byteLen elem = s.byteLen elem

lemma exact_of_lt (h : natProd (beforeZero s.dims) < 2 ^ 64) : s.Exact where
  numel _ := numel_ok_iff.trans (and_iff_left h)
  byteLen _ hpos hle _ := (byteLen_ok_iff hpos hle).trans (and_iff_left h)

lemma exact_of_notMem (hzero : 0 ∉ s.dims) : s.Exact := by
  have hlt : ∀ n : UInt64, ∀ k, 0 < k → natProd s.dims * k = n.toNat →
      natProd (beforeZero s.dims) < 2 ^ 64 := by
    intro n k hk hprod
    rw [beforeZero_eq hzero]
    exact lt_of_le_of_lt (Nat.le_mul_of_pos_right _ hk) (hprod ▸ n.toNat_lt)
  constructor
  · intro n
    rw [numel_ok_iff, and_iff_left_iff_imp]
    exact fun hprod => hlt n 1 one_pos (by rw [Nat.mul_one, hprod])
  · intro elem hpos hle b
    rw [byteLen_ok_iff hpos hle, and_iff_left_iff_imp]
    refine hlt b _ (Nat.pos_of_ne_zero fun h => hpos (toNat_eq_zero.mp h))

/-- A shape with the same dimensions in another order. -/
def reorder (s : Shape) (h : ds.Perm s.dims) : Shape where
  dims := ds
  rank_le := h.length_eq ▸ s.rank_le
  dims_le d hd := s.dims_le d (h.mem_iff.mp hd)

/-- With a zero in front nothing overflows, with all zeros behind everything has to fit. -/
lemma lt_of_orderFree (h : s.OrderFree) (hzero : 0 ∈ s.dims) :
    natProd (nonzero s.dims) < 2 ^ 64 := by
  have hfront := (h (s.reorder (List.perm_cons_erase hzero).symm) (List.perm_cons_erase hzero).symm).1
  have hback := (h (s.reorder (List.filter_append_perm _ _)) (List.filter_append_perm (· ≠ 0) _)).1
  have hbefore : beforeZero (nonzero s.dims ++ s.dims.filter fun d => !decide (d ≠ 0))
      = nonzero s.dims := by
    have hall : ∀ d ∈ nonzero s.dims, decide (d ≠ 0) = true := fun d hd => (List.mem_filter.mp hd).2
    rw [beforeZero, List.takeWhile_append_of_pos hall, List.takeWhile_eq_nil_iff.mpr,
      List.append_nil]
    intro hlt
    have hmem := (List.mem_filter.mp (List.getElem_mem hlt)).2
    simpa using hmem
  rw [← hfront, numel_eq, numel_eq] at hback
  change (if natProd (beforeZero (nonzero s.dims ++ s.dims.filter fun d => !decide (d ≠ 0)))
      < 2 ^ 64 then _ else _) = if natProd (beforeZero (0 :: s.dims.erase 0)) < 2 ^ 64 then _ else _
    at hback
  rw [hbefore] at hback
  by_contra hlt
  rw [if_neg hlt] at hback
  cases hback

/-- Where everything fits, or nothing is zero, the order does not matter. -/
lemma orderFree_of_lt (h : 0 ∉ s.dims ∨ natProd (nonzero s.dims) < 2 ^ 64) : s.OrderFree := by
  intro s' hperm
  have hnumel : s'.numel = s.numel := by
    rw [numel_eq, numel_eq, natProd_perm hperm]
    rcases h with hzero | hlt
    · have hzero' : 0 ∉ s'.dims := fun hmem => hzero (hperm.mem_iff.mp hmem)
      rw [beforeZero_eq hzero, beforeZero_eq hzero', natProd_perm hperm]
    · have hlt' : natProd (nonzero s'.dims) < 2 ^ 64 := by
        rwa [nonzero, natProd_perm (hperm.filter _)]
      rw [if_pos (lt_of_le_of_lt natProd_beforeZero_le hlt),
        if_pos (lt_of_le_of_lt natProd_beforeZero_le hlt')]
  refine ⟨hnumel, fun elem => ?_⟩
  rw [byteLen, byteLen, hnumel]

/-- The counts of a shape are exact exactly if none of its dimensions is zero or those before the
first zero fit, and they do not depend on the order exactly if all that are not zero fit. -/
theorem counts_exact_iff (s : Shape) :
    (s.Exact ↔ 0 ∉ s.dims ∨ natProd (beforeZero s.dims) < 2 ^ 64) ∧
      (s.OrderFree ↔ 0 ∉ s.dims ∨ natProd (nonzero s.dims) < 2 ^ 64) := by
  refine ⟨⟨fun h => ?_, fun h => ?_⟩, ⟨fun h => ?_, orderFree_of_lt⟩⟩
  · by_cases hzero : 0 ∈ s.dims
    · have hnumel := (h.numel 0).mpr (natProd_eq_zero.mpr hzero)
      exact Or.inr (numel_ok_iff.mp hnumel).2
    · exact Or.inl hzero
  · exact h.elim exact_of_notMem exact_of_lt
  · by_cases hzero : 0 ∈ s.dims
    · exact Or.inr (lt_of_orderFree h hzero)
    · exact Or.inl hzero

/-- Three dimensions of `2 ^ 32 - 1` in front of a zero overflow, and behind it they do not. -/
theorem counts_order_dependent :
    let s : Shape := ⟨[0xFFFFFFFF, 0xFFFFFFFF, 0xFFFFFFFF, 0], by decide, by decide⟩
    let s' : Shape := ⟨[0, 0xFFFFFFFF, 0xFFFFFFFF, 0xFFFFFFFF], by decide, by decide⟩
    natProd s.dims = 0 ∧ s.numel = .error (.geometry "shape element count overflow") ∧
      s.byteLen 4 = .error (.geometry "shape element count overflow") ∧
      s'.dims.Perm s.dims ∧ s'.numel = .ok 0 ∧ s'.byteLen 4 = .ok 0 ∧ ¬ s.Exact ∧ ¬ s.OrderFree := by
  refine ⟨by decide, by decide, by decide, by decide, by decide, by decide, fun h => ?_, fun h => ?_⟩
  · exact absurd ((h.numel 0).mpr (by decide)) (by decide)
  · exact absurd (h ⟨[0, 0xFFFFFFFF, 0xFFFFFFFF, 0xFFFFFFFF], by decide, by decide⟩ (by decide)).1
      (by decide)

end Shape

end TensorCache
