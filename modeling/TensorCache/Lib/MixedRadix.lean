import Mathlib.RingTheory.RootsOfUnity.Complex
import Mathlib.Algebra.Polynomial.Coeff
import Mathlib.Algebra.Ring.GeomSum
import Mathlib.Algebra.BigOperators.Ring.Finset
import Mathlib.Data.Fintype.BigOperators

/-!
# Boxes and their offsets

A box of indices, with a stride for each axis, is numbered by offsets. When are these offsets
the numbers below the volume of the box, each one once?

The offsets are counted by the polynomial `∏ k, ∑ j < d k, X ^ (j * s k)`, so they are numbered
as asked for exactly when it is `∑ m < n, X ^ m`. Both sides are quotients of products of
polynomials `1 - X ^ a`, and such a product determines its exponents: the largest one is seen at
a primitive root of unity. What remains is an equation between multisets.
-/

namespace MixedRadix

open Polynomial

/-! ### Products of `1 - X ^ a` -/

/-- The product of the polynomials `1 - X ^ a`. -/
noncomputable def oneSub (m : Multiset ℕ) : ℂ[X] := (m.map fun a => 1 - X ^ a).prod

@[simp] lemma oneSub_zero : oneSub 0 = 1 := by simp [oneSub]

@[simp] lemma oneSub_cons (a : ℕ) (m : Multiset ℕ) :
    oneSub (a ::ₘ m) = (1 - X ^ a) * oneSub m := by simp [oneSub]

lemma one_sub_X_pow_ne_zero {a : ℕ} (ha : 0 < a) : (1 - X ^ a : ℂ[X]) ≠ 0 := by
  intro h
  have hcoeff := congrArg (coeff · a) h
  simp [coeff_one, ha.ne'] at hcoeff

lemma oneSub_ne_zero {m : Multiset ℕ} (hm : ∀ a ∈ m, 0 < a) : oneSub m ≠ 0 := by
  rw [oneSub, ne_eq, Multiset.prod_eq_zero_iff, Multiset.mem_map]
  rintro ⟨a, ha, hzero⟩
  exact one_sub_X_pow_ne_zero (hm a ha) hzero

/-- A root of unity is a root of the product exactly if its order divides an exponent. -/
lemma eval_oneSub_eq_zero {m : Multiset ℕ} {a : ℕ} {ζ : ℂ} (hζ : IsPrimitiveRoot ζ a) :
    (oneSub m).eval ζ = 0 ↔ ∃ b ∈ m, a ∣ b := by
  induction m using Multiset.induction_on with
  | empty => simp
  | cons b m ih =>
    rw [oneSub_cons, eval_mul, mul_eq_zero, ih, eval_sub, eval_one, eval_pow, eval_X, sub_eq_zero,
      eq_comm, hζ.pow_eq_one_iff_dvd]
    simp

/-- The largest exponent of one product is an exponent of the other. -/
lemma mem_of_oneSub_eq {m n : Multiset ℕ} {a : ℕ} (hn : ∀ b ∈ n, 0 < b) (ha : a ∈ m) (hpos : 0 < a)
    (hmax : ∀ b ∈ n, b ≤ a) (h : oneSub m = oneSub n) : a ∈ n := by
  have hζ := Complex.isPrimitiveRoot_exp a hpos.ne'
  have hroot := (eval_oneSub_eq_zero (m := m) hζ).mpr ⟨a, ha, dvd_rfl⟩
  rw [h, eval_oneSub_eq_zero hζ] at hroot
  obtain ⟨b, hb, hdvd⟩ := hroot
  rwa [(Nat.le_of_dvd (hn b hb) hdvd).antisymm (hmax b hb)]

/-- A product of polynomials `1 - X ^ a` determines its exponents. -/
theorem oneSub_inj {m n : Multiset ℕ} (hm : ∀ a ∈ m, 0 < a) (hn : ∀ a ∈ n, 0 < a) :
    oneSub m = oneSub n ↔ m = n := by
  refine ⟨fun h => ?_, congrArg oneSub⟩
  -- take the largest exponent off both sides
  induction hcard : (m + n).card using Nat.strong_induction_on generalizing m n with
  | _ c ih =>
    by_cases hempty : m + n = 0
    · rw [(add_eq_zero.mp hempty).1, (add_eq_zero.mp hempty).2]
    · obtain ⟨a, ha, hmax⟩ : ∃ a ∈ m + n, ∀ b ∈ m + n, b ≤ a := by
        have hne : (m + n).toFinset.Nonempty := by
          rw [Multiset.toFinset_nonempty]
          exact hempty
        refine ⟨(m + n).toFinset.max' hne, ?_, fun b hb => ?_⟩
        · exact Multiset.mem_toFinset.mp (Finset.max'_mem _ hne)
        · exact Finset.le_max' _ b (Multiset.mem_toFinset.mpr hb)
      have hmaxm : ∀ b ∈ m, b ≤ a := fun b hb => hmax b (Multiset.mem_add.mpr (Or.inl hb))
      have hmaxn : ∀ b ∈ n, b ≤ a := fun b hb => hmax b (Multiset.mem_add.mpr (Or.inr hb))
      have hboth : a ∈ m ∧ a ∈ n := by
        rcases Multiset.mem_add.mp ha with hmem | hmem
        · exact ⟨hmem, mem_of_oneSub_eq hn hmem (hm a hmem) hmaxn h⟩
        · exact ⟨mem_of_oneSub_eq hm hmem (hn a hmem) hmaxm h.symm, hmem⟩
      obtain ⟨m', rfl⟩ := Multiset.exists_cons_of_mem hboth.1
      obtain ⟨n', rfl⟩ := Multiset.exists_cons_of_mem hboth.2
      rw [oneSub_cons, oneSub_cons] at h
      have hcancel := mul_left_cancel₀ (one_sub_X_pow_ne_zero (hm a hboth.1)) h
      refine congrArg (a ::ₘ ·) (ih _ ?_ ?_ ?_ hcancel rfl)
      · rw [← hcard]
        simp only [Multiset.card_add, Multiset.card_cons]
        omega
      · exact fun b hb => hm b (Multiset.mem_cons_of_mem hb)
      · exact fun b hb => hn b (Multiset.mem_cons_of_mem hb)

/-! ### Boxes -/

variable {ι : Type*} [Fintype ι] {d s : ι → ℕ} {n : ℕ}

/-- The offset of an index tuple. -/
def offset (s i : ι → ℕ) : ℕ := ∑ k, i k * s k

/-- The index tuples below the dimensions. -/
def box (d : ι → ℕ) : Set (ι → ℕ) := {i | ∀ k, i k < d k}

section

variable [DecidableEq ι]

lemma box_eq (d : ι → ℕ) : box d = ↑(Fintype.piFinset fun k => Finset.range (d k)) := by
  ext i
  simp [box]

lemma card_box (d : ι → ℕ) : (Fintype.piFinset fun k => Finset.range (d k)).card = ∏ k, d k := by
  simp

/-- The polynomial that counts the offsets. -/
lemma prod_geom_sum (d s : ι → ℕ) :
    ∏ k, ∑ j ∈ Finset.range (d k), (X ^ s k : ℂ[X]) ^ j
      = ∑ i ∈ Fintype.piFinset fun k => Finset.range (d k), X ^ offset s i := by
  rw [Finset.prod_univ_sum]
  refine Finset.sum_congr rfl fun i _ => ?_
  rw [offset, ← Finset.prod_pow_eq_pow_sum]
  refine Finset.prod_congr rfl fun k _ => ?_
  rw [← pow_mul, Nat.mul_comm]

/-- The counting polynomial of all numbers below `n`. -/
lemma coeff_geom_sum (n m : ℕ) :
    (∑ j ∈ Finset.range n, (X : ℂ[X]) ^ j).coeff m = if m < n then 1 else 0 := by
  simp [coeff_X_pow]

/-- The offsets are the numbers below `n`, each once, exactly if they are counted like these. -/
lemma bijOn_iff_prod_eq :
    Set.BijOn (offset s) (box d) (Set.Iio n) ↔
      ∏ k, ∑ j ∈ Finset.range (d k), (X ^ s k : ℂ[X]) ^ j = ∑ m ∈ Finset.range n, X ^ m := by
  rw [prod_geom_sum, box_eq]
  constructor
  · intro h
    refine Finset.sum_nbij (offset s) (fun i hi => ?_) h.injOn ?_ fun _ _ => rfl
    · exact Finset.mem_range.mpr (h.mapsTo hi)
    · rw [Finset.coe_range]
      exact h.surjOn
  · intro h
    have hcount : ∀ m, ((Finset.filter (fun i => m = offset s i)
        (Fintype.piFinset fun k => Finset.range (d k))).card : ℂ) = if m < n then 1 else 0 := by
      intro m
      rw [← coeff_geom_sum, ← h, finsetSum_coeff]
      simp only [coeff_X_pow]
      rw [Finset.sum_boole]
    refine ⟨fun i hi => ?_, fun i hi i' hi' heq => ?_, fun m hm => ?_⟩
    · by_contra hlt
      rw [Set.mem_Iio] at hlt
      have hzero := hcount (offset s i)
      rw [if_neg hlt, Nat.cast_eq_zero, Finset.card_eq_zero] at hzero
      exact Finset.notMem_empty i (hzero ▸ Finset.mem_filter.mpr ⟨hi, rfl⟩)
    · have hle := hcount (offset s i)
      have hcard : (Finset.filter (fun x => offset s i = offset s x)
          (Fintype.piFinset fun k => Finset.range (d k))).card ≤ 1 := by
        split_ifs at hle with hlt
        · exact (Nat.cast_eq_one.mp hle).le
        · rw [Nat.cast_eq_zero.mp hle]
          exact Nat.zero_le 1
      exact Finset.card_le_one.mp hcard i (Finset.mem_filter.mpr ⟨hi, rfl⟩) i'
        (Finset.mem_filter.mpr ⟨hi', heq⟩)
    · have hone := hcount m
      rw [if_pos (Set.mem_Iio.mp hm), Nat.cast_eq_one, Finset.card_eq_one] at hone
      obtain ⟨i, hi⟩ := hone
      have hmem := Finset.mem_filter.mp (hi ▸ Finset.mem_singleton_self i)
      exact ⟨i, hmem.1, hmem.2.symm⟩

/-- Distinct offsets below the volume are all of the numbers below it. -/
lemma bijOn_iff_injOn_and_mapsTo :
    Set.BijOn (offset s) (box d) (Set.Iio (∏ k, d k)) ↔
      Set.InjOn (offset s) (box d) ∧ Set.MapsTo (offset s) (box d) (Set.Iio (∏ k, d k)) := by
  refine ⟨fun h => ⟨h.injOn, h.mapsTo⟩, fun ⟨hinj, hmaps⟩ => ⟨hmaps, hinj, ?_⟩⟩
  rw [box_eq] at hinj hmaps ⊢
  rw [← Finset.coe_range] at hmaps ⊢
  refine Finset.surjOn_of_injOn_of_card_le _ hmaps hinj ?_
  rw [card_box, Finset.card_range]

end

/-- A box without an empty axis is numbered by the numbers below its volume exactly if the strides
together with the volume are the strides times the dimensions together with one. -/
theorem bijOn_iff (hd : ∀ k, 0 < d k) (hs : ∀ k, 0 < s k) :
    Set.BijOn (offset s) (box d) (Set.Iio (∏ k, d k)) ↔
      (∏ k, d k) ::ₘ Finset.univ.val.map s
        = 1 ::ₘ Finset.univ.val.map fun k => d k * s k := by
  classical
  have hpos : 0 < ∏ k, d k := Finset.prod_pos fun k _ => hd k
  have hstrides : oneSub (Finset.univ.val.map s) ≠ 0 := by
    refine oneSub_ne_zero fun a ha => ?_
    obtain ⟨k, _, rfl⟩ := Multiset.mem_map.mp ha
    exact hs k
  have hgeom : (∏ k, ∑ j ∈ Finset.range (d k), (X ^ s k : ℂ[X]) ^ j)
        * oneSub (Finset.univ.val.map s)
      = oneSub (Finset.univ.val.map fun k => d k * s k) := by
    rw [oneSub, oneSub, Multiset.map_map, Multiset.map_map]
    change _ * ∏ k, (1 - X ^ s k) = ∏ k, (1 - X ^ (d k * s k))
    rw [← Finset.prod_mul_distrib]
    refine Finset.prod_congr rfl fun k _ => ?_
    rw [geom_sum_mul_neg, ← pow_mul, Nat.mul_comm]
  have hrange : (∑ m ∈ Finset.range (∏ k, d k), (X : ℂ[X]) ^ m) * (1 - X ^ 1)
      = 1 - X ^ ∏ k, d k := by
    rw [pow_one, geom_sum_mul_neg]
  rw [bijOn_iff_prod_eq, ← oneSub_inj, oneSub_cons, oneSub_cons, ← hgeom, ← hrange, eq_comm,
    mul_comm (1 - X ^ 1 : ℂ[X]), mul_right_comm _ (oneSub _), mul_left_inj' hstrides,
    mul_left_inj' (one_sub_X_pow_ne_zero one_pos)]
  · intro a ha
    rcases Multiset.mem_cons.mp ha with rfl | ha
    · exact hpos
    · obtain ⟨k, _, rfl⟩ := Multiset.mem_map.mp ha
      exact hs k
  · intro a ha
    rcases Multiset.mem_cons.mp ha with rfl | ha
    · exact one_pos
    · obtain ⟨k, _, rfl⟩ := Multiset.mem_map.mp ha
      exact Nat.mul_pos (hd k) (hs k)

omit [Fintype ι] in
/-- A box with an empty axis is empty. -/
lemma box_eq_empty {k : ι} (hk : d k = 0) : box d = ∅ := by
  rw [Set.eq_empty_iff_forall_notMem]
  intro i hi
  have hlt := hi k
  omega

end MixedRadix
