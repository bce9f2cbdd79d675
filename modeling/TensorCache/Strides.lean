import Mathlib.Data.List.GetD
import TensorCache.ElementCounts
import TensorCache.Lib.MixedRadix

/-!
# Strides

The contiguous strides of a shape number its elements by the numbers below the element count, each
one once. Strides that are given are only checked for zeros and overflow: they number the elements
so exactly when they are contiguous in some order of the dimensions.
-/

namespace TensorCache

open Codec MixedRadix

/-! ### Contiguous strides -/

/-- The loop from the last dimension on, with the running product. -/
def rowMajorFrom : List UInt64 → Except Error (UInt64 × List UInt64)
  | [] => .ok (1, [])
  | d :: ds => do
    let (acc, strides) ← rowMajorFrom ds
    match checkedMul acc d with
    | some next => .ok (next, acc :: strides)
    | none => .error (.geometry "row-major stride overflow")

def rowMajorStrides (shape : Shape) : Except Error (List UInt64) := do
  let (_, strides) ← rowMajorFrom shape.dims
  .ok strides

/-- The loop from the first dimension on, with the running product. -/
def colMajorFrom (acc : UInt64) : List UInt64 → Except Error (List UInt64)
  | [] => .ok []
  | d :: ds =>
    match checkedMul acc d with
    | some next => do
      let strides ← colMajorFrom next ds
      .ok (acc :: strides)
    | none => .error (.geometry "column-major stride overflow")

def colMajorStrides (shape : Shape) : Except Error (List UInt64) := colMajorFrom 1 shape.dims

/-- The canonical stride vector for a contiguous layout of the given shape. -/
def Layout.contiguousStrides (l : Layout) (shape : Shape) : Except Error (List UInt64) :=
  match l with
  | .rowMajor => rowMajorStrides shape
  | .colMajor => colMajorStrides shape
  | .strided s => do
    (Layout.strided s).validate shape
    .ok s.val

/-! ### Elements -/

/-- The index tuples of a shape. -/
def Shape.indices (s : Shape) : Set (Fin s.rank → ℕ) := {i | ∀ k, i k < (s.dims.get k).toNat}

/-- The offset of an element, in elements. -/
def elementOffset (strides : List UInt64) {r : ℕ} (i : Fin r → ℕ) : ℕ :=
  ∑ k, i k * (strides.getD k 0).toNat

/-- The strides together with the element count are the strides times the dimensions together with
one: in some order of the dimensions the first stride is one and each further one is the product
of those before it. -/
def Chained (dims strides : List UInt64) : Prop :=
  (natProd dims :: strides.map UInt64.toNat).Perm
    (1 :: List.zipWith (fun d s => d.toNat * s.toNat) dims strides)

instance (dims strides : List UInt64) : Decidable (Chained dims strides) := List.decidablePerm _ _

variable {ds strides : List UInt64} {s : Shape} {n acc : UInt64}

lemma prod_dims (s : Shape) : ∏ k : Fin s.rank, (s.dims.get k).toNat = natProd s.dims := by
  rw [natProd, ← List.prod_ofFn]
  congr 1
  refine List.ext_getElem (by simp [Shape.rank]) fun k h h' => ?_
  rw [List.getElem_ofFn, List.getElem_map]
  rfl

/-- Without a zero, chained strides are those that number the elements. -/
theorem bijOn_iff_chained (hlen : strides.length = s.rank) (hd : 0 ∉ s.dims) (hs : 0 ∉ strides) :
    Set.BijOn (elementOffset strides) s.indices (Set.Iio (natProd s.dims)) ↔
      Chained s.dims strides := by
  have hdpos : ∀ k : Fin s.rank, 0 < (s.dims.get k).toNat := by
    intro k
    rw [Nat.pos_iff_ne_zero, ne_eq, toNat_eq_zero]
    exact fun hzero => hd (hzero ▸ List.get_mem _ _)
  have hspos : ∀ k : Fin s.rank, 0 < (strides.getD k 0).toNat := by
    intro k
    rw [Nat.pos_iff_ne_zero, ne_eq, toNat_eq_zero,
      List.getD_eq_getElem _ _ (k.isLt.trans_eq hlen.symm)]
    exact fun hzero => hs (hzero ▸ List.getElem_mem _)
  have hstrides : List.ofFn (fun k : Fin s.rank => (strides.getD k 0).toNat)
      = strides.map UInt64.toNat := by
    refine List.ext_getElem (by simp [hlen]) fun k h h' => ?_
    rw [List.length_map] at h'
    rw [List.getElem_ofFn, List.getElem_map, List.getD_eq_getElem _ _ h']
  have hproducts : List.ofFn (fun k : Fin s.rank => (s.dims.get k).toNat
        * (strides.getD k 0).toNat)
      = List.zipWith (fun d s => d.toNat * s.toNat) s.dims strides := by
    refine List.ext_getElem (by simp [hlen, Shape.rank]) fun k h h' => ?_
    rw [List.length_zipWith] at h'
    rw [List.getElem_ofFn, List.getElem_zipWith,
      List.getD_eq_getElem _ _ (lt_of_lt_of_le h' (min_le_right _ _))]
    rfl
  have h := bijOn_iff hdpos hspos
  rw [Fin.univ_val_map, Fin.univ_val_map, hstrides, hproducts, prod_dims, Multiset.cons_coe,
    Multiset.cons_coe, Multiset.coe_eq_coe] at h
  exact h

lemma indices_eq_empty (hzero : 0 ∈ s.dims) : s.indices = ∅ := by
  obtain ⟨k, hk⟩ := List.get_of_mem hzero
  have hempty : (s.dims.get k).toNat = 0 := toNat_eq_zero.mpr hk
  exact box_eq_empty hempty

/-! ### The loops -/

lemma rowMajorFrom_spec (hok : rowMajorFrom ds = .ok (acc, strides)) :
    acc.toNat = natProd ds ∧ strides.length = ds.length ∧ (0 ∉ ds → 0 ∉ strides) ∧
      Chained ds strides := by
  induction ds generalizing acc strides with
  | nil =>
    cases hok
    exact ⟨rfl, rfl, fun h => h, List.Perm.refl _⟩
  | cons d ds ih =>
    rw [rowMajorFrom] at hok
    obtain ⟨⟨acc', strides'⟩, hrest, hok⟩ := except_bind_eq_ok hok
    obtain ⟨hacc, hlen, hzero, hchain⟩ := ih hrest
    dsimp only at hok
    split at hok
    · rename_i next hnext
      cases hok
      have hnext := toNat_of_checkedMul hnext
      refine ⟨?_, congrArg (· + 1) hlen, fun hd => ?_, ?_⟩
      · rw [hnext, hacc, natProd_cons, Nat.mul_comm]
      · rw [List.mem_cons, not_or] at hd ⊢
        refine ⟨fun h => ?_, hzero hd.2⟩
        rw [← h, UInt64.toNat_zero, eq_comm, natProd_eq_zero] at hacc
        exact hd.2 hacc
      · rw [Chained, List.map_cons, List.zipWith_cons_cons, natProd_cons, ← hacc]
        rw [Chained, ← hacc] at hchain
        exact (hchain.cons _).trans (List.Perm.swap _ _ _)
    · cases hok

lemma checkedMul_isSome_iff {a b : UInt64} :
    (∃ c, checkedMul a b = some c) ↔ a.toNat * b.toNat < 2 ^ 64 := by
  constructor
  · rintro ⟨c, hc⟩
    exact toNat_of_checkedMul hc ▸ c.toNat_lt
  · intro hlt
    exact ⟨a * b, by rw [checkedMul, if_pos hlt]⟩

/-- Without a zero, the loop fails where the product of the dimensions overflows. -/
lemma rowMajorFrom_ok_iff (hd : 0 ∉ ds) :
    (∃ p, rowMajorFrom ds = .ok p) ↔ natProd ds < 2 ^ 64 := by
  induction ds with
  | nil => exact iff_of_true ⟨_, rfl⟩ (by decide)
  | cons d ds ih =>
    rw [List.mem_cons, not_or] at hd
    have hpos : 0 < d.toNat := Nat.pos_of_ne_zero fun h => hd.1 (toNat_eq_zero.mp h).symm
    constructor
    · rintro ⟨⟨acc, strides⟩, hok⟩
      exact (rowMajorFrom_spec hok).1 ▸ acc.toNat_lt
    · intro hlt
      rw [natProd_cons] at hlt
      obtain ⟨⟨acc, strides⟩, hrest⟩ :=
        (ih hd.2).mpr (lt_of_le_of_lt (Nat.le_mul_of_pos_left _ hpos) hlt)
      rw [← (rowMajorFrom_spec hrest).1, Nat.mul_comm] at hlt
      obtain ⟨next, hnext⟩ := checkedMul_isSome_iff.mpr hlt
      refine ⟨(next, acc :: strides), ?_⟩
      rw [rowMajorFrom, hrest]
      simp only [bind, Except.bind, hnext]

lemma colMajorFrom_spec (hok : colMajorFrom acc ds = .ok strides) :
    strides.length = ds.length ∧ (0 ∉ ds → acc ≠ 0 → 0 ∉ strides) ∧
      acc.toNat * natProd ds < 2 ^ 64 ∧
      (acc.toNat * natProd ds :: strides.map UInt64.toNat).Perm
        (acc.toNat :: List.zipWith (fun d s => d.toNat * s.toNat) ds strides) := by
  induction ds generalizing acc strides with
  | nil =>
    cases hok
    rw [natProd_nil, Nat.mul_one]
    exact ⟨rfl, fun h _ => h, acc.toNat_lt, List.Perm.refl _⟩
  | cons d ds ih =>
    rw [colMajorFrom] at hok
    split at hok
    · rename_i next hnext
      obtain ⟨strides', hrest, hok⟩ := except_bind_eq_ok hok
      cases hok
      have hnext := toNat_of_checkedMul hnext
      obtain ⟨hlen, hzero, hlt, hchain⟩ := ih hrest
      rw [hnext, Nat.mul_assoc, ← natProd_cons] at hlt hchain
      refine ⟨congrArg (· + 1) hlen, fun hd hacc => ?_, hlt, ?_⟩
      · rw [List.mem_cons, not_or] at hd ⊢
        refine ⟨Ne.symm hacc, hzero hd.2 fun h => ?_⟩
        rw [h, UInt64.toNat_zero, eq_comm, Nat.mul_eq_zero, toNat_eq_zero, toNat_eq_zero] at hnext
        exact hnext.elim hacc fun h => hd.1 h.symm
      · rw [List.map_cons, List.zipWith_cons_cons, Nat.mul_comm d.toNat]
        exact (List.Perm.swap _ _ _).trans (hchain.cons _)
    · cases hok

lemma colMajorFrom_ok_iff (hd : 0 ∉ ds) :
    (∃ strides, colMajorFrom acc ds = .ok strides) ↔ acc.toNat * natProd ds < 2 ^ 64 := by
  constructor
  · rintro ⟨strides, hok⟩
    exact (colMajorFrom_spec hok).2.2.1
  · intro hlt
    induction ds generalizing acc with
    | nil => exact ⟨[], rfl⟩
    | cons d ds ih =>
      rw [List.mem_cons, not_or] at hd
      rw [natProd_cons, ← Nat.mul_assoc] at hlt
      obtain ⟨next, hnext⟩ := checkedMul_isSome_iff.mpr
        (lt_of_le_of_lt (Nat.le_mul_of_pos_right _ (natProd_pos hd.2)) hlt)
      rw [← toNat_of_checkedMul hnext] at hlt
      obtain ⟨strides, hrest⟩ := ih hd.2 hlt
      refine ⟨acc :: strides, ?_⟩
      rw [colMajorFrom, hnext]
      dsimp only
      rw [hrest]
      rfl

/-! ### Contiguous layouts -/

/-- The offset check fails only where the largest offset overflows. -/
lemma maxOffset_ok {ps : List (UInt64 × UInt64)} (hd : ∀ p ∈ ps, p.1 ≠ 0)
    (hlt : acc.toNat + (ps.map fun p => (p.1.toNat - 1) * p.2.toNat).sum < 2 ^ 64) :
    ∃ m, Layout.maxOffset acc ps = .ok m := by
  induction ps generalizing acc with
  | nil => exact ⟨acc, rfl⟩
  | cons p ps ih =>
    obtain ⟨d, s⟩ := p
    have hne : d ≠ 0 := hd (d, s) (List.mem_cons_self ..)
    have hpred : (d - 1).toNat = d.toNat - 1 := by
      have hpos : 1 ≤ d.toNat := Nat.pos_of_ne_zero fun h => hne (toNat_eq_zero.mp h)
      have hle : 1 ≤ d := UInt64.le_iff_toNat_le.mpr hpos
      rw [UInt64.toNat_sub_of_le _ _ hle]
      rfl
    rw [List.map_cons, List.sum_cons, ← Nat.add_assoc] at hlt
    dsimp only at hlt
    rw [← hpred] at hlt
    obtain ⟨off, hoff⟩ := checkedMul_isSome_iff.mpr
      (show (d - 1).toNat * s.toNat < 2 ^ 64 by omega)
    rw [← toNat_of_checkedMul hoff] at hlt
    have hadd : checkedAdd acc off = some (acc + off) := by
      rw [checkedAdd, if_pos (by omega)]
    have hsum : (acc + off).toNat = acc.toNat + off.toNat := by
      rw [UInt64.toNat_add, Nat.mod_eq_of_lt (by omega)]
    rw [Layout.maxOffset, if_neg hne, hoff]
    dsimp only
    rw [hadd]
    refine ih (fun p hp => hd p (List.mem_cons_of_mem _ hp)) ?_
    rwa [hsum]

lemma sum_pred_mul (dims strides : List UInt64) (hd : 0 ∉ dims)
    (hlen : strides.length = dims.length) :
    ((dims.zip strides).map fun p => (p.1.toNat - 1) * p.2.toNat).sum
        + (strides.map UInt64.toNat).sum
      = (List.zipWith (fun d s => d.toNat * s.toNat) dims strides).sum := by
  induction dims generalizing strides with
  | nil =>
    cases List.length_eq_zero_iff.mp hlen
    rfl
  | cons d dims ih =>
    cases strides with
    | nil => cases hlen
    | cons s strides =>
      rw [List.mem_cons, not_or] at hd
      have hpos : 1 ≤ d.toNat := Nat.pos_of_ne_zero fun h => hd.1 (toNat_eq_zero.mp h).symm
      have hmul : (d.toNat - 1) * s.toNat + s.toNat = d.toNat * s.toNat := by
        rw [Nat.sub_one_mul, Nat.sub_add_cancel (Nat.le_mul_of_pos_left _ hpos)]
      rw [List.zip_cons_cons, List.map_cons, List.map_cons, List.zipWith_cons_cons,
        List.sum_cons, List.sum_cons, List.sum_cons,
        ← ih strides hd.2 (Nat.succ_injective hlen), ← hmul]
      dsimp only
      omega

/-- Chained strides pass the checks. -/
lemma validate_of_chained {v : Vec UInt64} (hlen : v.val.length = s.rank) (hd : 0 ∉ s.dims)
    (hs : 0 ∉ v.val) (hlt : natProd s.dims < 2 ^ 64) (hchain : Chained s.dims v.val) :
    (Layout.strided v).validate s = .ok () := by
  have hsum := hchain.sum_eq
  rw [List.sum_cons, List.sum_cons, ← sum_pred_mul _ _ hd hlen] at hsum
  obtain ⟨m, hm⟩ : ∃ m, Layout.maxOffset 0 (s.dims.zip v.val) = .ok m := by
    refine maxOffset_ok (fun p hp hzero => hd ?_) ?_
    · exact hzero ▸ (List.of_mem_zip hp).1
    · rw [UInt64.toNat_zero]
      omega
  rw [Layout.validate, if_neg (not_not.mpr hlen), if_neg hs, hm]
  rfl

/-- What the contiguous strides of a shape do. -/
structure Contiguous (l : Layout) (s : Shape) : Prop where
  bijOn : ∀ n strides, s.numel = .ok n → l.contiguousStrides s = .ok strides →
    Set.BijOn (elementOffset strides) s.indices (Set.Iio n.toNat)
  ok_iff : 0 ∉ s.dims →
    ((∃ strides, l.contiguousStrides s = .ok strides) ↔ ∃ n, s.numel = .ok n)
  validates : 0 ∉ s.dims → ∀ strides, l.contiguousStrides s = .ok strides →
    ∃ v : Vec UInt64, v.val = strides ∧ (Layout.strided v).validate s = .ok ()

/-- Layouts whose strides are chained and exist where the element count does. -/
lemma contiguous_of_chained {l : Layout}
    (hspec : ∀ strides, l.contiguousStrides s = .ok strides →
      strides.length = s.rank ∧ (0 ∉ s.dims → 0 ∉ strides) ∧ Chained s.dims strides)
    (hok : 0 ∉ s.dims →
      ((∃ strides, l.contiguousStrides s = .ok strides) ↔ natProd s.dims < 2 ^ 64)) :
    Contiguous l s := by
  refine ⟨fun n strides hn hstrides => ?_, fun hd => ?_, fun hd strides hstrides => ?_⟩
  · obtain ⟨hlen, hzero, hchain⟩ := hspec strides hstrides
    rw [← (Shape.numel_ok_iff.mp hn).1]
    by_cases hd : 0 ∈ s.dims
    · rw [indices_eq_empty hd, natProd_eq_zero.mpr hd, ← bot_eq_zero, Set.Iio_bot]
      exact Set.bijOn_empty _
    · exact (bijOn_iff_chained hlen hd (hzero hd)).mpr hchain
  · rw [hok hd]
    constructor
    · intro hlt
      exact ⟨_, by rw [Shape.numel_eq, beforeZero_eq hd, if_pos hlt]⟩
    · rintro ⟨n, hn⟩
      exact (Shape.numel_ok_iff.mp hn).1 ▸ n.toNat_lt
  · obtain ⟨hlen, hzero, hchain⟩ := hspec strides hstrides
    have hsmall : strides.length < 2 ^ 64 := by
      rw [hlen]
      exact lt_of_le_of_lt s.rank_le (by decide)
    exact ⟨⟨strides, hsmall⟩, rfl,
      validate_of_chained hlen hd (hzero hd) ((hok hd).mp ⟨strides, hstrides⟩) hchain⟩

/-- Row-major and column-major strides number the elements, exist where the element count does
and make a valid layout. -/
theorem contiguous_strides_exact (s : Shape) :
    Contiguous .rowMajor s ∧ Contiguous .colMajor s := by
  constructor
  · refine contiguous_of_chained (fun strides hok => ?_) fun hd => ?_
    · obtain ⟨⟨acc, strides'⟩, hfrom, hstrides⟩ := except_bind_eq_ok hok
      cases hstrides
      exact (rowMajorFrom_spec hfrom).2
    · rw [← rowMajorFrom_ok_iff hd]
      constructor
      · rintro ⟨strides, hok⟩
        obtain ⟨p, hfrom, -⟩ := except_bind_eq_ok hok
        exact ⟨p, hfrom⟩
      · rintro ⟨p, hfrom⟩
        refine ⟨p.2, ?_⟩
        rw [Layout.contiguousStrides, rowMajorStrides, hfrom]
        rfl
  · refine contiguous_of_chained (fun strides hok => ?_) fun hd => ?_
    · obtain ⟨hlen, hzero, -, hchain⟩ := colMajorFrom_spec hok
      rw [UInt64.toNat_one, Nat.one_mul] at hchain
      exact ⟨hlen, fun hd => hzero hd (by decide), hchain⟩
    · have hiff : (∃ strides, colMajorFrom 1 s.dims = .ok strides) ↔
          (1 : UInt64).toNat * natProd s.dims < 2 ^ 64 := colMajorFrom_ok_iff hd
      rwa [UInt64.toNat_one, Nat.one_mul] at hiff

/-! ### Given strides -/

/-- A strided layout as a payload needs it: distinct elements lie at distinct offsets below the
element count, so the bytes of the tensor contain each of them. -/
structure Dense (s : Shape) (strides : List UInt64) (n : UInt64) : Prop where
  distinct : Set.InjOn (elementOffset strides) s.indices
  below : ∀ i ∈ s.indices, elementOffset strides i < n.toNat
  contained : ∀ (dtype : Dtype) b, s.byteLen dtype.byteSize = .ok b → ∀ i ∈ s.indices,
    (elementOffset strides i + 1) * dtype.byteSize.toNat ≤ b.toNat

/-- What the checks of a strided layout leave. -/
lemma of_validate {v : Vec UInt64} (hv : (Layout.strided v).validate s = .ok ()) :
    v.val.length = s.rank ∧ 0 ∉ v.val := by
  rw [Layout.validate] at hv
  split_ifs at hv with hlen hzero
  exact ⟨not_not.mp hlen, hzero⟩

lemma dense_iff_bijOn (hn : s.numel = .ok n) :
    Dense s strides n ↔ Set.BijOn (elementOffset strides) s.indices (Set.Iio n.toNat) := by
  have hprod := (Shape.numel_ok_iff.mp hn).1
  rw [← hprod]
  have hbij : Set.BijOn (elementOffset strides) s.indices (Set.Iio (natProd s.dims)) ↔
      Set.InjOn (elementOffset strides) s.indices ∧
        Set.MapsTo (elementOffset strides) s.indices (Set.Iio (natProd s.dims)) := by
    rw [← prod_dims]
    exact bijOn_iff_injOn_and_mapsTo
  rw [hbij]
  constructor
  · intro h
    exact ⟨h.distinct, fun i hi => hprod ▸ h.below i hi⟩
  · rintro ⟨hinj, hmaps⟩
    refine ⟨hinj, fun i hi => hprod ▸ hmaps hi, fun dtype b hb i hi => ?_⟩
    have hbytes : natProd s.dims * dtype.byteSize.toNat = b.toNat := by
      cases dtype <;> exact ((Shape.byteLen_ok_iff (by decide) (by decide)).mp hb).1
    rw [← hbytes]
    exact Nat.mul_le_mul_right _ (hmaps hi)

/-- A valid strided layout is dense and free of aliases exactly if a dimension is zero or the
strides are contiguous in some order of the dimensions. -/
theorem strided_dense_iff {v : Vec UInt64} (hn : s.numel = .ok n)
    (hv : (Layout.strided v).validate s = .ok ()) :
    Dense s v.val n ↔ 0 ∈ s.dims ∨ Chained s.dims v.val := by
  obtain ⟨hlen, hs⟩ := of_validate hv
  rw [dense_iff_bijOn hn, ← (Shape.numel_ok_iff.mp hn).1]
  by_cases hd : 0 ∈ s.dims
  · rw [indices_eq_empty hd, natProd_eq_zero.mpr hd, ← bot_eq_zero, Set.Iio_bot]
    exact iff_of_true (Set.bijOn_empty _) (Or.inl hd)
  · rw [bijOn_iff_chained hlen hd hs, or_iff_right hd]

theorem columns_dense : Dense ⟨[2, 3], by decide, by decide⟩ [1, 2] 6 :=
  (strided_dense_iff (s := ⟨[2, 3], by decide, by decide⟩) (v := ⟨[1, 2], by decide⟩) (n := 6)
    rfl rfl).mpr (Or.inr (by decide))

/-- Strides of one on a square pass the checks, and two elements share an offset. -/
theorem strided_aliases :
    (Layout.strided ⟨[1, 1], by decide⟩).validate ⟨[2, 2], by decide, by decide⟩ = .ok () ∧
      ¬ Dense ⟨[2, 2], by decide, by decide⟩ [1, 1] 4 := by
  refine ⟨rfl, fun h => ?_⟩
  have hright : ∀ k : Fin 2, ![0, 1] k < (([2, 2] : List UInt64).get k).toNat := by decide
  have hdown : ∀ k : Fin 2, ![1, 0] k < (([2, 2] : List UInt64).get k).toNat := by decide
  have hsame : ![0, 1] = ![1, 0] := h.distinct hright hdown rfl
  exact absurd hsame (by decide)

end TensorCache
