import TensorCache.Policy

/-!
# Eviction order and keep-scores

Eviction candidates come from a hash map, in any order. Their eviction order depends only on the
candidates themselves, and an eviction plan is its shortest prefix that frees enough
(`eviction_canonical`). The keep-score that decides the order is computed in `i64` with casts and
additions that wrap; `keepScore_monotone_iff` says exactly when it ranks as it should.
-/

namespace TensorCache

variable {policy : EvictionPolicy}

/-! ### The order -/

instance (policy : EvictionPolicy) : Std.Total (evictsBefore policy) where
  total a b := by
    rcases lt_trichotomy (keepScore policy a) (keepScore policy b) with h | h | h
    · exact Or.inl (Or.inl h)
    · exact (List.le_total a.objectId.bytes b.objectId.bytes).imp (fun hle => Or.inr ⟨h, hle⟩)
        fun hle => Or.inr ⟨h.symm, hle⟩
    · exact Or.inr (Or.inl h)

instance (policy : EvictionPolicy) : IsTrans Evictable (evictsBefore policy) where
  trans a b c hab hbc := by
    rcases hab with hab | ⟨hab, hids⟩
    · rcases hbc with hbc | ⟨hbc, -⟩
      · exact Or.inl (hab.trans hbc)
      · exact Or.inl (hbc ▸ hab)
    · rcases hbc with hbc | ⟨hbc, hids'⟩
      · exact Or.inl (hab ▸ hbc)
      · exact Or.inr ⟨hab.trans hbc, List.le_trans hids hids'⟩

/-- Candidates that come before each other have the same object id. -/
lemma objectId_eq_of_evictsBefore {a b : Evictable} (hab : evictsBefore policy a b)
    (hba : evictsBefore policy b a) : a.objectId = b.objectId := by
  rcases hab with hab | ⟨hscore, hids⟩
  · rcases hba with hba | ⟨hba, -⟩
    · exact absurd hab (not_lt.mpr hba.le)
    · exact absurd hab (hba ▸ lt_irrefl _)
  · rcases hba with hba | ⟨-, hids'⟩
    · exact absurd hba (hscore ▸ lt_irrefl _)
    · exact Str.bytes_injective (List.le_antisymm hids hids')

lemma evictionOrder_perm (entries : List Evictable) :
    (evictionOrder policy entries).Perm entries :=
  List.perm_insertionSort _ _

lemma evictionOrder_pairwise (entries : List Evictable) :
    (evictionOrder policy entries).Pairwise (evictsBefore policy) :=
  List.pairwise_insertionSort _ _

/-- The order of the candidates does not matter, as long as their ids are distinct. -/
lemma evictionOrder_congr (policy : EvictionPolicy) {entries entries' : List Evictable}
    (hperm : entries.Perm entries')
    (hids : (entries.map Evictable.objectId).Nodup) :
    evictionOrder policy entries' = evictionOrder policy entries := by
  refine List.Perm.eq_of_pairwise (fun a b ha hb hab hba => ?_) (evictionOrder_pairwise entries')
    (evictionOrder_pairwise entries)
    (((evictionOrder_perm entries').trans hperm.symm).trans (evictionOrder_perm entries).symm)
  have ha' : a ∈ entries := hperm.mem_iff.mpr (mem_evictionOrder.mp ha)
  exact List.inj_on_of_nodup_map hids ha' (mem_evictionOrder.mp hb)
    (objectId_eq_of_evictsBefore hab hba)

/-! ### Plans -/

/-- The bytes of candidates, in unbounded arithmetic. -/
def totalBytes (entries : List Evictable) : ℕ := (entries.map Evictable.bytes).sum

@[simp] lemma totalBytes_nil : totalBytes [] = 0 := rfl

@[simp] lemma totalBytes_cons (e : Evictable) (entries : List Evictable) :
    totalBytes (e :: entries) = e.bytes + totalBytes entries := by
  simp [totalBytes]

/-- `p` is the shortest prefix of `entries` with at least `need` bytes, or all of it if there is
no such prefix. -/
structure ShortestPrefix (need : ℕ) (entries p : List Evictable) : Prop where
  isPrefix : p <+: entries
  enough : need ≤ totalBytes p ∨ p = entries
  shortest : ∀ q, q <+: entries → need ≤ totalBytes q → p <+: q

lemma shortestPrefix_evictUntil (need : ℕ) (entries : List Evictable) :
    ShortestPrefix need entries (evictUntil need entries) := by
  induction entries generalizing need with
  | nil => exact ⟨List.prefix_rfl, Or.inr rfl, fun q _ _ => List.nil_prefix⟩
  | cons e entries ih =>
    rw [evictUntil]
    split_ifs with hneed
    · refine ⟨?_, Or.inl (by simp [hneed]), fun q _ _ => List.nil_prefix⟩
      exact List.nil_prefix
    · obtain ⟨hpre, henough, hshort⟩ := ih (need - e.bytes)
      refine ⟨List.prefix_cons_inj e |>.mpr hpre, ?_, fun q hq hqneed => ?_⟩
      · refine henough.imp (fun h => ?_) fun h => by rw [h]
        rw [totalBytes_cons]
        omega
      · cases q with
        | nil => exact absurd hqneed (by simpa using hneed)
        | cons c q =>
          obtain ⟨rfl, hrest⟩ := List.cons_prefix_cons.mp hq
          rw [totalBytes_cons] at hqneed
          exact List.prefix_cons_inj c |>.mpr (hshort q hrest (by omega))

/-- Eviction planning is canonical and minimal. -/
theorem eviction_canonical (policy : EvictionPolicy) {entries entries' : List Evictable}
    (hids : (entries.map Evictable.objectId).Nodup) (hperm : entries.Perm entries') :
    evictionOrder policy entries' = evictionOrder policy entries ∧
      (evictionOrder policy entries).Perm entries ∧
      (evictionOrder policy entries).Pairwise (evictsBefore policy) ∧
      ∀ used capacity,
        evictionPlan policy entries' used capacity = evictionPlan policy entries used capacity ∧
        ShortestPrefix (used - capacity) (evictionOrder policy entries)
          (evictionPlan policy entries used capacity) ∧
        (used ≤ capacity → evictionPlan policy entries used capacity = []) := by
  have horder := evictionOrder_congr policy hperm hids
  refine ⟨horder, evictionOrder_perm entries, evictionOrder_pairwise entries,
    fun used capacity => ⟨?_, shortestPrefix_evictUntil _ _, fun hle => ?_⟩⟩
  · rw [evictionPlan, evictionPlan, horder]
  · have hplan := shortestPrefix_evictUntil (used - capacity) (evictionOrder policy entries)
    refine List.prefix_nil.mp (hplan.shortest [] List.nil_prefix ?_)
    rw [totalBytes_nil]
    omega

/-- An entry that has never been used. -/
def unused (objectId : Str) : Evictable where
  objectId := objectId
  bytes := 0
  reuseCount := 0
  ageSeconds := 0
  reconstructionCostNs := 0
  priority := 0
  durable := false

theorem eviction_canonical_two :
    evictionOrder {} [unused (.lit "b"), unused (.lit "a")]
        = evictionOrder {} [unused (.lit "a"), unused (.lit "b")] ∧
      evictionPlan {} [unused (.lit "b"), unused (.lit "a")] 1 0
        = evictionPlan {} [unused (.lit "a"), unused (.lit "b")] 1 0 := by
  have hids : ([unused (.lit "a"), unused (.lit "b")].map Evictable.objectId).Nodup := by decide
  have h := eviction_canonical {} hids (List.Perm.swap (unused (.lit "b")) (unused (.lit "a")) [])
  exact ⟨h.1, (h.2.2.2 1 0).1⟩

/-! ### Keep-scores -/

/-- The values of `i64`. -/
def InI64 (x : ℤ) : Prop := -2 ^ 63 ≤ x ∧ x < 2 ^ 63

lemma toI64_of_inI64 {x : ℤ} (h : InI64 x) : toI64 x = x := by
  obtain ⟨hlow, hhigh⟩ := h
  rw [toI64, Int.bmod_eq_of_le]
  · omega
  · omega

lemma inI64_saturatingMulI64 (a b : ℤ) : InI64 (saturatingMulI64 a b) := by
  unfold saturatingMulI64 InI64
  omega

/-- The terms that `keep_score` adds up, in order. -/
def keepTerms (policy : EvictionPolicy) (e : Evictable) : List ℤ :=
  [saturatingMulI64 (toI64 e.reuseCount) (toI64 policy.reuseWeight.toNat),
    saturatingMulI64 (toI64 e.reconstructionCostNs) (toI64 policy.reconstructWeight.toNat),
    -saturatingMulI64 (toI64 e.ageSeconds) (toI64 policy.ageWeight.toNat),
    -saturatingMulI64 ((toI64 e.bytes).tdiv 1024) (toI64 policy.sizeWeight.toNat)] ++
  (if e.durable then [toI64 policy.durableBonus.toNat] else []) ++
  [saturatingMulI64 (toI64 e.priority) (toI64 policy.priorityWeight.toNat)]

/-- The additions of `keep_score`, for any terms of which the first is a value of `i64`. -/
lemma foldl_terms {t₁ : ℤ} (h : toI64 t₁ = t₁) (t₂ t₃ t₄ t₅ t₆ : ℤ) (durable : Bool) :
    ([t₁, t₂, -t₃, -t₄] ++ (if durable then [t₅] else []) ++ [t₆]).foldl
        (fun score t => toI64 (score + t)) 0
      = toI64 ((if durable then toI64 (toI64 (toI64 (toI64 (t₁ + t₂) - t₃) - t₄) + t₅)
          else toI64 (toI64 (toI64 (t₁ + t₂) - t₃) - t₄)) + t₆) := by
  cases durable with
  | true => simp [h, sub_eq_add_neg]
  | false => simp [h, sub_eq_add_neg]

lemma keepScore_eq_foldl (policy : EvictionPolicy) (e : Evictable) :
    keepScore policy e = (keepTerms policy e).foldl (fun score t => toI64 (score + t)) 0 :=
  (foldl_terms (toI64_of_inI64 (inI64_saturatingMulI64 _ _)) _ _ _ _ _ e.durable).symm

instance (x : ℤ) : Decidable (InI64 x) := inferInstanceAs (Decidable (_ ∧ _))

/-- Adding terms to a score one after the other in `i64` does not overflow. -/
def AddsInRange (score : ℤ) : List ℤ → Prop
  | [] => True
  | t :: ts => InI64 (score + t) ∧ AddsInRange (toI64 (score + t)) ts

instance AddsInRange.decidable (score : ℤ) (ts : List ℤ) : Decidable (AddsInRange score ts) :=
  match ts with
  | [] => isTrue trivial
  | t :: ts =>
    let _ := AddsInRange.decidable (toI64 (score + t)) ts
    inferInstanceAs (Decidable (_ ∧ _))

/-- No addition of `keep_score` overflows. -/
def ScoresInRange (policy : EvictionPolicy) (e : Evictable) : Prop :=
  AddsInRange 0 (keepTerms policy e)

instance (policy : EvictionPolicy) (e : Evictable) : Decidable (ScoresInRange policy e) :=
  inferInstanceAs (Decidable (AddsInRange _ _))

/-- All running totals of the saturated products of fields and weights are values of `i64`. -/
def TotalsInRange (policy : EvictionPolicy) (e : Evictable) : Prop :=
  ∀ n, InI64 ((keepTerms policy e).take n).sum

lemma addsInRange_iff {score : ℤ} (hscore : InI64 score) (ts : List ℤ) :
    AddsInRange score ts ↔ ∀ n, InI64 (score + (ts.take n).sum) := by
  induction ts generalizing score with
  | nil => simpa [AddsInRange] using hscore
  | cons t ts ih =>
    rw [AddsInRange]
    constructor
    · rintro ⟨hhere, hrest⟩ n
      rw [toI64_of_inI64 hhere, ih hhere] at hrest
      cases n with
      | zero => simpa using hscore
      | succ n => simpa [add_assoc] using hrest n
    · intro hall
      have hhere : InI64 (score + t) := by simpa using hall 1
      refine ⟨hhere, ?_⟩
      rw [toI64_of_inI64 hhere, ih hhere]
      exact fun n => by simpa [add_assoc] using hall (n + 1)

lemma foldl_of_addsInRange {score : ℤ} {ts : List ℤ} (h : AddsInRange score ts) :
    ts.foldl (fun score t => toI64 (score + t)) score = score + ts.sum := by
  induction ts generalizing score with
  | nil => simp
  | cons t ts ih =>
    obtain ⟨hhere, hrest⟩ := h
    rw [List.foldl_cons, ih hrest, toI64_of_inI64 hhere, List.sum_cons, add_assoc]

lemma scoresInRange_iff (policy : EvictionPolicy) (e : Evictable) :
    ScoresInRange policy e ↔ TotalsInRange policy e := by
  rw [ScoresInRange, addsInRange_iff ⟨by norm_num, by norm_num⟩]
  simp [TotalsInRange]

/-- Without overflow the score is the sum of the terms. -/
lemma keepScore_of_inRange {e : Evictable} (h : ScoresInRange policy e) :
    keepScore policy e = (keepTerms policy e).sum := by
  rw [keepScore_eq_foldl, foldl_of_addsInRange h, zero_add]

/-- Going from `s` to `s'` under the weight `w`, in signed arithmetic: the value does not move
against the sign of the weight, unless both products saturate at the same end. -/
def Steady (w s s' : ℤ) : Prop :=
  (0 ≤ w ∧ s ≤ s') ∨ (w ≤ 0 ∧ s' ≤ s) ∨ (2 ^ 63 - 1 ≤ s * w ∧ 2 ^ 63 - 1 ≤ s' * w) ∨
    (s * w ≤ -2 ^ 63 ∧ s' * w ≤ -2 ^ 63)

lemma Steady.rfl {w s : ℤ} : Steady w s s :=
  (le_total 0 w).imp (fun h => ⟨h, le_rfl⟩) fun h => Or.inl ⟨h, le_rfl⟩

/-- The saturated product does not go down exactly if the value is steady. -/
lemma saturatingMulI64_le_iff (w s s' : ℤ) :
    saturatingMulI64 s w ≤ saturatingMulI64 s' w ↔ Steady w s s' := by
  have hsat : saturatingMulI64 s w ≤ saturatingMulI64 s' w ↔
      s * w ≤ s' * w ∨ (2 ^ 63 - 1 ≤ s * w ∧ 2 ^ 63 - 1 ≤ s' * w) ∨
        (s * w ≤ -2 ^ 63 ∧ s' * w ≤ -2 ^ 63) := by
    unfold saturatingMulI64
    omega
  have hmul : s * w ≤ s' * w ↔ (0 ≤ w ∧ s ≤ s') ∨ (w ≤ 0 ∧ s' ≤ s) := by
    rcases lt_trichotomy w 0 with hw | hw | hw
    · rw [mul_le_mul_right_of_neg hw]
      constructor
      · exact fun h => Or.inr ⟨hw.le, h⟩
      · rintro (⟨h, -⟩ | ⟨-, h⟩)
        · omega
        · exact h
    · subst hw
      simp [le_total]
    · rw [mul_le_mul_iff_of_pos_right hw]
      constructor
      · exact fun h => Or.inl ⟨hw.le, h⟩
      · rintro (⟨-, h⟩ | ⟨h, -⟩)
        · exact h
        · omega
  rw [hsat, hmul, Steady, or_assoc]

/-- `e'` differs from `e` in one field, in a way that should not lower its keep-score. -/
inductive Improves : Evictable → Evictable → Prop where
  | reuseCount {e : Evictable} {n : ℕ} (h : e.reuseCount ≤ n) :
      Improves e { e with reuseCount := n }
  | reconstructionCostNs {e : Evictable} {n : ℕ} (h : e.reconstructionCostNs ≤ n) :
      Improves e { e with reconstructionCostNs := n }
  | priority {e : Evictable} {n : ℕ} (h : e.priority ≤ n) : Improves e { e with priority := n }
  | durable {e : Evictable} : Improves e { e with durable := true }
  | ageSeconds {e : Evictable} {n : ℕ} (h : e.ageSeconds ≤ n) :
      Improves { e with ageSeconds := n } e
  | bytes {e : Evictable} {n : ℕ} (h : e.bytes ≤ n) : Improves { e with bytes := n } e

/-- Read as signed numbers, no field moves against its weight from `e` to `e'`; for age and size,
which count against an entry, from `e'` to `e`. -/
structure SteadyStep (policy : EvictionPolicy) (e e' : Evictable) : Prop where
  reuseCount : Steady (toI64 policy.reuseWeight.toNat) (toI64 e.reuseCount) (toI64 e'.reuseCount)
  reconstructionCostNs : Steady (toI64 policy.reconstructWeight.toNat)
    (toI64 e.reconstructionCostNs) (toI64 e'.reconstructionCostNs)
  ageSeconds : Steady (toI64 policy.ageWeight.toNat) (toI64 e'.ageSeconds) (toI64 e.ageSeconds)
  bytes : Steady (toI64 policy.sizeWeight.toNat) ((toI64 e'.bytes).tdiv 1024)
    ((toI64 e.bytes).tdiv 1024)
  durable : e.durable = false → e'.durable = true → 0 ≤ toI64 policy.durableBonus.toNat
  priority : Steady (toI64 policy.priorityWeight.toNat) (toI64 e.priority) (toI64 e'.priority)

lemma sum_terms (t₁ t₂ t₃ t₄ t₅ t₆ : ℤ) (durable : Bool) :
    ([t₁, t₂, -t₃, -t₄] ++ (if durable then [t₅] else []) ++ [t₆]).sum
      = t₁ + t₂ - t₃ - t₄ + (if durable then t₅ else 0) + t₆ := by
  cases durable with
  | true =>
    simp only [if_true, List.sum_append, List.sum_cons, List.sum_nil]
    ring
  | false =>
    simp only [Bool.false_eq_true, if_false, List.sum_append, List.sum_cons, List.sum_nil]
    ring

lemma sum_keepTerms (policy : EvictionPolicy) (e : Evictable) :
    (keepTerms policy e).sum
      = saturatingMulI64 (toI64 e.reuseCount) (toI64 policy.reuseWeight.toNat)
        + saturatingMulI64 (toI64 e.reconstructionCostNs) (toI64 policy.reconstructWeight.toNat)
        - saturatingMulI64 (toI64 e.ageSeconds) (toI64 policy.ageWeight.toNat)
        - saturatingMulI64 ((toI64 e.bytes).tdiv 1024) (toI64 policy.sizeWeight.toNat)
        + (if e.durable then toI64 policy.durableBonus.toNat else 0)
        + saturatingMulI64 (toI64 e.priority) (toI64 policy.priorityWeight.toNat) :=
  sum_terms _ _ _ _ _ _ e.durable

/-- The exact sum ranks an improvement right exactly if the step is steady. -/
lemma sum_keepTerms_le_iff {e e' : Evictable} (h : Improves e e') :
    (keepTerms policy e).sum ≤ (keepTerms policy e').sum ↔ SteadyStep policy e e' := by
  rw [sum_keepTerms, sum_keepTerms]
  cases h with
  | reuseCount h =>
    simp only [add_le_add_iff_right, sub_le_sub_iff_right, saturatingMulI64_le_iff]
    exact ⟨fun h => ⟨h, .rfl, .rfl, .rfl, by simp_all, .rfl⟩, fun h => h.reuseCount⟩
  | reconstructionCostNs h =>
    simp only [add_le_add_iff_right, sub_le_sub_iff_right, add_le_add_iff_left,
      saturatingMulI64_le_iff]
    exact ⟨fun h => ⟨.rfl, h, .rfl, .rfl, by simp_all, .rfl⟩, fun h => h.reconstructionCostNs⟩
  | priority h =>
    simp only [add_le_add_iff_left, saturatingMulI64_le_iff]
    exact ⟨fun h => ⟨.rfl, .rfl, .rfl, .rfl, by simp_all, h⟩, fun h => h.priority⟩
  | durable =>
    simp only [add_le_add_iff_right, add_le_add_iff_left, if_true]
    constructor
    · intro hle
      refine ⟨.rfl, .rfl, .rfl, .rfl, fun hfalse _ => ?_, .rfl⟩
      simpa [hfalse] using hle
    · intro hstep
      cases hd : e.durable with
      | true => simp
      | false => simpa using hstep.durable hd rfl
  | ageSeconds h =>
    simp only [add_le_add_iff_right, sub_le_sub_iff_right, sub_le_sub_iff_left,
      saturatingMulI64_le_iff]
    exact ⟨fun h => ⟨.rfl, .rfl, h, .rfl, by simp_all, .rfl⟩, fun h => h.ageSeconds⟩
  | bytes h =>
    simp only [add_le_add_iff_right, sub_le_sub_iff_left, saturatingMulI64_le_iff]
    exact ⟨fun h => ⟨.rfl, .rfl, .rfl, h, by simp_all, .rfl⟩, fun h => h.bytes⟩

/-- For an improvement of one field, no addition overflows and the score does not go down exactly
if the running totals of both entries are values of `i64` and the step is steady. -/
theorem keepScore_monotone_iff {e e' : Evictable} (h : Improves e e') :
    (ScoresInRange policy e ∧ ScoresInRange policy e' ∧ keepScore policy e ≤ keepScore policy e') ↔
      TotalsInRange policy e ∧ TotalsInRange policy e' ∧ SteadyStep policy e e' := by
  rw [← scoresInRange_iff, ← scoresInRange_iff]
  refine and_congr_right fun he => and_congr_right fun he' => ?_
  rw [keepScore_of_inRange he, keepScore_of_inRange he', sum_keepTerms_le_iff h]

/-- A second use of an entry, under the default weights. -/
theorem keepScore_monotone_reuse :
    keepScore {} (unused (.lit "")) ≤ keepScore {} { unused (.lit "") with reuseCount := 1 } := by
  have htotals : TotalsInRange {} (unused (.lit "")) := (scoresInRange_iff _ _).mp (by decide)
  have htotals' : TotalsInRange {} { unused (.lit "") with reuseCount := 1 } :=
    (scoresInRange_iff _ _).mp (by decide)
  have hsteady : SteadyStep {} (unused (.lit "")) { unused (.lit "") with reuseCount := 1 } :=
    ⟨Or.inl ⟨by decide, by decide⟩, .rfl, .rfl, .rfl, by simp [unused], .rfl⟩
  exact ((keepScore_monotone_iff (.reuseCount (Nat.zero_le 1))).mpr
    ⟨htotals, htotals', hsteady⟩).2.2

/-- The reconstruction cost saturates at `u64::MAX`, which the cast to `i64` turns into `-1`: the
more expensive entry is evicted first. -/
theorem keepScore_not_monotone :
    Improves { unused (.lit "") with reconstructionCostNs := 1 }
        { unused (.lit "") with reconstructionCostNs := u64Max } ∧
      keepScore {} { unused (.lit "") with reconstructionCostNs := u64Max }
        < keepScore {} { unused (.lit "") with reconstructionCostNs := 1 } := by
  refine ⟨.reconstructionCostNs (e := { unused (.lit "") with reconstructionCostNs := 1 }) ?_, ?_⟩
  · decide
  · decide

end TensorCache
