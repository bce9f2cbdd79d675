import TensorCache.Policy

/-!
# The planner

`Planner.decide` picks a feasible action of least cost, ties by priority. What it costs depends
only on which tiers hold a copy, falls when there are more ways to get one, and grows with the
number of bytes (`planner_optimal`).
-/

namespace TensorCache

/-- What an action costs in the model. -/
def Action.cost (m : CostModel) (bytes : ℕ) (dest : Tier) : Action → ℕ
  | reuseInPlace => m.reuseInPlaceCostNs
  | transfer src => m.transferCostNs src dest bytes
  | restore => m.restoreCostNs dest bytes
  | reconstruct => m.reconstructCostNs bytes
  | reject => u64Max

/-- The actions that can be taken, with copies in the given tiers. -/
def Feasible (dest : Tier) (placements : List Tier) (canReconstruct : Bool) : Action → Prop
  | .reuseInPlace => dest ∈ placements
  | .transfer src => src ∈ placements ∧ src ≠ dest
  | .restore => .persistent ∈ placements
  | .reconstruct => canReconstruct = true
  | .reject => False

/-! ### Costs -/

namespace CostModel

variable (m : CostModel)

lemma saturatingAdd_mono {a b c : ℕ} (h : b ≤ c) : saturatingAdd a b ≤ saturatingAdd a c := by
  unfold saturatingAdd
  omega

lemma saturatingAdd_le (a b : ℕ) : saturatingAdd a b ≤ u64Max := by
  unfold saturatingAdd u64Max
  omega

lemma transferNs_mono {bytes bytes' : ℕ} (h : bytes ≤ bytes') (bandwidth : ℕ) :
    transferNs bytes bandwidth ≤ transferNs bytes' bandwidth := by
  unfold transferNs
  split_ifs with hzero
  · exact le_rfl
  · exact min_le_min (Nat.div_le_div_right (Nat.mul_le_mul_right _ h)) le_rfl

end CostModel

namespace Action

variable (m : CostModel) (dest : Tier)

lemma cost_mono {bytes bytes' : ℕ} (h : bytes ≤ bytes') (a : Action) :
    a.cost m bytes dest ≤ a.cost m bytes' dest := by
  cases a with
  | reuseInPlace => exact le_rfl
  | transfer src => exact CostModel.saturatingAdd_mono (CostModel.transferNs_mono h _)
  | restore => exact CostModel.saturatingAdd_mono (CostModel.transferNs_mono h _)
  | reconstruct =>
    exact CostModel.saturatingAdd_mono (min_le_min (Nat.mul_le_mul_right _ h) le_rfl)
  | reject => exact le_rfl

lemma cost_le (bytes : ℕ) (a : Action) : a.cost m bytes dest ≤ u64Max := by
  cases a with
  | reuseInPlace => exact Nat.zero_le _
  | transfer src => exact CostModel.saturatingAdd_le _ _
  | restore => exact CostModel.saturatingAdd_le _ _
  | reconstruct => exact CostModel.saturatingAdd_le _ _
  | reject => exact le_rfl

end Action

lemma Feasible.mono {dest : Tier} {placements placements' : List Tier} {r r' : Bool} {a : Action}
    (hsub : placements ⊆ placements') (hr : r = true → r' = true)
    (h : Feasible dest placements r a) : Feasible dest placements' r' a := by
  cases a with
  | reuseInPlace => exact hsub h
  | transfer src => exact ⟨hsub h.1, h.2⟩
  | restore => exact hsub h
  | reconstruct => exact hr h
  | reject => exact h

/-! ### The decision -/

instance : Std.Total cheaper where
  total a b := by
    unfold cheaper
    omega

instance : IsTrans (ℕ × Action) cheaper where
  trans a b c hab hbc := by
    unfold cheaper at *
    omega

namespace Planner

variable {m : CostModel} {bytes : ℕ} {dest : Tier} {placements : List Tier} {r : Bool}

lemma any_persistent_iff :
    (placements.any fun t => t.kind = .persistent) = true ↔ Tier.persistent ∈ placements := by
  rw [List.any_eq_true]
  constructor
  · rintro ⟨t, ht, hkind⟩
    cases t with
    | persistent => exact ht
    | host => cases of_decide_eq_true hkind
    | accelerator id => cases of_decide_eq_true hkind
  · exact fun h => ⟨.persistent, h, rfl⟩

lemma mem_optional {α : Type} {p : Prop} [Decidable p] {x c : α} :
    c ∈ (if p then [x] else []) ↔ p ∧ c = x := by
  split_ifs with hp
  · simp [hp]
  · simp [hp]

/-- The candidates are the feasible actions with their costs. -/
lemma mem_candidates_iff (hdest : dest ∉ placements) {costNs : ℕ} {action : Action} :
    (costNs, action) ∈ candidates m bytes dest placements r ↔
      costNs = action.cost m bytes dest ∧ Feasible dest placements r action := by
  simp only [candidates, List.mem_append, List.mem_map, List.mem_filter, mem_optional,
    any_persistent_iff, Prod.mk.injEq]
  cases action with
  | reuseInPlace => simp [Feasible, hdest]
  | transfer src =>
    simp only [Feasible, Action.cost, Action.transfer.injEq, reduceCtorEq, and_false, or_false]
    constructor
    · rintro ⟨src, ⟨hsrc, hne⟩, rfl, rfl⟩
      exact ⟨rfl, hsrc, of_decide_eq_true hne⟩
    · rintro ⟨rfl, hsrc, hne⟩
      exact ⟨src, ⟨hsrc, decide_eq_true hne⟩, rfl, rfl⟩
  | restore => simp [Feasible, Action.cost, and_comm]
  | reconstruct => simp [Feasible, Action.cost, and_comm]
  | reject => simp [Feasible]

/-- The plan is a feasible action at its cost that no other one beats, or nothing is feasible. -/
structure Best (m : CostModel) (bytes : ℕ) (dest : Tier) (placements : List Tier) (r : Bool)
    (p : Plan) : Prop where
  feasible : Feasible dest placements r p.action ∨
    p.action = .reject ∧ ∀ a, ¬Feasible dest placements r a
  reuse : p.action = .reuseInPlace ↔ dest ∈ placements
  cost : p.costNs = p.action.cost m bytes dest
  least : ∀ a, Feasible dest placements r a → p.costNs ≤ a.cost m bytes dest
  priority : ∀ a, Feasible dest placements r a → a.cost m bytes dest = p.costNs →
    p.action.priority ≤ a.priority

lemma best_decide (m : CostModel) (bytes : ℕ) (dest : Tier) (placements : List Tier) (r : Bool) :
    Best m bytes dest placements r (decide m bytes dest placements r) := by
  unfold Planner.decide
  split_ifs with hdest
  · exact ⟨Or.inl hdest, by simp [hdest], rfl, fun a _ => Nat.zero_le _, fun a _ _ => Nat.zero_le _⟩
  have hmem : ∀ a, Feasible dest placements r a → (a.cost m bytes dest, a)
      ∈ (candidates m bytes dest placements r).insertionSort cheaper := fun a ha =>
    (List.mem_insertionSort cheaper).mpr ((mem_candidates_iff hdest).mpr ⟨rfl, ha⟩)
  have hsorted := List.pairwise_insertionSort cheaper (candidates m bytes dest placements r)
  split
  · rename_i hnil
    have hnone : ∀ a, ¬Feasible dest placements r a := fun a ha => by
      have := hmem a ha
      rw [hnil] at this
      cases this
    exact ⟨Or.inr ⟨rfl, hnone⟩, by simp [hdest], rfl, fun a ha => absurd ha (hnone a),
      fun a ha => absurd ha (hnone a)⟩
  · rename_i costNs action rest hcons
    rw [hcons] at hsorted
    have hhead : (costNs, action) ∈ candidates m bytes dest placements r := by
      rw [← List.mem_insertionSort cheaper, hcons]
      exact List.mem_cons_self
    obtain ⟨hcost, hfeasible⟩ := (mem_candidates_iff hdest).mp hhead
    have hbest : ∀ a, Feasible dest placements r a →
        cheaper (costNs, action) (a.cost m bytes dest, a) := by
      intro a ha
      have hin := hmem a ha
      rw [hcons] at hin
      rcases List.mem_cons.mp hin with heq | hin
      · rw [heq]
        exact Or.inr ⟨rfl, le_rfl⟩
      · exact List.rel_of_pairwise_cons hsorted hin
    refine ⟨Or.inl hfeasible, ?_, hcost, fun a ha => ?_, fun a ha heq => ?_⟩
    · refine ⟨fun h => absurd ?_ hdest, fun h => absurd h hdest⟩
      rw [show action = .reuseInPlace from h] at hfeasible
      exact hfeasible
    · rcases hbest a ha with h | ⟨h, -⟩
      · exact h.le
      · exact h.le
    · rcases hbest a ha with h | ⟨-, h⟩
      · exact absurd h (by rw [heq]; exact lt_irrefl _)
      · exact h

/-! ### Two decisions -/

variable {placements' : List Tier} {r' : Bool} {bytes' : ℕ} {p p' : Plan}

/-- With more tiers that hold a copy, or with reconstruction, the cost does not go up. -/
lemma Best.cost_anti (h : Best m bytes dest placements r p)
    (h' : Best m bytes dest placements' r' p') (hsub : placements ⊆ placements')
    (hr : r = true → r' = true) : p'.costNs ≤ p.costNs := by
  rcases h.feasible with hfeasible | ⟨hreject, -⟩
  · rw [h.cost]
    exact h'.least p.action (hfeasible.mono hsub hr)
  · rw [h.cost, hreject, h'.cost]
    exact Action.cost_le m dest bytes p'.action

/-- For more bytes the cost does not go down. -/
lemma Best.cost_mono (h : Best m bytes dest placements r p)
    (h' : Best m bytes' dest placements r p') (hbytes : bytes ≤ bytes') :
    p.costNs ≤ p'.costNs := by
  rcases h'.feasible with hfeasible | ⟨hreject, -⟩
  · calc p.costNs ≤ p'.action.cost m bytes dest := h.least p'.action hfeasible
      _ ≤ p'.action.cost m bytes' dest := Action.cost_mono m dest hbytes p'.action
      _ = p'.costNs := h'.cost.symm
  · rw [h'.cost, hreject, h.cost]
    exact Action.cost_le m dest bytes p.action

/-- Only which tiers hold a copy matters for cost and kind of action. -/
lemma Best.congr (h : Best m bytes dest placements r p)
    (h' : Best m bytes dest placements' r p') (hsame : ∀ t, t ∈ placements ↔ t ∈ placements') :
    p'.costNs = p.costNs ∧ p'.action.priority = p.action.priority := by
  have hsub : placements ⊆ placements' := fun t ht => (hsame t).mp ht
  have hsub' : placements' ⊆ placements := fun t ht => (hsame t).mpr ht
  have hcost : p'.costNs = p.costNs :=
    le_antisymm (h.cost_anti h' hsub id) (h'.cost_anti h hsub' id)
  refine ⟨hcost, ?_⟩
  rcases h.feasible with hfeasible | ⟨hreject, hnone⟩
  · rcases h'.feasible with hfeasible' | ⟨-, hnone'⟩
    · refine le_antisymm (h'.priority p.action (hfeasible.mono hsub id) ?_)
        (h.priority p'.action (hfeasible'.mono hsub' id) ?_)
      · rw [← h.cost, hcost]
      · rw [← h'.cost, hcost]
    · exact absurd (hfeasible.mono hsub id) (hnone' _)
  · rcases h'.feasible with hfeasible' | ⟨hreject', -⟩
    · exact absurd (hfeasible'.mono hsub' id) (hnone _)
    · rw [hreject, hreject']

/-- The planner is optimal, and its cost is monotone. -/
theorem planner_optimal (m : CostModel) (bytes : ℕ) (dest : Tier) (placements : List Tier)
    (canReconstruct : Bool) :
    Best m bytes dest placements canReconstruct (decide m bytes dest placements canReconstruct) ∧
      (∀ placements', placements.Perm placements' →
        (decide m bytes dest placements' canReconstruct).costNs
            = (decide m bytes dest placements canReconstruct).costNs ∧
          (decide m bytes dest placements' canReconstruct).action.priority
            = (decide m bytes dest placements canReconstruct).action.priority) ∧
      (∀ t, (decide m bytes dest (t :: placements) canReconstruct).costNs
        ≤ (decide m bytes dest placements canReconstruct).costNs) ∧
      (decide m bytes dest placements true).costNs
        ≤ (decide m bytes dest placements canReconstruct).costNs ∧
      ∀ bytes', bytes ≤ bytes' →
        (decide m bytes dest placements canReconstruct).costNs
          ≤ (decide m bytes' dest placements canReconstruct).costNs := by
  have hbest := fun bytes placements r => best_decide m bytes dest placements r
  refine ⟨hbest _ _ _, fun placements' hperm => ?_, fun t => ?_, ?_, fun bytes' hbytes => ?_⟩
  · exact (hbest _ _ _).congr (hbest _ _ _) fun t => hperm.mem_iff
  · exact (hbest _ _ _).cost_anti (hbest _ _ _) (List.subset_cons_self t placements) id
  · exact (hbest _ _ _).cost_anti (hbest _ _ _) (List.Subset.refl placements) fun _ => rfl
  · exact (hbest _ _ _).cost_mono (hbest _ _ _) hbytes

/-- A durable copy, read into the host tier. -/
theorem planner_optimal_durable :
    (decide {} 1 .host [.host, .persistent] false).costNs
        ≤ (decide {} 1 .host [.persistent] false).costNs ∧
      (decide {} 1 .host [.persistent] false).costNs
        ≤ (decide {} 2 .host [.persistent] false).costNs := by
  obtain ⟨-, -, hadd, -, hbytes⟩ := planner_optimal {} 1 .host [.persistent] false
  exact ⟨hadd .host, hbytes 2 (by norm_num)⟩

end Planner

end TensorCache
