import TensorCache.Lib.Command
import TensorCache.Tiers

/-!
# Resource accounting

A byte budget for each tier. All amounts are `u64`: sums are checked or saturating as in the
source, and a check that fails leaves the budget as the source leaves it.
-/

namespace TensorCache

/-- `u64::saturating_add`. -/
def saturatingAdd (a b : ℕ) : ℕ := min (a + b) (2 ^ 64 - 1)

/-- Per-tier byte budget. -/
structure Budget where
  capacity : ℕ := 0
  used : ℕ := 0
  reserved : ℕ := 0
deriving DecidableEq

namespace Budget

/-- Free (unused and unreserved) bytes. -/
def free (b : Budget) : ℕ := b.capacity - saturatingAdd b.used b.reserved

def addUsed (n : ℕ) : EStateM Error Budget PUnit := fun b =>
  if b.used + n ≥ 2 ^ 64 then .error (.accounting "tier byte usage overflow") b
  else if b.used + n > b.capacity then
    .error (.accounting s!"tier capacity overshoot: used {b.used} + {n} > {b.capacity}") b
  else .ok ⟨⟩ { b with used := b.used + n }

def subUsed (n : ℕ) : EStateM Error Budget PUnit := fun b =>
  if n > b.used then .error (.accounting s!"tier byte underflow: remove {n} > used {b.used}") b
  else .ok ⟨⟩ { b with used := b.used - n }

def reserve (n : ℕ) : EStateM Error Budget PUnit := fun b =>
  if b.reserved + n ≥ 2 ^ 64 then .error (.accounting "tier reservation overflow") b
  -- the capacity check accounts for both used and reserved
  else if saturatingAdd b.used (b.reserved + n) > b.capacity then
    .error (.accounting
      s!"tier reservation would overshoot: used {b.used} + reserved {b.reserved} + {n} > {b.capacity}")
      b
  else .ok ⟨⟩ { b with reserved := b.reserved + n }

def commitReserve (n : ℕ) : EStateM Error Budget PUnit := fun b =>
  if n > b.reserved then .error (.accounting "commit exceeds reservation") b
  else addUsed n { b with reserved := b.reserved - n }

def cancelReserve (n : ℕ) : EStateM Error Budget PUnit := fun b =>
  if n > b.reserved then .error (.accounting "cancel exceeds reservation") b
  else .ok ⟨⟩ { b with reserved := b.reserved - n }

/-- Usage and reservations together fit the capacity, which is a `u64`. -/
structure Wf (b : Budget) : Prop where
  small : b.capacity < 2 ^ 64
  fits : b.used + b.reserved ≤ b.capacity

variable {b : Budget} {n : ℕ}

lemma Wf.free_eq (h : b.Wf) : b.free = b.capacity - (b.used + b.reserved) := by
  have := h.small
  have := h.fits
  rw [free, saturatingAdd, min_eq_left (by omega)]

lemma Wf.reserve (h : b.Wf) (hn : n ≤ b.free) :
    Budget.reserve n b = .ok ⟨⟩ { b with reserved := b.reserved + n } := by
  have := h.small
  have := h.fits
  rw [h.free_eq] at hn
  rw [Budget.reserve, saturatingAdd, if_neg (by omega), if_neg (by omega)]

lemma Wf.commitReserve (h : b.Wf) (hn : n ≤ b.reserved) :
    Budget.commitReserve n b
      = .ok ⟨⟩ { b with used := b.used + n, reserved := b.reserved - n } := by
  have := h.small
  have := h.fits
  simp only [Budget.commitReserve, addUsed]
  rw [if_neg (by omega), if_neg (by omega), if_neg (by omega)]

lemma subUsed_of_le (hn : n ≤ b.used) :
    subUsed n b = .ok ⟨⟩ { b with used := b.used - n } := by
  rw [subUsed, if_neg (by omega)]

lemma Wf.addUsed_state (h : b.Wf) (n : ℕ) (hr : b.reserved = 0) : (addUsed n b).state.Wf := by
  have := h.small
  simp only [addUsed]
  split_ifs with hover hcap
  · exact h
  · exact h
  · exact ⟨h.small, by simp only [EStateM.Result.state_ok]; omega⟩

lemma Wf.subUsed_state (h : b.Wf) (n : ℕ) : (subUsed n b).state.Wf := by
  have := h.fits
  rw [subUsed]
  split_ifs with hlt
  · exact h
  · exact ⟨h.small, by simp only [EStateM.Result.state_ok]; omega⟩

end Budget

/-- Global, exact resource accounting for a runtime. -/
structure Accounting where
  accel : Budget := {}
  host : Budget := {}
  storage : Budget := {}
  objects : ℕ := 0
  blocks : ℕ := 0
  replicas : ℕ := 0
deriving DecidableEq

namespace Accounting

def budget (a : Accounting) : TierKind → Budget
  | .accelerator => a.accel
  | .host => a.host
  | .persistent => a.storage

def capacity (a : Accounting) (kind : TierKind) : ℕ := (a.budget kind).capacity

def used (a : Accounting) (kind : TierKind) : ℕ := (a.budget kind).used

def reserved (a : Accounting) (kind : TierKind) : ℕ := (a.budget kind).reserved

def free (a : Accounting) (kind : TierKind) : ℕ := (a.budget kind).free

def objectCount (a : Accounting) : ℕ := a.objects

def setTierCapacity (a : Accounting) (kind : TierKind) (cap : ℕ) : Accounting :=
  match kind with
  | .accelerator => { a with accel := { a.accel with capacity := cap } }
  | .host => { a with host := { a.host with capacity := cap } }
  | .persistent => { a with storage := { a.storage with capacity := cap } }

def setBudget (a : Accounting) (kind : TierKind) (b : Budget) : Accounting :=
  match kind with
  | .accelerator => { a with accel := b }
  | .host => { a with host := b }
  | .persistent => { a with storage := b }

/-- Run an operation on the budget of one tier. -/
def onTier (kind : TierKind) (c : EStateM Error Budget PUnit) : EStateM Error Accounting PUnit :=
  EStateM.zoom (fun a => a.budget kind) (fun b a => a.setBudget kind b) c

def addBytes (kind : TierKind) (n : ℕ) : EStateM Error Accounting PUnit :=
  onTier kind (Budget.addUsed n)

def subBytes (kind : TierKind) (n : ℕ) : EStateM Error Accounting PUnit :=
  onTier kind (Budget.subUsed n)

def reserve (kind : TierKind) (n : ℕ) : EStateM Error Accounting PUnit :=
  onTier kind (Budget.reserve n)

def commitReserve (kind : TierKind) (n : ℕ) : EStateM Error Accounting PUnit :=
  onTier kind (Budget.commitReserve n)

def cancelReserve (kind : TierKind) (n : ℕ) : EStateM Error Accounting PUnit :=
  onTier kind (Budget.cancelReserve n)

variable {kind kind' : TierKind} {b : Budget}

@[simp] lemma budget_setBudget (a : Accounting) : (a.setBudget kind b).budget kind = b := by
  cases kind <;> rfl

lemma budget_setBudget_of_ne (a : Accounting) (h : kind' ≠ kind) :
    (a.setBudget kind b).budget kind' = a.budget kind' := by
  cases kind <;> cases kind' <;> first | rfl | contradiction

@[simp] lemma setBudget_budget (a : Accounting) : a.setBudget kind (a.budget kind) = a := by
  cases kind <;> rfl

end Accounting

end TensorCache
