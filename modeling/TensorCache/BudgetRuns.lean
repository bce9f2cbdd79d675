import Mathlib.Data.List.Induction
import TensorCache.Accounting

/-!
# Budgets over whole runs

The byte operations of an accounting in any order. A direct addition is checked against the
capacity and the bytes in use, not against the reservations: one that takes reserved space leaves
more than the capacity claimed, and the commit of the reservation then fails half-way. A
reservation is checked with a saturating sum, which a capacity of `u64::MAX` never refuses. In a
run with neither the claims never exceed the capacity.
-/

namespace TensorCache

/-- The byte operations of a budget. -/
inductive ByteOp where
  | addBytes | subBytes | reserve | commitReserve | cancelReserve
deriving DecidableEq

/-- A call of a byte operation, with the tier and the amount it is called with. -/
structure ByteCall where
  op : ByteOp
  kind : TierKind
  amount : UInt64

namespace ByteOp

def onBudget : ByteOp → ℕ → EStateM Error Budget PUnit
  | addBytes => Budget.addUsed
  | subBytes => Budget.subUsed
  | reserve => Budget.reserve
  | commitReserve => Budget.commitReserve
  | cancelReserve => Budget.cancelReserve

/-- An addition that fits the capacity leaves room for the reservations, and a reservation at the
largest capacity there is does not saturate. -/
structure LeavesRoom (op : ByteOp) (n : ℕ) (b : Budget) : Prop where
  add : op = addBytes → b.used + n ≤ b.capacity → b.used + b.reserved + n ≤ b.capacity
  reserve : op = reserve → b.reserved + n < 2 ^ 64 → b.capacity = 2 ^ 64 - 1 →
    b.used + b.reserved + n ≤ b.capacity

variable {op : ByteOp} {n : ℕ} {b : Budget}

lemma onBudget_capacity : (op.onBudget n b).state.capacity = b.capacity := by
  cases op <;> simp only [onBudget, Budget.addUsed, Budget.subUsed, Budget.reserve,
    Budget.commitReserve, Budget.cancelReserve] <;> split_ifs <;> rfl

/-- Within its budget an operation stays there, fails without effect, and a commit of what has
been reserved does not fail. -/
lemma onBudget_spec (h : b.Wf) (hroom : op.LeavesRoom n b) :
    (op.onBudget n b).state.Wf ∧ (∀ e b', op.onBudget n b = .error e b' → b' = b) ∧
      (op = commitReserve → n ≤ b.reserved → ∃ b', op.onBudget n b = .ok ⟨⟩ b') := by
  have hsmall := h.small
  have hfits := h.fits
  cases op with
  | addBytes =>
    have hroom := hroom.add rfl
    simp only [onBudget, Budget.addUsed]
    split_ifs with hover hcap
    · exact ⟨h, fun _ _ heq => by cases heq; rfl, fun hop => hop.elim⟩
    · exact ⟨h, fun _ _ heq => by cases heq; rfl, fun hop => hop.elim⟩
    · refine ⟨⟨hsmall, ?_⟩, fun _ _ heq => heq.elim, fun hop => hop.elim⟩
      simp only [EStateM.Result.state_ok]
      omega
  | subBytes =>
    simp only [onBudget, Budget.subUsed]
    split_ifs with hlt
    · exact ⟨h, fun _ _ heq => by cases heq; rfl, fun hop => hop.elim⟩
    · refine ⟨⟨hsmall, ?_⟩, fun _ _ heq => heq.elim, fun hop => hop.elim⟩
      simp only [EStateM.Result.state_ok]
      omega
  | reserve =>
    have hroom := hroom.reserve rfl
    simp only [onBudget, Budget.reserve]
    split_ifs with hover hcap
    · exact ⟨h, fun _ _ heq => by cases heq; rfl, fun hop => hop.elim⟩
    · exact ⟨h, fun _ _ heq => by cases heq; rfl, fun hop => hop.elim⟩
    · refine ⟨⟨hsmall, ?_⟩, fun _ _ heq => heq.elim, fun hop => hop.elim⟩
      rw [saturatingAdd] at hcap
      simp only [EStateM.Result.state_ok]
      omega
  | commitReserve =>
    by_cases hn : n ≤ b.reserved
    · simp only [onBudget, h.commitReserve hn]
      refine ⟨⟨hsmall, ?_⟩, fun _ _ heq => (by cases heq), fun _ _ => ⟨_, rfl⟩⟩
      simp only [EStateM.Result.state_ok]
      omega
    · simp only [onBudget, Budget.commitReserve, if_pos (Nat.lt_of_not_le hn)]
      exact ⟨h, fun _ _ heq => by cases heq; rfl, fun _ hle => absurd hle hn⟩
  | cancelReserve =>
    simp only [onBudget, Budget.cancelReserve]
    split_ifs with hlt
    · exact ⟨h, fun _ _ heq => by cases heq; rfl, fun hop => hop.elim⟩
    · refine ⟨⟨hsmall, ?_⟩, fun _ _ heq => heq.elim, fun hop => hop.elim⟩
      simp only [EStateM.Result.state_ok]
      omega

/-- An addition that fits the capacity does not fail. -/
lemma addBytes_of_le (hsmall : b.capacity < 2 ^ 64) (hn : b.used + n ≤ b.capacity) :
    addBytes.onBudget n b = .ok ⟨⟩ { b with used := b.used + n } := by
  rw [onBudget, Budget.addUsed, if_neg (by omega), if_neg (by omega)]

/-- At the largest capacity a reservation only fails where its counter overflows. -/
lemma reserve_of_max (hmax : b.capacity = 2 ^ 64 - 1) (hn : b.reserved + n < 2 ^ 64) :
    reserve.onBudget n b = .ok ⟨⟩ { b with reserved := b.reserved + n } := by
  rw [onBudget, Budget.reserve, saturatingAdd, if_neg (by omega), if_neg (by omega)]

/-- An operation after which the claims fit has left room. -/
lemma leavesRoom_of_fits (hsmall : b.capacity < 2 ^ 64)
    (hfits : (op.onBudget n b).state.used + (op.onBudget n b).state.reserved ≤ b.capacity) :
    op.LeavesRoom n b := by
  constructor
  · rintro rfl hn
    rw [addBytes_of_le hsmall hn] at hfits
    simp only [EStateM.Result.state_ok] at hfits
    omega
  · rintro rfl hn hmax
    rw [reserve_of_max hmax hn] at hfits
    simp only [EStateM.Result.state_ok] at hfits
    omega

end ByteOp

namespace ByteCall

def run (c : ByteCall) : EStateM Error Accounting PUnit :=
  match c.op with
  | .addBytes => Accounting.addBytes c.kind c.amount.toNat
  | .subBytes => Accounting.subBytes c.kind c.amount.toNat
  | .reserve => Accounting.reserve c.kind c.amount.toNat
  | .commitReserve => Accounting.commitReserve c.kind c.amount.toNat
  | .cancelReserve => Accounting.cancelReserve c.kind c.amount.toNat

lemma run_eq (c : ByteCall) : c.run = Accounting.onTier c.kind (c.op.onBudget c.amount.toNat) := by
  obtain ⟨op, kind, amount⟩ := c
  cases op <;> rfl

lemma run_state (c : ByteCall) (a : Accounting) :
    (c.run a).state
      = a.setBudget c.kind (c.op.onBudget c.amount.toNat (a.budget c.kind)).state := by
  rw [run_eq, Accounting.onTier, EStateM.zoom_state]

def LeavesRoom (c : ByteCall) (a : Accounting) : Prop :=
  c.op.LeavesRoom c.amount.toNat (a.budget c.kind)

/-- What a call does to an accounting that is within its budgets. -/
structure Sound (c : ByteCall) (a : Accounting) : Prop where
  fits : ∀ kind, (c.run a).state.used kind + (c.run a).state.reserved kind
    ≤ (c.run a).state.capacity kind
  committed : c.op = .commitReserve → c.amount.toNat ≤ a.reserved c.kind →
    ∃ a', c.run a = .ok ⟨⟩ a'
  unchanged : ∀ e a', c.run a = .error e a' → a' = a
  others : ∀ kind, kind ≠ c.kind → (c.run a).state.budget kind = a.budget kind

end ByteCall

namespace Accounting

/-- A new accounting, with the capacity of each tier set. -/
def withCapacities (caps : TierKind → UInt64) : Accounting :=
  (((({} : Accounting).setTierCapacity .accelerator (caps .accelerator).toNat).setTierCapacity
    .host (caps .host).toNat).setTierCapacity .persistent (caps .persistent).toNat)

/-- The accounting after a list of calls, whether or not they succeeded. -/
def after (a : Accounting) (calls : List ByteCall) : Accounting :=
  calls.foldl (fun a c => (c.run a).state) a

variable {a : Accounting} {c : ByteCall} {caps : TierKind → UInt64}

lemma withCapacities_wf (kind : TierKind) : ((withCapacities caps).budget kind).Wf := by
  cases kind <;> exact ⟨UInt64.toNat_lt _, Nat.zero_le _⟩

lemma after_concat (a : Accounting) (calls : List ByteCall) (c : ByteCall) :
    a.after (calls ++ [c]) = (c.run (a.after calls)).state := by
  rw [after, List.foldl_append]
  rfl

lemma capacity_run (a : Accounting) (c : ByteCall) (kind : TierKind) :
    (c.run a).state.capacity kind = a.capacity kind := by
  rw [c.run_state, capacity, capacity]
  by_cases hkind : kind = c.kind
  · rw [hkind, budget_setBudget, ByteOp.onBudget_capacity]
  · rw [budget_setBudget_of_ne a hkind]

/-- One call, from an accounting within its budgets. -/
lemma sound_of_leavesRoom (h : ∀ kind, (a.budget kind).Wf) (hc : c.LeavesRoom a) :
    c.Sound a ∧ ∀ kind, ((c.run a).state.budget kind).Wf := by
  obtain ⟨hwf, herror, hcommit⟩ := ByteOp.onBudget_spec (h c.kind) hc
  have hall : ∀ kind, ((c.run a).state.budget kind).Wf := by
    intro kind
    rw [c.run_state]
    by_cases hkind : kind = c.kind
    · rw [hkind, budget_setBudget]
      exact hwf
    · rw [budget_setBudget_of_ne a hkind]
      exact h kind
  refine ⟨⟨fun kind => (hall kind).fits, ?_, ?_, ?_⟩, hall⟩
  · intro hop hle
    obtain ⟨b, hb⟩ := hcommit hop hle
    rw [c.run_eq]
    exact ⟨_, EStateM.zoom_of_ok hb⟩
  · intro e a' herr
    rw [c.run_eq] at herr
    obtain ⟨b, hb, rfl⟩ := EStateM.zoom_eq_error herr
    rw [herror e b hb, setBudget_budget]
  · intro kind hkind
    rw [c.run_state, budget_setBudget_of_ne a hkind]

/-- The run lemma: while every call leaves room, the accounting stays within its budgets. -/
lemma after_wf {calls : List ByteCall} (h : ∀ kind, (a.budget kind).Wf)
    (hcalls : ∀ before c, before ++ [c] <+: calls → c.LeavesRoom (a.after before)) :
    ∀ kind, ((a.after calls).budget kind).Wf := by
  induction calls using List.reverseRecOn with
  | nil => exact h
  | append_singleton calls c ih =>
    rw [after_concat]
    refine (sound_of_leavesRoom (ih fun before c' hpre => ?_) (hcalls calls c ?_)).2
    · exact hcalls before c' (hpre.trans (List.prefix_append _ _))
    · exact List.prefix_rfl

lemma capacity_after (a : Accounting) (calls : List ByteCall) (kind : TierKind) :
    (a.after calls).capacity kind = a.capacity kind := by
  induction calls using List.reverseRecOn with
  | nil => rfl
  | append_singleton calls c ih => rw [after_concat, capacity_run, ih]

end Accounting

open Accounting in
/-- In a run of byte operations from new budgets, every call keeps within the budgets, commits
what has been reserved, fails without effect and leaves the other tiers alone, exactly when every
call leaves room for the reservations. -/
theorem budgets_sound_iff (caps : TierKind → UInt64) (calls : List ByteCall) :
    (∀ before c, before ++ [c] <+: calls → c.Sound ((withCapacities caps).after before)) ↔
      ∀ before c, before ++ [c] <+: calls →
        c.LeavesRoom ((withCapacities caps).after before) := by
  constructor
  · intro h before c hpre
    have hsmall : ((withCapacities caps).after before).capacity c.kind < 2 ^ 64 := by
      rw [capacity_after]
      exact (withCapacities_wf c.kind).small
    have hfits := (h before c hpre).fits c.kind
    rw [capacity_run, c.run_state, used, reserved, budget_setBudget] at hfits
    exact ByteOp.leavesRoom_of_fits hsmall hfits
  · intro h before c hpre
    refine (sound_of_leavesRoom (after_wf withCapacities_wf fun before' c' hpre' => ?_)
      (h before c hpre)).1
    exact h before' c' (hpre'.trans ((List.prefix_append before [c]).trans hpre))

/-- A reservation of five of ten bytes, and then an addition of ten: fifteen bytes are claimed,
and the commit fails with the reservation gone. At the largest capacity, all of it is reserved
while a byte is in use. -/
theorem addBytes_takes_reserved :
    let a := (Accounting.withCapacities fun _ => 10).after [⟨.reserve, .host, 5⟩]
    let a' := a.after [⟨.addBytes, .host, 10⟩]
    let most := (Accounting.withCapacities fun _ => 0xFFFFFFFFFFFFFFFF).after
      [⟨.addBytes, .host, 1⟩]
    ¬ ByteCall.Sound ⟨.addBytes, .host, 10⟩ a ∧
      a'.used .host + a'.reserved .host = 15 ∧ a'.capacity .host = 10 ∧
      (∃ e, ByteCall.run ⟨.commitReserve, .host, 5⟩ a'
        = .error e (a'.setBudget .host { capacity := 10, used := 10, reserved := 0 })) ∧
      ¬ ByteCall.Sound ⟨.reserve, .host, 0xFFFFFFFFFFFFFFFF⟩ most := by
  refine ⟨fun h => absurd (h.fits .host) (by decide), by decide, by decide, ⟨_, rfl⟩, ?_⟩
  exact fun h => absurd (h.fits .host) (by decide)

end TensorCache
