import TensorCache.Coordinator.Ownership

/-!
# The coordinator at the limits of its counters

The expiry of a lease and the fence of a migration are unchecked sums, the epoch of a restart is a
saturating one. They are what they stand for exactly while the sums fit in a machine word.
-/

namespace TensorCache

open Codec EStateM

namespace Coordinator

/-- What happens to a coordinator process: it handles a message at some time, restarts in place,
or loads a snapshot file. -/
inductive Event where
  | handle (now : UInt64) (m : Message)
  | restart (boot : BootId)
  | load (file : Option Bytes) (boot : BootId)

namespace Event

def apply : Event → Coordinator → Coordinator
  | handle now m, c => (c.handle now m).state
  | restart boot, c => c.restart boot
  | load file boot, c => (loadState file boot c).state

/-- A lease does not expire before it is granted, a migration carries a greater fence, and a
restart has a greater epoch. The coordinator that a snapshot restarts is the one that wrote it. -/
def Safe (c : Coordinator) : Event → Prop
  | handle now m => ∀ rs c', c.handle now m = .ok rs c' →
      (∀ id epoch fence expires, .leaseGrant id epoch fence expires ∈ rs →
        now ≤ expires ∧ expires.toNat = now.toNat + c.leaseNs.toNat) ∧
      ∀ id newOwner addr fence, .migrate id newOwner addr fence ∈ rs →
        ∃ state, c.objects.lookup id = some state ∧ state.fence < fence ∧
          fence.toNat = state.fence.toNat + 1
  | restart boot => c.epoch < (c.restart boot).epoch
  | load file boot => ∀ bytes epoch rows, file = some bytes →
      readSnapshot bytes = .ok ((epoch, rows), []) →
      epoch < (loadState file boot c).state.epoch

/-- The sum that the event computes fits in a machine word. -/
def InRange (c : Coordinator) : Event → Prop
  | handle now (.leaseRenew id fence) => ∀ state, c.objects.lookup id = some state →
      fence = state.fence → now.toNat + c.leaseNs.toNat < 2 ^ 64
  | handle _ (.migrate id _ _ fence) => ∀ state, c.objects.lookup id = some state →
      ¬ fence < state.fence → state.fence.toNat + 1 < 2 ^ 64
  | handle .. => True
  | restart _ => c.epoch.toNat + 1 < 2 ^ 64
  | load file _ => ∀ bytes epoch rows, file = some bytes →
      readSnapshot bytes = .ok ((epoch, rows), []) → epoch.toNat + 1 < 2 ^ 64

end Event

/-- The process after some events. -/
def reached (c₀ : Coordinator) (events : List Event) : Coordinator :=
  events.foldl (fun c e => e.apply c) c₀

variable {c : Coordinator}

/-! ### Sums of machine words -/

lemma toNat_add_iff (a b : UInt64) :
    a.toNat + b.toNat < 2 ^ 64 ↔ (a + b).toNat = a.toNat + b.toNat := by
  rw [UInt64.toNat_add, Nat.mod_eq_iff_lt (by decide)]

lemma lt_next_iff (epoch : Epoch) : epoch < epoch.next ↔ epoch.toNat + 1 < 2 ^ 64 := by
  have hsmall := epoch.toNat_lt
  rw [UInt64.lt_iff_toNat_lt, Epoch.next]
  split_ifs with hmax
  · rw [hmax]
    decide
  · have hne : epoch.toNat ≠ 2 ^ 64 - 1 := fun h => hmax (UInt64.toNat_inj.mp h)
    rw [(toNat_add_iff epoch 1).mp (by change epoch.toNat + 1 < 2 ^ 64; omega)]
    change epoch.toNat < epoch.toNat + 1 ↔ _
    omega

/-! ### One event -/

/-- Only a renewal grants a lease. -/
lemma leaseGrant_of_handle {now : UInt64} {m : Message} {rs : List Message} {c' : Coordinator}
    (h : c.handle now m = .ok rs c') {id : Str} {epoch fence expires : UInt64}
    (hmem : .leaseGrant id epoch fence expires ∈ rs) :
    ∃ state, m = .leaseRenew id state.fence ∧ c.objects.lookup id = some state ∧
      expires = now + c.leaseNs := by
  have hcases := c.handled now m
  rw [h] at hcases
  cases hcases with
  | renewed id' state hstate =>
    cases List.mem_singleton.mp hmem
    exact ⟨state, rfl, hstate, rfl⟩
  | idle _ _ _ hrs => cases hrs _ hmem
  | migrated => cases hmem
  | _ => cases List.mem_singleton.mp hmem

/-- Only a request to migrate is answered with an instruction to migrate. -/
lemma migrate_of_handle {now : UInt64} {m : Message} {rs : List Message} {c' : Coordinator}
    (h : c.handle now m = .ok rs c') {id newOwner addr : Str} {fence : UInt64}
    (hmem : .migrate id newOwner addr fence ∈ rs) :
    ∃ state asked target, m = .migrate id newOwner target asked ∧ ¬ asked < state.fence ∧
      c.objects.lookup id = some state ∧ fence = state.fence + 1 := by
  have hcases := c.handled now m
  rw [h] at hcases
  cases hcases with
  | migrating id' newOwner' addr' fence' state hstate hfence =>
    cases List.mem_singleton.mp hmem
    exact ⟨state, fence', addr', rfl, hfence, hstate, rfl⟩
  | idle _ _ _ hrs => cases hrs _ hmem
  | migrated => cases hmem
  | _ => cases List.mem_singleton.mp hmem

lemma safe_handle_of_inRange {now : UInt64} {m : Message}
    (h : (Event.handle now m).InRange c) : (Event.handle now m).Safe c := by
  intro rs c' hok
  constructor
  · intro id epoch fence expires hmem
    obtain ⟨state, rfl, hstate, rfl⟩ := leaseGrant_of_handle hok hmem
    have hsum := (toNat_add_iff now c.leaseNs).mp (h state hstate rfl)
    rw [UInt64.le_iff_toNat_le, hsum]
    exact ⟨Nat.le_add_right _ _, rfl⟩
  · intro id newOwner addr fence hmem
    obtain ⟨state, asked, target, rfl, hfence, hstate, rfl⟩ := migrate_of_handle hok hmem
    have hsum := (toNat_add_iff state.fence 1).mp (h state hstate hfence)
    refine ⟨state, hstate, ?_, hsum⟩
    rw [UInt64.lt_iff_toNat_lt, hsum]
    exact Nat.lt_succ_self _

lemma inRange_of_safe_handle {now : UInt64} {m : Message}
    (h : (Event.handle now m).Safe c) : (Event.handle now m).InRange c := by
  cases m with
  | leaseRenew id fence =>
    rintro state hstate rfl
    have hok : c.handle now (.leaseRenew id state.fence)
        = .ok [.leaseGrant id c.epoch state.fence (now + c.leaseNs)] c := by
      change leaseRenew now id state.fence c = _
      unfold leaseRenew
      rw [get_bind_apply]
      simp only [hstate, ne_eq, not_true_eq_false, if_false]
      rfl
    exact (toNat_add_iff now c.leaseNs).mpr
      ((h _ _ hok).1 id c.epoch state.fence _ List.mem_cons_self).2
  | migrate id newOwner addr fence =>
    intro state hstate hfence
    obtain ⟨c', hok⟩ : ∃ c', c.handle now (.migrate id newOwner addr fence)
        = .ok [.migrate id newOwner ((c.nodes.lookup newOwner).getD addr) (state.fence + 1)] c' := by
      change ∃ c', migrate id newOwner addr fence c = _
      unfold migrate
      rw [get_bind_apply]
      simp only [hstate, if_neg hfence]
      exact ⟨_, rfl⟩
    obtain ⟨state', hstate', -, hsum⟩ := (h _ _ hok).2 id newOwner _ _ List.mem_cons_self
    cases hstate.symm.trans hstate'
    exact (toNat_add_iff state.fence 1).mpr hsum
  | _ => trivial

/-- One event is safe exactly if its sum is in range. -/
lemma safe_iff_inRange (e : Event) : e.Safe c ↔ e.InRange c := by
  cases e with
  | handle now m => exact ⟨inRange_of_safe_handle, safe_handle_of_inRange⟩
  | restart boot => exact lt_next_iff c.epoch
  | load file boot =>
    refine forall_congr' fun bytes => forall_congr' fun epoch => forall_congr' fun rows =>
      forall_congr' fun hfile => forall_congr' fun hread => ?_
    subst hfile
    rw [loadState_of_read hread, Result.state_ok]
    exact lt_next_iff epoch

/-! ### Runs -/

/-- A process with any lease time is safe in every event of a run exactly if every sum the run
computes fits in a machine word. -/
theorem limits_safe_iff (boot : BootId) (leaseNs : UInt64) (events : List Event) :
    (∀ before e, before ++ [e] <+: events → e.Safe (reached (new boot leaseNs) before)) ↔
      ∀ before e, before ++ [e] <+: events → e.InRange (reached (new boot leaseNs) before) := by
  refine forall_congr' fun before => forall_congr' fun e => forall_congr' fun _ => ?_
  exact safe_iff_inRange e

/-- A snapshot with the largest fence and the largest epoch, loaded by a process with the largest
lease time: the lease has expired when it is granted, the migration starts again at the fence
zero, and the epoch stays. -/
theorem limits_exceeded :
    let file := writeSnapshot 0xFFFFFFFFFFFFFFFF [⟨.lit "x", .lit "a", 0xFFFFFFFFFFFFFFFF⟩]
    let c := reached (new (.lit "") 0xFFFFFFFFFFFFFFFF) [.load (some file) (.lit "b")]
    (∃ c', c.handle 5 (.leaseRenew (.lit "x") 0xFFFFFFFFFFFFFFFF)
      = .ok [.leaseGrant (.lit "x") 0xFFFFFFFFFFFFFFFF 0xFFFFFFFFFFFFFFFF 4] c') ∧
    (∃ c', c.handle 5 (.migrate (.lit "x") (.lit "n") (.lit "") 0xFFFFFFFFFFFFFFFF)
      = .ok [.migrate (.lit "x") (.lit "n") (.lit "") 0] c') ∧
    c.epoch = 0xFFFFFFFFFFFFFFFF ∧ (c.restart (.lit "")).epoch = 0xFFFFFFFFFFFFFFFF := by
  exact ⟨⟨_, rfl⟩, ⟨_, rfl⟩, rfl, rfl⟩

end Coordinator

end TensorCache
