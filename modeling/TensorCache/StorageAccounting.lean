import TensorCache.HostAccounting
import TensorCache.RecoveryCounts
import TensorCache.Runtime.Faultless

/-!
# Storage accounting

The persistent tier is counted twice: `storage_used` follows the blocks that are referenced, and
the ledger is charged when a payload is made durable. Recovery does not charge the ledger, a
deletion does not give back what it frees, and a block that is new and occurs twice in a payload is
charged twice. The two counters agree in every run in which none of this happens.
-/

namespace TensorCache

open Codec EStateM TensorCache.Runtime

variable {sc : Scope} {config : RuntimeConfig} {o : Origin} {s s' s₀ : Runtime} {env : Env}
  {c : Call} {oid : ObjectId} {t : Tier} {e : Entry}

/-- A call that is charged for what it keeps, and that gives up nothing it was charged for: the new
blocks of a payload that becomes durable are pairwise distinct, and every durable block of a
deleted object is referenced by other objects as well. -/
structure ChargedOnce (s : Runtime) (c : Call) : Prop where
  kept : ∀ oid e bytes blocks, c.adds = some (oid, .persistent) →
    s.entries.lookup oid.toHex = some e → .persistent ∉ e.placementTiers →
    s.materializePayload oid = .ok bytes → chunk bytes s.config.blockSize.toNat = .ok blocks →
    newBytes s.durable.held blocks ≤ s.accounting.free .persistent →
    FreshDistinct s.durable.held blocks
  deleted : ∀ oid e, c = .delete oid → s.entries.lookup oid.toHex = some e →
    .persistent ∈ e.placementTiers →
    ∀ b ∈ e.blocks, countRef b.contentHash e.blocks < s.durable.count b.contentHash

/-! ### One call -/

/-- The ledger agrees with `storage_used`, and nothing is reserved. -/
structure Charged (s : Runtime) : Prop where
  used : s.accounting.storage.used = s.storageUsed
  reserved : s.accounting.storage.reserved = 0

/-- The counters of the persistent tier are as they were. -/
lemma Charged.of_durable (h : Charged s) (hused : s'.durable.used = s.durable.used)
    (hbudget : s'.durable.budget = s.durable.budget) : Charged s' := by
  have hstorage : s'.accounting.storage = s.accounting.storage := hbudget
  have hcount : s'.storageUsed = s.storageUsed := hused
  constructor
  · rw [hstorage, hcount]
    exact h.used
  · rw [hstorage]
    exact h.reserved

/-- The object that a call deletes has the durable blocks it began with, as long as it is
durable. -/
def StillKept (c : Call) (s₀ s : Runtime) : Prop :=
  ∀ k e, s.entries.lookup k = some e → ∀ oid, c = .delete oid → k = oid.toHex →
    .persistent ∈ e.placementTiers → s.persistentRefs = s₀.persistentRefs ∧
      ∃ e₀, s₀.entries.lookup k = some e₀ ∧ .persistent ∈ e₀.placementTiers ∧ e₀.blocks = e.blocks

lemma StillKept.refl (c : Call) (s : Runtime) : StillKept c s s :=
  fun _ e he _ _ _ ht => ⟨rfl, e, he, ht, rfl⟩

lemma StillKept.modify (h : StillKept c s₀ s) {k : Str} {f : Entry → Entry}
    (hentries : s'.entries = s.entries.modify k f) (hrefs : s'.persistentRefs = s.persistentRefs)
    (hf : ∀ e, (f e).blocks = e.blocks ∧
      (.persistent ∈ (f e).placementTiers → .persistent ∈ e.placementTiers)) :
    StillKept c s₀ s' := by
  unfold StillKept
  rw [hentries, hrefs]
  refine AList.forall_modify h fun e _ hkept oid hc hk ht => ?_
  rw [(hf e).1]
  exact hkept oid hc hk ((hf e).2 ht)

/-- The effect of `remove_placement` on the two counters. -/
lemma Charged.removeEffect (h : Charged s) (hcharged : ChargedOnce s₀ c)
    (hrem : c.Removes s₀ s oid t) (hkept : StillKept c s₀ s)
    (heff : RemoveEffect env s oid t s') : Charged s' := by
  cases heff with
  | absent => exact h
  | host => exact ⟨h.used, h.reserved⟩
  | device => exact ⟨h.used, h.reserved⟩
  | @persistent e d he hp hdrop =>
    refine h.of_durable (hdrop.used_eq fun b hb => ?_) hdrop.budget
    have ht : .persistent ∈ e.placementTiers :=
      Entry.mem_placementTiers.mpr ⟨.persistent, (Entry.tier_of_tier? hp).1, rfl⟩
    obtain ⟨hrefs, e₀, he₀, ht₀, hblocks⟩ := hkept _ e he oid hrem.eq_delete rfl ht
    rw [← hblocks] at hb ⊢
    have hcount : s.durable.count b.contentHash = s₀.durable.count b.contentHash :=
      congrArg (fun refs : HashMap Digest ℕ => (refs.lookup b.contentHash).getD 0) hrefs
    rw [hcount]
    exact hcharged.deleted oid e₀ hrem.eq_delete he₀ ht₀ b hb

lemma StillKept.removeEffect (h : StillKept c s₀ s) (hsafe : Safe sc config o s)
    (hrem : c.Removes s₀ s oid t) (heff : RemoveEffect env s oid t s') : StillKept c s₀ s' := by
  have hwithout : ∀ (t : Tier) (e : Entry), (e.without t).blocks = e.blocks ∧
      (.persistent ∈ (e.without t).placementTiers → .persistent ∈ e.placementTiers) := by
    intro t e
    rw [Entry.placementTiers_without]
    exact ⟨rfl, List.mem_of_mem_erase⟩
  cases heff with
  | absent => exact h
  | host => exact h.modify rfl rfl (hwithout _)
  | device => exact h.modify rfl rfl (hwithout _)
  | @persistent e d he hp hdrop =>
    rintro k e' he' oid' rfl rfl ht
    cases hrem.eq_delete
    -- the placement that was removed was the only one
    obtain ⟨r, -, hok⟩ := hsafe.entry _ e he
    change (s.entries.modify oid.toHex _).lookup oid.toHex = some e' at he'
    rw [AList.lookup_modify_self, he] at he'
    cases he'
    rw [Entry.placementTiers_without] at ht
    exact absurd ht (List.Nodup.not_mem_erase hok.tiers)

end TensorCache
