import TensorCache.Runtime.Readable

/-!
# Crash safety

After any number of sessions, each cut off at any step of its last call, recovery admits nothing
but what was registered: the entry is under the id of its own address, and its persistent copy
is the payload that was registered under exactly this address and compatibility key.
-/

namespace TensorCache

open Codec TensorCache.Runtime

variable {sizes : Set ℕ} {disk : Disk} {log : List Registration} {s : Runtime}

/-- Recovery never admits wrong data. -/
theorem recovered_is_registered (hist : History sizes disk log) {env : Env}
    {config : RuntimeConfig} {extra : List Backend} {pid : ℕ}
    (hsize : config.blockSize.toNat ∈ sizes)
    (hnew : Runtime.new env config extra disk pid = .ok s)
    (hS : CollisionFree (scopeOf sizes log).blocks) {k : Str} {e : Entry}
    (he : s.entries.lookup k = some e) :
    k = e.address.objectId.toHex ∧ .persistent ∈ e.placementTiers ∧
      ∃ r ∈ log, r.address = e.address ∧ r.compat = e.compat ∧
        s.materializeFrom e.address.objectId .persistent = .ok r.payload := by
  obtain ⟨hfresh, o, hsafe⟩ := hist.new_spec hS hsize hnew
  obtain ⟨r, ho, hok⟩ := hsafe.entry k e he
  have hkey : k = e.address.objectId.toHex := by rw [hok.address, hok.key]
  have hpers : .persistent ∈ e.placementTiers := by
    rw [Entry.placementTiers, hfresh.placements k e he]
    exact List.mem_singleton_self _
  rw [hkey] at he ho
  exact ⟨hkey, hpers, r, hok.registered, hok.address.symm, hok.compat.symm,
    hsafe.materializeFrom hS hfresh.readable he ho hpers⟩

theorem recovered_is_registered_bytePair :
    ∃ s₁ s₂ e, (persistSession 2 (bytePair 0 1 2)).start ∅ = .ok s₁ ∧
      Runtime.new {} (storeConfig 2) []
        ((s₁.run (persistSession 2 (bytePair 0 1 2)).events).files ∅) 0 = .ok s₂ ∧
      s₂.entries.lookup (bytePair 0 1 2).address.objectId.toHex = some e ∧
      ∃ r ∈ s₁.registrations (persistSession 2 (bytePair 0 1 2)).events, r.address = e.address ∧
        s₂.materializeFrom e.address.objectId .persistent = .ok r.payload := by
  obtain ⟨s₁, s₂, hs₁, hs₂, hsome⟩ : ∃ s₁ s₂,
      (persistSession 2 (bytePair 0 1 2)).start ∅ = .ok s₁ ∧
      Runtime.new {} (storeConfig 2) []
        ((s₁.run (persistSession 2 (bytePair 0 1 2)).events).files ∅) 0 = .ok s₂ ∧
      (s₂.entries.lookup (bytePair 0 1 2).address.objectId.toHex).isSome = true :=
    ⟨_, _, rfl, rfl, by decide +kernel⟩
  obtain ⟨e, he⟩ := Option.isSome_iff_exists.mp hsome
  have hS : CollisionFree (scopeOf {2}
      (s₁.registrations (persistSession 2 (bytePair 0 1 2)).events)).blocks :=
    collisionFree_scopeOf [2] [bytePair 0 1 2] (registrations_subset s₁ _) (by simp)
      (by decide +kernel)
  have hsize : (storeConfig 2).blockSize.toNat ∈ ({2} : Set ℕ) := rfl
  obtain ⟨-, -, r, hr, haddress, -, hread⟩ := recovered_is_registered
    (persistSession_history 2 (bytePair 0 1 2) hs₁) hsize hs₂ hS he
  exact ⟨s₁, s₂, e, hs₁, hs₂, he, r, hr, haddress, hread⟩

end TensorCache
