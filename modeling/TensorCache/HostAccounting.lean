import TensorCache.Runtime.Sessions

/-!
# Host accounting

The ledger of the host tier is charged by a pre-pass over a block list, the arena counts the blocks
it really takes in. `SharedKept` is the condition under which a registration that has to evict
charges enough, and the arena then never grows beyond the host capacity. Charging the exact amount
also needs that no new block occurs twice in one payload (`NewBlocksDistinct`).
-/

namespace TensorCache

open Codec EStateM TensorCache.Runtime

/-! ### Making room -/

/-- What making room for `r` in `s₀` leaves of it. -/
structure Roomed (r : Registration) (s₀ s : Runtime) : Prop where
  durable : ∀ k e₀, s₀.entries.lookup k = some e₀ → e₀.durable = true →
    ∃ e, s.entries.lookup k = some e ∧ e.placements = e₀.placements
  shrinks : ∀ x, s.host.contains x = true → s₀.host.contains x = true
  untouched : ¬s₀.MustEvict r → s.host = s₀.host

variable {sc : Scope} {config : RuntimeConfig} {o : Origin} {s s₀ s' : Runtime} {env : Env}
  {c : Call} {oid : ObjectId} {t : Tier} {e : Entry} {r : Registration} {k : Str}

lemma Roomed.refl (r : Registration) (s : Runtime) : Roomed r s s :=
  ⟨fun _ e₀ he₀ _ => ⟨e₀, he₀, rfl⟩, fun _ hx => hx, fun _ => rfl⟩

lemma Roomed.touch (h : Roomed r s₀ s) {f : Entry → Entry} (hf : Entry.Touches f)
    (oid : ObjectId) : Roomed r s₀ (updateEntry oid f s) := by
  refine ⟨fun k e₀ he₀ hdurable => ?_, h.shrinks, h.untouched⟩
  obtain ⟨e, he, hplacements⟩ := h.durable k e₀ he₀ hdurable
  by_cases hk : k = oid.toHex
  · refine ⟨f e, ?_, ?_⟩
    · rw [updateEntry, hk, AList.lookup_modify_self, ← hk, he]
      rfl
    · obtain ⟨reuse, lastUse, durable, hfe⟩ := hf e
      rw [hfe]
      exact hplacements
  · exact ⟨e, by rw [updateEntry, AList.lookup_modify_ne hk, he], hplacements⟩

/-- Under a ledger that covers the arena, giving up a host placement succeeds. -/
lemma Safe.release_host (hS : CollisionFree sc.blocks) (h : Safe sc config o s)
    (hcov : s.hostTier.Covered) (he : s.entries.lookup k = some e) {refs : List BlockRef}
    (hp : e.tier? .host = some (.host refs)) :
    ∃ t, HostTier.release refs s.hostTier = .ok ⟨⟩ t ∧ t.Wf sc.blocks config.hostCapacity.toNat ∧
      t.Covered ∧ t.arena.bytes + s.hostTier.budget.used = s.hostTier.arena.bytes + t.budget.used ∧
      ∀ x, t.arena.count x = s.hostTier.arena.count x - countRef x refs := by
  obtain ⟨r, -, hok⟩ := h.entry k e he
  obtain ⟨hrefs, htiles⟩ := chunk_spec (hok.host refs (Entry.tier_of_tier? hp).1)
  refine HostTier.release_exact hS ?_ h.host hcov
  rw [hrefs]
  exact refTo_refsFrom (Scope.pieces_mem hok.registered h.blockSize)
    (by rw [htiles.flatten]; exact r.payload_small) 0

lemma Safe.removeHost_ok (hS : CollisionFree sc.blocks) (h : Safe sc config o s)
    (hcov : s.hostTier.Covered) (he : s.entries.lookup oid.toHex = some e) {refs : List BlockRef}
    (hp : e.tier? .host = some (.host refs)) (env : Env) :
    ∃ s', removePlacement env oid .host s = .ok ⟨⟩ s' := by
  obtain ⟨t, hrun, -⟩ := h.release_host hS hcov he hp
  have hrun' : HostTier.release refs (updateEntry oid (Entry.without .host) s).hostTier
      = .ok ⟨⟩ t := hrun
  rw [removePlacement_of_some he hp, freePlacement, onHost, zoom_of_ok hrun']
  exact ⟨_, rfl⟩

/-- A removal takes nothing into the arena, and moves the arena and its ledger alike. -/
lemma Safe.host_of_removeEffect (hS : CollisionFree sc.blocks) (h : Safe sc config o s)
    (hcov : s.hostTier.Covered) (heff : RemoveEffect env s oid t s') :
    s'.hostTier.Covered ∧ (∀ x, s'.host.contains x = true → s.host.contains x = true) ∧
      s'.host.bytes + s.accounting.host.used = s.host.bytes + s'.accounting.host.used ∧
      ∀ x, s'.host.count x + demand (hostWeight x) s.entries
        = s.host.count x + demand (hostWeight x) s'.entries := by
  cases heff with
  | absent => exact ⟨hcov, fun _ hx => hx, rfl, fun _ => rfl⟩
  | @host e refs he hp =>
    obtain ⟨t, hrun, hwf, hcov', hmove, hcount⟩ := h.release_host hS hcov he hp
    rw [hrun]
    refine ⟨hcov', fun x hx => ?_, hmove, fun x => ?_⟩
    · have hpos := (hwf.arena.contains_iff x).mp hx
      rw [hcount] at hpos
      exact (h.host.arena.contains_iff x).mpr (by omega)
    · have hdemand := demand_without (w := hostWeight x) he hp
      have hle := h.hostDemand x
      have := hcount x
      rw [hostWeight] at hdemand
      change t.arena.count x + _
        = _ + demand _ (s.entries.modify oid.toHex (Entry.without .host))
      change t.arena.count x = s.host.count x - _ at this
      omega
  | device he hp =>
    refine ⟨hcov, fun _ hx => hx, rfl, fun x => ?_⟩
    exact congrArg (s.host.count x + ·) (demand_without (w := hostWeight x) he hp).symm
  | persistent he hp =>
    refine ⟨hcov, fun _ hx => hx, rfl, fun x => ?_⟩
    exact congrArg (s.host.count x + ·) (demand_without (w := hostWeight x) he hp).symm

/-- Making room removes placements of entries that are not durable. -/
lemma Roomed.removeEffect (hS : CollisionFree sc.blocks) (h₀ : Safe sc config o s₀)
    (h : Safe sc config o s) (hcov : s.hostTier.Covered) (hroom : Roomed r s₀ s)
    (hrem : (Call.register r).Removes s₀ s oid t) (heff : RemoveEffect env s oid t s') :
    Roomed r s₀ s' := by
  obtain ⟨-, hmust, key, e, hoid, he, -, hdurable⟩ := hrem
  have hkey := h₀.key_of_fromHex he hoid
  refine ⟨fun k e₀ he₀ hdurable₀ => ?_, fun x hx => ?_, fun hnot => absurd hmust hnot⟩
  · obtain ⟨e', he', hplacements⟩ := hroom.durable k e₀ he₀ hdurable₀
    refine ⟨e', ?_, hplacements⟩
    have hk : k ≠ oid.toHex := by
      rintro rfl
      rw [← hkey, he] at he₀
      cases he₀
      rw [hdurable] at hdurable₀
      cases hdurable₀
    rcases heff.entries with hsame | hremoved
    · rw [hsame, he']
    · rw [hremoved, AList.lookup_modify_ne hk, he']
  · exact hroom.shrinks x ((h.host_of_removeEffect hS hcov heff).2.1 x hx)

end TensorCache
