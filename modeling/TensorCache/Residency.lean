import TensorCache.Fidelity
import TensorCache.HostAccounting

/-!
# No phantom objects

An entry without placements is a phantom: a lookup hits it, nothing can be restored from it, and
its address is taken. Evictions leave a phantom behind unless the entry has a persistent copy, and
so does a deletion that fails half-way. `KeepsACopy` excludes these cases, and then every entry has
a placement in every state of a run.
-/

namespace TensorCache

open Codec EStateM TensorCache.Runtime

/-- Every entry has a placement. -/
def AllPlaced (s : Runtime) : Prop := ∀ k e, s.entries.lookup k = some e → e.placements ≠ []

/-- Evictions only hit entries with a persistent copy, and deletions do not fail: the ledger covers
the arena, and the driver frees the buffers. -/
def KeepsACopy (s : Runtime) (ev : Event) : Prop :=
  match ev.call with
  | .evict oid => ∀ e, s.entries.lookup oid.toHex = some e → .persistent ∈ e.placementTiers
  | .register r => s.MustEvict r → ∀ k e, s.entries.lookup k = some e → e.hasTier .host = true →
      e.durable = false → .persistent ∈ e.placementTiers
  | .delete oid => s.hostTier.Covered ∧ ∀ e dev, s.entries.lookup oid.toHex = some e →
      .accelerator dev ∈ e.placements → ∀ ptr, ev.env.driver.freeFails dev.backend ptr = false
  | _ => True

variable {sc : Scope} {config : RuntimeConfig} {o : Origin} {s s₀ s' : Runtime} {env : Env}
  {c : Call} {oid : ObjectId} {t : Tier} {e : Entry} {r : Registration} {k : Str}

lemma ne_nil_of_mem_tiers (h : t ∈ e.placementTiers) : e.placements ≠ [] := by
  intro hnil
  simp [Entry.placementTiers, hnil] at h

/-! ### Evictions -/

/-- The entries whose placements an eviction may take away. -/
def Stripped (c : Call) (s₀ : Runtime) (k : Str) : Prop :=
  match c with
  | .evict oid => k = oid.toHex
  | .register r => s₀.MustEvict r ∧ ∃ e, s₀.entries.lookup k = some e ∧ e.hasTier .host = true ∧
      e.durable = false
  | _ => False

/-- A removal outside `delete` leaves another copy. -/
lemma placed_without (h₀ : Safe sc config o s₀) (hc : ∀ oid, c ≠ .delete oid)
    (hrem : c.Removes s₀ s oid t) (he : s.entries.lookup oid.toHex = some e)
    (hplaced : e.placements ≠ [] ∧ (Stripped c s₀ oid.toHex → .persistent ∈ e.placementTiers)) :
    (e.without t).placements ≠ [] ∧
      (Stripped c s₀ oid.toHex → .persistent ∈ (e.without t).placementTiers) := by
  have hkeep : ∀ t', t' ∈ e.placementTiers → t' ≠ t → t' ∈ (e.without t).placementTiers := by
    intro t' ht' hne
    rw [Entry.placementTiers_without]
    exact (List.mem_erase_of_ne hne).mpr ht'
  have hpers : t ≠ .persistent → Stripped c s₀ oid.toHex → (e.without t).placements ≠ [] ∧
      (Stripped c s₀ oid.toHex → .persistent ∈ (e.without t).placementTiers) := by
    intro ht hstripped
    have hmem := hkeep .persistent (hplaced.2 hstripped) ht.symm
    exact ⟨ne_nil_of_mem_tiers hmem, fun _ => hmem⟩
  cases c with
  | register r =>
    obtain ⟨ht, hmust, key, e₀, hoid, he₀, hhost, hdurable⟩ := hrem
    refine hpers ht ⟨hmust, e₀, ?_, hhost, hdurable⟩
    rw [← h₀.key_of_fromHex he₀ hoid, he₀]
  | demote o source =>
    obtain ⟨rfl, rfl, lower, hlower, hres⟩ := hrem
    obtain ⟨e', he', hlow⟩ := entryHasTier_eq_ok.mp hres
    rw [he] at he'
    cases he'
    have hmem := hkeep lower (Entry.hasTier_iff.mp hlow) (nextLower_ne hlower)
    exact ⟨ne_nil_of_mem_tiers hmem, fun hstripped => hstripped.elim⟩
  | evict o =>
    obtain ⟨rfl, ht⟩ := hrem
    exact hpers ht rfl
  | delete o => exact absurd rfl (hc o)
  | lookup address compat => exact hrem.elim
  | restore oid t => exact hrem.elim
  | promote oid t => exact hrem.elim
  | replicate oid t => exact hrem.elim
  | persist oid => exact hrem.elim
  | verify oid => exact hrem.elim

/-- Outside `delete`, every entry keeps a placement. -/
lemma placed_extension (h₀ : Safe sc config o s₀) (hplaced : AllPlaced s₀)
    (hc : ∀ oid, c ≠ .delete oid) (hcond : KeepsACopy s₀ ⟨env, c⟩) :
    Extension sc config o env c s₀
      (fun s => ∀ k e, s.entries.lookup k = some e →
        e.placements ≠ [] ∧ (Stripped c s₀ k → .persistent ∈ e.placementTiers))
      (fun s => ∀ k e, s.entries.lookup k = some e →
        e.placements ≠ [] ∧ (Stripped c s₀ k → .persistent ∈ e.placementTiers)) := by
  refine Extension.forall_entries (fun k e he => ⟨hplaced k e he, fun hstripped => ?_⟩)
    (fun k e f hf he => ?_) (fun oid t e p _ _ he => ⟨by simp [Entry.push], fun hstripped => ?_⟩)
    (fun s oid t e hrem he hP => placed_without h₀ hc hrem he hP)
    fun r byteLen numel ps hr _ _ hcheck => ⟨by simp [newEntry], fun hstripped => ?_⟩
  · cases c with
    | evict oid =>
      subst hstripped
      exact hcond e he
    | register r =>
      obtain ⟨hmust, e', he', hhost, hdurable⟩ := hstripped
      rw [he] at he'
      cases he'
      exact hcond hmust k e he hhost hdurable
    | _ => exact hstripped.elim
  · obtain ⟨reuse, lastUse, durable, hfe⟩ := hf e
    rw [hfe]
    exact he
  · rw [Entry.placementTiers_push]
    exact List.mem_append_left _ (he.2 hstripped)
  · -- the address of a new entry was free
    subst hr
    obtain ⟨-, e', he', -⟩ := hstripped
    rw [(registerCheck_ok hcheck).2.2.2.2] at he'
    cases he'

/-! ### Deletions -/

/-- With a ledger that covers the arena, removing a placement only fails in the driver. -/
lemma Safe.removePlacement_ok (hS : CollisionFree sc.blocks) (h : Safe sc config o s)
    (hcov : s.hostTier.Covered) (he : s.entries.lookup oid.toHex = some e)
    (hfree : ∀ dev, .accelerator dev ∈ e.placements →
      ∀ ptr, env.driver.freeFails dev.backend ptr = false) (ht : t ∈ e.placementTiers) :
    ∃ s', removePlacement env oid t s = .ok ⟨⟩ s' := by
  obtain ⟨r, ho, hok⟩ := h.entry _ e he
  obtain ⟨p, hp, rfl⟩ := Entry.mem_placementTiers.mp ht
  have hfind := Entry.tier?_of_mem hok.tiers hp
  cases p with
  | host refs => exact h.removeHost_ok hS hcov he hfind env
  | accelerator dev =>
    obtain ⟨d, hrun⟩ := Devices.release_ok env.driver (hok.device dev hp) (hfree dev hp)
    have hrun' : Devices.release env.driver dev
        (updateEntry oid (Entry.without (.accelerator dev.backend)) s).devices = .ok ⟨⟩ d := hrun
    rw [removePlacement_of_some he hfind]
    exact ⟨_, zoom_of_ok hrun'⟩
  | persistent =>
    obtain ⟨d, hrun, -⟩ := Durable.drop_spec env.io hS hok.refTo h.durable oid
    have hrun' : Durable.drop env.io e.blocks oid
        (updateEntry oid (Entry.without .persistent) s).durable = .ok ⟨⟩ d := hrun
    rw [removePlacement_of_some he hfind]
    exact ⟨_, zoom_of_ok hrun'⟩

/-- The removals of `delete` all return. -/
lemma Safe.removeAll_ok (hS : CollisionFree sc.blocks) (config : RuntimeConfig) (o : Origin)
    (env : Env) (oid : ObjectId) (tiers : List Tier) :
    Triple (fun s => Safe sc config o s ∧ s.hostTier.Covered ∧ ∃ e,
        s.entries.lookup oid.toHex = some e ∧ e.placementTiers = tiers ∧
        ∀ dev, .accelerator dev ∈ e.placements → ∀ ptr, env.driver.freeFails dev.backend ptr = false)
      (tiers.forM fun t => removePlacement env oid t) (fun _ _ => True) (fun _ => False) := by
  refine Triple.post (Triple.forM (I := fun rest s => Safe sc config o s ∧ s.hostTier.Covered ∧ ∃ e,
    s.entries.lookup oid.toHex = some e ∧ e.placementTiers = rest ∧
      ∀ dev, .accelerator dev ∈ e.placements → ∀ ptr, env.driver.freeFails dev.backend ptr = false)
    (fun t rest s hs => ?_) tiers) fun _ _ _ => trivial
  obtain ⟨hsafe, hcov, e, he, htiers, hfree⟩ := hs
  have ht : t ∈ e.placementTiers := by
    rw [htiers]
    exact List.mem_cons_self
  obtain ⟨s', hrun⟩ := hsafe.removePlacement_ok hS hcov he hfree ht
  obtain ⟨heff, hsafe'⟩ := hsafe.remove hS env oid t
  have hcov' := (hsafe.host_of_removeEffect hS hcov heff).1
  rw [hrun] at hsafe' hcov' ⊢
  refine ⟨hsafe', hcov', e.without t, ?_, ?_, fun dev hdev =>
    hfree dev (Entry.mem_of_mem_without hdev)⟩
  · rw [entries_of_removePlacement hrun, AList.lookup_modify_self, he]
    rfl
  · rw [Entry.placementTiers_without, htiers, List.erase_cons_head]

/-- After `delete` there is no entry. -/
lemma Safe.lookup_delete (hS : CollisionFree sc.blocks) (h : Safe sc config o s)
    (hcond : KeepsACopy s ⟨env, .delete oid⟩) :
    (delete env oid s).state.entries.lookup oid.toHex = none := by
  refine Triple.state (P := (· = s)) (I := fun s => s.entries.lookup oid.toHex = none) ?_ rfl
  refine Triple.get_bind ?_
  rintro s rfl
  cases hmeta : s.getMeta oid with
  | error err =>
    refine Triple.throw ?_
    rintro s rfl
    by_contra hsome
    obtain ⟨e, he⟩ := Option.ne_none_iff_exists'.mp hsome
    rw [getMeta_eq_ok.mpr he] at hmeta
    cases hmeta
  | ok e =>
    have he := getMeta_eq_ok.mp hmeta
    have hloop := Safe.removeAll_ok hS config o env oid e.placementTiers
    rw [ofExcept_ok_bind]
    refine Triple.bind (Triple.conseq hloop ?_ (fun _ _ hs => hs) fun _ hs => hs.elim) fun _ => ?_
    · rintro s rfl
      exact ⟨h, hcond.1, e, he, rfl, fun dev hdev => hcond.2 e dev he hdev⟩
    · refine Triple.bind (Q := fun _ s => s.entries.lookup oid.toHex = none)
        (Triple.modify fun s _ => ?_) fun _ => ?_
      · unfold removeEntry
        cases he' : s.entries.lookup oid.toHex with
        | none => exact he'
        | some e' => exact AList.lookup_erase _ _
      · refine Keeps.ignoring (keeps_iff.mpr fun s hs => ?_)
        rw [onDurable, zoom_state]
        exact hs

/-- Deleting an object leaves the other entries their placements. -/
lemma deleted_extension (hplaced : AllPlaced s₀) :
    Extension sc config o env (.delete oid) s₀
      (fun s => ∀ k e, s.entries.lookup k = some e → k ≠ oid.toHex → e.placements ≠ [])
      (fun s => ∀ k e, s.entries.lookup k = some e → k ≠ oid.toHex → e.placements ≠ []) := by
  refine Extension.forall_entries (fun k e he _ => hplaced k e he) (fun k e f hf he hk => ?_)
    (fun oid t e p hadds _ _ => by cases hadds) (fun s oid' t e hrem _ _ hk => absurd ?_ hk)
    fun r byteLen numel ps hr _ _ _ => by cases hr
  · obtain ⟨reuse, lastUse, durable, hfe⟩ := hf e
    rw [hfe]
    exact he hk
  · exact congrArg ObjectId.toHex hrem

/-! ### Whole runs -/

/-- A call under `KeepsACopy` leaves no entry without a placement. -/
lemma AllPlaced.exec (hS : CollisionFree sc.blocks) (h : Safe sc config o s) (hplaced : AllPlaced s)
    {ev : Event} (hreg : ∀ r ∈ s.registration ev, r ∈ sc.registered) (hcond : KeepsACopy s ev) :
    AllPlaced (s.exec ev) := by
  obtain ⟨env, c⟩ := ev
  have hplaced₀ : AllPlaced s.beginCall := hplaced
  by_cases hc : ∃ oid, c = .delete oid
  · obtain ⟨oid, rfl⟩ := hc
    have hothers := (h.exec_rule hS hreg (deleted_extension hplaced₀)).2
    have hgone : (s.exec ⟨env, .delete oid⟩).entries.lookup oid.toHex = none := by
      change ((delete env oid >>= fun _ => pure Reply.done) s.beginCall).state.entries.lookup
        oid.toHex = none
      rw [state_bind_pure]
      exact h.beginCall.lookup_delete hS hcond
    intro k e he
    by_cases hk : k = oid.toHex
    · rw [hk, hgone] at he
      cases he
    · exact hothers k e he hk
  · push Not at hc
    have hall := (h.exec_rule hS hreg (placed_extension h.beginCall hplaced₀ hc hcond)).2
    exact fun k e he => (hall k e he).1

end TensorCache
