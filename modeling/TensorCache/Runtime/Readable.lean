import TensorCache.Runtime.Sessions

/-!
# Readable placements

An entry has one block list, used to read every tier, while each new placement is cut with the
block size of the running configuration. `Readable` says that the two agree; in a safe state
every listed placement then gives the payload back. Whether a call keeps `Readable` depends on
the placement it adds (`Readable.extension`).
-/

namespace TensorCache

open Codec EStateM TensorCache.Runtime

/-- The host and persistent placements hold the blocks that their entries list. -/
structure Readable (s : Runtime) : Prop where
  host : ∀ k e, s.entries.lookup k = some e → ∀ refs, .host refs ∈ e.placements → refs = e.blocks
  store : ∀ k e, s.entries.lookup k = some e → .persistent ∈ e.placements → s.persistent.isSome
  durable : ∀ x, demand (durableWeight x) s.entries ≤ s.durable.count x

variable {sc : Scope} {config : RuntimeConfig} {o : Origin} {s s₀ : Runtime} {env : Env} {c : Call}
  {oid : ObjectId} {t : Tier} {e : Entry} {r : Registration} {k : Str}

lemma Fresh.readable (h : Fresh s) : Readable s := by
  refine ⟨fun k e he refs hrefs => ?_, fun k e he _ => h.store k e he, fun x => (h.count x).ge⟩
  rw [h.placements k e he] at hrefs
  cases List.mem_singleton.mp hrefs

lemma Readable.beginCall (h : Readable s) : Readable s.beginCall := by
  refine ⟨h.host, fun k e he hmem => ?_, h.durable⟩
  simpa [Runtime.beginCall] using h.store k e he hmem

/-! ### Reading every placement -/

namespace Safe

variable (hS : CollisionFree sc.blocks) (h : Safe sc config o s) (hr : Readable s)
  (he : s.entries.lookup oid.toHex = some e) (ho : o oid.toHex = some r)

include hS h hr he ho

lemma reconstruct_host (ht : .host ∈ e.placementTiers) :
    reconstruct e.blocks e.byteLen s.host.get = .ok r.payload := by
  obtain ⟨p, hp, htier⟩ := Entry.mem_placementTiers.mp ht
  refine (h.entryOk he ho).reconstruct fun b hb hcount => h.host.arena.get hS hb ?_
  cases p with
  | host refs =>
    have hrefs := hr.host _ e he refs hp
    have hdemand := (le_demand (w := hostWeight (hash b)) he hp).trans (h.hostDemand (hash b))
    rw [hostWeight, hrefs] at hdemand
    exact hcount.trans_le hdemand
  | accelerator dev => cases htier
  | persistent => cases htier

lemma reconstruct_durable (ht : .persistent ∈ e.placementTiers) :
    s.reconstructDurable e = some (.ok r.payload) := by
  obtain ⟨p, hp, htier⟩ := Entry.mem_placementTiers.mp ht
  have hp' : p = .persistent := by
    cases p with
    | persistent => rfl
    | host refs => cases htier
    | accelerator dev => cases htier
  subst hp'
  obtain ⟨st, hst⟩ := Option.isSome_iff_exists.mp (hr.store _ e he hp)
  rw [Runtime.reconstructDurable, hst, Option.map_some]
  refine congrArg some ((h.entryOk he ho).reconstruct fun b hb hcount => ?_)
  refine h.durable.getBlock hS hst hb ?_
  exact hcount.trans_le ((le_demand (w := durableWeight (hash b)) he hp).trans
    (hr.durable (hash b)))

/-- Every listed placement can be read, and gives the payload. -/
theorem materializeFrom (ht : t ∈ e.placementTiers) : s.materializeFrom oid t = .ok r.payload := by
  unfold Runtime.materializeFrom
  rw [getMeta_eq_ok.mpr he]
  cases t with
  | host => exact h.reconstruct_host hS hr he ho ht
  | persistent =>
    change (s.reconstructDurable e).getD _ = _
    rw [h.reconstruct_durable hS hr he ho ht]
    rfl
  | accelerator id =>
    obtain ⟨p, hp, htier⟩ := Entry.mem_placementTiers.mp ht
    cases p with
    | host refs => cases htier
    | persistent => cases htier
    | accelerator dev =>
      have hfind := Entry.tier?_of_mem (h.entryOk he ho).tiers hp
      rw [htier] at hfind
      cases htier
      simp only [bind, Except.bind, hfind]
      exact h.download he ho hp

/-- An object with a placement can be materialized. -/
theorem materializePayload (hne : e.placements ≠ []) : s.materializePayload oid = .ok r.payload := by
  unfold Runtime.materializePayload
  rw [getMeta_eq_ok.mpr he]
  change (if _ then _ else _) = _
  by_cases hhost : .host ∈ e.placementTiers
  · rw [if_pos hhost]
    exact h.reconstruct_host hS hr he ho hhost
  · rw [if_neg hhost]
    cases hdev : e.placements.findSome? Placement.device? with
    | some dev =>
      exact h.download he ho (device_of_findSome hdev)
    | none =>
      have hpers : .persistent ∈ e.placementTiers := by
        obtain ⟨p, hp⟩ := List.exists_mem_of_ne_nil _ hne
        cases p with
        | persistent => exact Entry.mem_placementTiers.mpr ⟨_, hp, rfl⟩
        | host refs => exact absurd (Entry.mem_placementTiers.mpr ⟨_, hp, rfl⟩) hhost
        | accelerator dev =>
          have := List.findSome?_eq_none_iff.mp hdev _ hp
          cases this
      dsimp only
      rw [if_pos hpers, h.reconstruct_durable hS hr he ho hpers]
      rfl

lemma verifyTiers (tiers : List Tier) (ht : ∀ t ∈ tiers, t ∈ e.placementTiers) :
    s.verifyTiers oid r.payload tiers = .ok tiers.length := by
  induction tiers with
  | nil => rfl
  | cons t tiers ih =>
    have hrest := ih fun t' ht' => ht t' (by simp [ht'])
    simp only [Runtime.verifyTiers, h.materializeFrom hS hr he ho (ht t (by simp)), bind,
      Except.bind, hrest]
    simp

/-- Verification of an object with a placement finds no disagreement. -/
theorem verify (hne : e.placements ≠ []) :
    s.verify oid = .ok ⟨oid.toHex, e.placementTiers.length, e.byteLen, true⟩ := by
  have hlen : UInt64.ofNat r.payload.length = e.byteLen := (h.entryOk he ho).byteLen.symm
  simp only [Runtime.verify, h.materializePayload hS hr he ho hne, getMeta_eq_ok.mpr he, bind,
    Except.bind, hlen, h.verifyTiers hS hr he ho _ fun t ht => ht]
  simp

end Safe

/-! ### Restoring -/

/-- What `restore` returns has been materialized in the state it began in. -/
lemma materializePayload_of_restore {bytes : Bytes} {s' : Runtime}
    (h : restore env oid t s = .ok bytes s') : s.materializePayload oid = .ok bytes := by
  have hspec : Triple (· = s) (restore env oid t) (fun b _ => s.materializePayload oid = .ok b)
      (fun _ => True) := by
    refine Triple.get_bind ?_
    rintro s rfl
    refine ofExcept_bind_triple (I := fun _ => True) ⟨⟩ fun quarantined _ => ?_
    refine Triple.ite (fun _ => Triple.throw fun _ _ => ⟨⟩) fun _ => ?_
    refine ofExcept_bind_triple (I := fun _ => True) ⟨⟩ fun b hb => ?_
    refine ofExcept_bind_triple (I := fun _ => True) ⟨⟩ fun resident _ => ?_
    have hret : ∀ m : M PUnit, Triple (· = s) (m >>= fun _ => pure b)
        (fun b _ => s.materializePayload oid = .ok b) (fun _ => True) := fun m =>
      Triple.bind (Q := fun _ _ => True) (fun s' _ => by cases m s' <;> exact ⟨⟩) fun _ =>
        Triple.pure fun _ _ => hb
    refine Triple.ite (fun _ => hret _) fun _ => ?_
    refine Triple.bind (Q := fun _ _ => True) (fun s' _ => ?_) fun _ =>
      Triple.bind (Q := fun _ _ => True) (fun s' _ => ?_) fun _ => Triple.pure fun _ _ => hb
    · cases addPlacement env oid t b s' <;> exact ⟨⟩
    · cases EStateM.ignoring (enforceCapacity env) s' <;> exact ⟨⟩
  exact hspec.ok rfl h

/-- Restoring into a tier where the object already is returns its payload and changes nothing. -/
theorem Safe.restore_resident (hS : CollisionFree sc.blocks) (h : Safe sc config o s)
    (hr : Readable s) (he : s.entries.lookup oid.toHex = some e) (ho : o oid.toHex = some r)
    (ht : t ∈ e.placementTiers) : restore env oid t s = .ok r.payload s := by
  have hne : e.placements ≠ [] := by
    intro hnil
    simp [Entry.placementTiers, hnil] at ht
  have hq : s.entryQuarantined oid = .ok false := by
    rw [entryQuarantined, getMeta_eq_ok.mpr he]
    simp [Except.map, Entry.isQuarantined, (h.entryOk he ho).flags]
  have hres : s.entryHasTier oid t = .ok true :=
    entryHasTier_eq_ok.mpr ⟨e, he, Entry.hasTier_iff.mpr ht⟩
  have henforce : EStateM.ignoring (enforceCapacity env) s = .ok ⟨⟩ s := by
    rw [EStateM.ignoring, enforceCapacity_of_le h.fits]
    rfl
  change (EStateM.ofExcept (s.entryQuarantined oid) >>= _) s = _
  rw [hq, ofExcept_ok_bind]
  change (EStateM.ofExcept (s.materializePayload oid) >>= _) s = _
  rw [h.materializePayload hS hr he ho hne, ofExcept_ok_bind, hres, ofExcept_ok_bind,
    if_pos rfl]
  change EStateM.bind _ _ s = _
  simp only [EStateM.bind, henforce]
  rfl

/-! ### Which calls keep it -/

/-- A placement that a call adds to the host or to the persistent tier is cut as the entry
lists it. -/
def AddsAsListed (config : RuntimeConfig) (o : Origin) (c : Call) (s : Runtime) : Prop :=
  ∀ oid t e r, c.adds = some (oid, t) → s.entries.lookup oid.toHex = some e →
    o oid.toHex = some r → t ∉ e.placementTiers → t = .host ∨ t = .persistent →
    chunk r.payload config.blockSize.toNat = .ok e.blocks

lemma mem_push {p q : Placement} : q ∈ (e.push p).placements ↔ q ∈ e.placements ∨ q = p := by
  simp [Entry.push]

lemma Readable.addEffect (h₀ : Safe sc config o s₀) (hr : Readable s₀)
    (hadds : t = .host ∨ t = .persistent → chunk r.payload config.blockSize.toNat = .ok e.blocks)
    (he : s₀.entries.lookup oid.toHex = some e) {s' : Runtime} (heff : AddEffect s₀ oid r e t s') :
    Readable s' := by
  have hnew : ∀ p : Placement, (∀ refs, p = .host refs → refs = e.blocks) →
      ∀ k e, (s₀.entries.modify oid.toHex (Entry.push p)).lookup k = some e →
        ∀ refs, .host refs ∈ e.placements → refs = e.blocks := by
    intro p hp
    refine AList.forall_modify hr.host fun e' he' hold refs hrefs => ?_
    rw [he] at he'
    cases he'
    rcases mem_push.mp hrefs with hrefs | hrefs
    · exact hold refs hrefs
    · exact hp refs hrefs.symm
  have hstore : ∀ p : Placement, p ≠ .persistent →
      ∀ k e, (s₀.entries.modify oid.toHex (Entry.push p)).lookup k = some e →
        .persistent ∈ e.placements → s₀.persistent.isSome := by
    intro p hp
    refine AList.forall_modify hr.store fun e' he' hold hmem => ?_
    rcases mem_push.mp hmem with hmem | hmem
    · exact hold hmem
    · exact absurd hmem.symm hp
  cases heff with
  | refused => exact hr
  | host hps hchunk hn hfits =>
    refine ⟨hnew _ ?_, hstore _ (by simp), fun x => (demand_push he _).trans_le (hr.durable x)⟩
    rintro refs ⟨⟩
    rw [h₀.config_eq, hadds (Or.inl rfl)] at hchunk
    exact (Except.ok.inj hchunk).symm
  | uploadFailed hkeep => exact ⟨hr.host, hr.store, hr.durable⟩
  | uploaded hid hold hkeep =>
    exact ⟨hnew _ (by simp), hstore _ (by simp), fun x =>
      (demand_push he _).trans_le (hr.durable x)⟩
  | keepFailed hkeep =>
    refine ⟨hr.host, fun k e he hmem => ?_, fun x => (hr.durable x).trans (hkeep.count x)⟩
    exact hkeep.store.trans (hr.store k e he hmem)
  | kept hchunk hnumel hkeep =>
    refine ⟨hnew _ (by simp), fun _ _ _ _ => hkeep.store, fun x => ?_⟩
    rw [h₀.config_eq, hadds (Or.inr rfl)] at hchunk
    cases hchunk
    refine (demand_push he _).trans_le ?_
    exact (Nat.add_le_add_right (hr.durable x) _).trans_eq (hkeep.count x).symm

lemma Readable.removeEffect (hr : Readable s) {s' : Runtime}
    (heff : RemoveEffect env s oid t s') : Readable s' := by
  have hhost : ∀ t k e, (s.entries.modify oid.toHex (Entry.without t)).lookup k = some e →
      ∀ refs, .host refs ∈ e.placements → refs = e.blocks := fun t =>
    AList.forall_modify hr.host fun e _ hold refs hrefs =>
      hold refs (Entry.mem_of_mem_without hrefs)
  have hstore : ∀ t k e, (s.entries.modify oid.toHex (Entry.without t)).lookup k = some e →
      .persistent ∈ e.placements → s.persistent.isSome := fun t =>
    AList.forall_modify hr.store fun e _ hold hmem => hold (Entry.mem_of_mem_without hmem)
  cases heff with
  | absent => exact hr
  | host he hp =>
    exact ⟨hhost _, hstore _, fun x => Safe.demand_without_le he hp (hr.durable x)⟩
  | device he hp =>
    exact ⟨hhost _, hstore _, fun x => Safe.demand_without_le he hp (hr.durable x)⟩
  | @persistent e d he hp hdrop =>
    refine ⟨hhost _, fun k e he' hmem => hdrop.store.trans (hstore _ k e he' hmem), fun x => ?_⟩
    have hdemand := demand_without (w := durableWeight x) he hp
    have hle := hr.durable x
    have hcount := hdrop.count x
    rw [durableWeight] at hdemand
    change demand _ (s.entries.modify oid.toHex (Entry.without .persistent)) ≤ d.count x
    omega

lemma Readable.touch (hr : Readable s) {f : Entry → Entry} (hf : Entry.Touches f)
    (oid : ObjectId) : Readable (updateEntry oid f s) := by
  have hsame : ∀ e, (f e).placements = e.placements ∧ (f e).blocks = e.blocks := fun e => by
    obtain ⟨reuse, lastUse, durable, hfe⟩ := hf e
    rw [hfe]
    exact ⟨rfl, rfl⟩
  refine ⟨AList.forall_modify hr.host fun e _ hold => ?_,
    AList.forall_modify hr.store fun e _ hold => ?_,
    fun x => (demand_touch hf).trans_le (hr.durable x)⟩
  · rw [(hsame e).1, (hsame e).2]
    exact hold
  · rw [(hsame e).1]
    exact hold

/-- Only the placement that a call adds can make a state unreadable. -/
theorem Readable.extension (h₀ : Safe sc config o s₀) (hr : Readable s₀)
    (hadds : AddsAsListed config o c s₀) :
    Extension sc config o env c s₀ Readable Readable := by
  refine ⟨hr, fun s oid f hf _ hs => hs.touch hf oid, fun oid t e r s' hc he ho ht _ heff _ => ?_,
    fun s s' oid t _ _ hs heff => hs.removeEffect heff,
    fun r byteLen numel ps n s _ _ hs _ _ _ _ _ hnew _ _ => ?_, fun s oid e _ _ hs he hempty => ?_,
    fun s oid _ hsafe hs _ => ?_, fun s hs => hs⟩
  · exact hr.addEffect h₀ (fun ht' => hadds oid t e r hc he ho ht ht') he heff
  · refine ⟨AList.forall_insert hs.host ?_, AList.forall_insert hs.store ?_, fun x => ?_⟩
    · intro refs hrefs
      cases List.mem_singleton.mp hrefs
      rfl
    · intro hmem
      cases List.mem_singleton.mp hmem
    · refine (demand_insert hnew _).trans_le ?_
      change 0 + demand _ s.entries ≤ s.durable.count x
      rw [Nat.zero_add]
      exact hs.durable x
  · have hstate : removeEntry oid s
        = { s with entries := s.entries.erase oid.toHex, objectCount := s.objectCount - 1 } := by
      rw [removeEntry, he]
    rw [hstate]
    refine ⟨AList.forall_erase hs.host _, AList.forall_erase hs.store _, fun x => ?_⟩
    have hdemand := demand_erase (w := durableWeight x) he
    have := hs.durable x
    change demand _ (s.entries.erase oid.toHex) ≤ s.durable.count x
    omega
  · obtain ⟨-, hstore, hrefs, -⟩ := Durable.removeManifest_tier env.io hsafe.durable oid
    refine ⟨hs.host, fun k e he hmem => hstore.trans (hs.store k e he hmem), fun x => ?_⟩
    refine (hs.durable x).trans_eq ?_
    rw [Durable.count, Durable.count]
    exact congrArg (fun m => (AList.lookup x m).getD 0) hrefs.symm

end TensorCache
