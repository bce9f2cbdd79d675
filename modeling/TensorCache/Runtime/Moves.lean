import TensorCache.Runtime.Safe

/-!
# What the moves do

The states that adding or removing a placement can lead to (`AddEffect`, `RemoveEffect`), and
that every move, and with them every call, keeps `Safe`.
-/

namespace TensorCache

open Codec EStateM

namespace Runtime

variable {sc : Scope} {config : RuntimeConfig} {o : Origin} {s s' : Runtime} {env : Env}
  {oid : ObjectId} {t : Tier} {e : Entry} {r : Registration} {k : Str}

/-- The host tier after the pieces of a payload have been taken in. -/
def admitted (s : Runtime) (ps : List Bytes) (n : ℕ) : HostTier :=
  ⟨s.host.takeAll ps, { s.accounting.host with used := s.accounting.host.used + n }⟩

/-- What adding the payload of `r` to a tier can lead to. -/
inductive AddEffect (s : Runtime) (oid : ObjectId) (r : Registration) (e : Entry) :
    Tier → Runtime → Prop where
  | refused (t : Tier) : AddEffect s oid r e t s
  | host {ps : List Bytes} {n : ℕ} (hps : ps = pieces r.payload s.config.blockSize.toNat)
      (hchunk : chunk r.payload s.config.blockSize.toNat = .ok (refsFrom 0 ps))
      (hn : n = newBytes s.host.contains (refsFrom 0 ps)) (hfits : n ≤ s.accounting.free .host) :
      AddEffect s oid r e .host
        (updateEntry oid (Entry.push (.host (refsFrom 0 ps))) (s.setHostTier (s.admitted ps n)))
  | uploadFailed {id : BackendId} {d : Devices}
      (hkeep : ∀ dev p, s.devices.Holds dev p → d.Holds dev p) :
      AddEffect s oid r e (.accelerator id) (s.setDevices d)
  | uploaded {id : BackendId} {d : Devices} {dev : DeviceBuffer} (hid : dev.backend = id)
      (hold : d.Holds dev r.payload)
      (hkeep : ∀ dev' p, s.devices.Holds dev' p → d.Holds dev' p ∧ Devices.Apart dev' dev) :
      AddEffect s oid r e (.accelerator id)
        (updateEntry oid (Entry.push (.accelerator dev)) (s.setDevices d))
  | keepFailed {d : Durable} (hkeep : Durable.KeepFailed oid s.durable d) :
      AddEffect s oid r e .persistent (s.setDurable d)
  | kept {d : Durable} {numel : UInt64} {blocks : List BlockRef}
      (hchunk : chunk r.payload s.config.blockSize.toNat = .ok blocks)
      (hnumel : e.compat.shape.numel = .ok numel)
      (hkeep : Durable.KeepOk oid blocks
        (Durable.metaOf oid e.address e.compat e.byteLen numel e.createdNs blocks) s.durable d) :
      AddEffect s oid r e .persistent (updateEntry oid (Entry.push .persistent) (s.setDurable d))

/-- An addition changes one entry at most, by the new placement. -/
lemma AddEffect.entries (h : AddEffect s oid r e t s') : s'.entries = s.entries ∨
    ∃ p : Placement, p.tier = t ∧ s'.entries = s.entries.modify oid.toHex (Entry.push p) := by
  cases h with
  | refused => exact Or.inl rfl
  | host => exact Or.inr ⟨_, rfl, rfl⟩
  | uploadFailed => exact Or.inl rfl
  | @uploaded id d dev hid =>
    exact Or.inr ⟨.accelerator dev, congrArg Tier.accelerator hid, rfl⟩
  | keepFailed => exact Or.inl rfl
  | kept => exact Or.inr ⟨_, rfl, rfl⟩

/-- The persistent tier that an effect leaves behind is in order. -/
def DurableOk (sc : Scope) (config : RuntimeConfig) (s : Runtime) : Prop :=
  s.durable.Wf sc.blocks (ManifestOk sc) config.persistentCapacity.toNat

lemma hostPlan_ok {byteLen : UInt64} {bytes : Bytes} {blocks : List BlockRef} {n : ℕ}
    (h : s.hostPlan byteLen bytes = .ok (blocks, n)) :
    chunk bytes s.config.blockSize.toNat = .ok blocks ∧ n = newBytes s.host.contains blocks ∧
      n ≤ s.accounting.free .host := by
  unfold hostPlan at h
  cases hc : chunk bytes s.config.blockSize.toNat with
  | error e => rw [hc] at h; cases h
  | ok bs =>
    rw [hc] at h
    change (validateBlockList bs byteLen >>= fun _ =>
      if newBytes s.host.contains bs > s.accounting.free .host then _ else _) = _ at h
    cases hv : validateBlockList bs byteLen with
    | error e => rw [hv] at h; cases h
    | ok u =>
      rw [hv] at h
      change (if _ then _ else _) = _ at h
      split_ifs at h with hcap
      cases h
      exact ⟨rfl, rfl, not_lt.mp hcap⟩

/-- The manifest that an entry would get is a proper one. -/
lemma manifestOk_metaOf (h : Safe sc config o s) (he : s.entries.lookup oid.toHex = some e)
    (ho : o oid.toHex = some r) {blocks : List BlockRef} {numel : UInt64}
    (hchunk : chunk r.payload s.config.blockSize.toNat = .ok blocks)
    (hnumel : e.compat.shape.numel = .ok numel) :
    ManifestOk sc (manifestFile oid)
      (Durable.metaOf oid e.address e.compat e.byteLen numel e.createdNs blocks) := by
  have hok := h.entryOk he ho
  have hoid : oid = r.address.objectId := ObjectId.toHex_injective hok.key
  rw [hok.address, hok.compat, hok.byteLen, hoid]
  refine ⟨r, hok.registered, s.config.blockSize.toNat, ?_, numel, e.createdNs, blocks, rfl, hchunk,
    ?_, ?_, rfl⟩
  · rw [h.config_eq]
    exact h.blockSize
  · rw [← hok.byteLen]
    exact hok.shape
  · rw [← hok.compat]
    exact hnumel

section Add

variable (hS : CollisionFree sc.blocks) (h : Safe sc config o s)
  (he : s.entries.lookup oid.toHex = some e) (ho : o oid.toHex = some r)

include h

/-- The arena command of the host branch. -/
lemma onHost_takeIn {byteLen : UInt64} {blocks : List BlockRef} {n : ℕ}
    (hplan : s.hostPlan byteLen r.payload = .ok (blocks, n)) :
    Triple (· = s) (onHost (HostTier.takeIn r.payload blocks n))
      (fun acquired s' => DurableOk sc config s' ∧
        AddEffect s oid r e .host (updateEntry oid (Entry.push (.host acquired)) s'))
      (fun _ => False) := by
  obtain ⟨hchunk, hn, hfits⟩ := hostPlan_ok hplan
  obtain ⟨hrefs, htiles⟩ := chunk_spec hchunk
  rw [hrefs] at hchunk hn ⊢
  rintro s rfl
  rw [onHost, zoom_of_ok (h.host.takeIn htiles r.payload_small hfits)]
  exact ⟨h.durable, .host rfl hchunk hn hfits⟩

include hS he ho

/-- The store command of the persistent branch. -/
lemma onDurable_keep (env : Env) :
    Triple (· = s) (onDurable (Durable.keep env.io s.config.blockSize.toNat oid e.address e.compat
        e.byteLen e.createdNs r.payload))
      (fun _ s' => DurableOk sc config s' ∧
        AddEffect s oid r e .persistent (updateEntry oid (Entry.push .persistent) s'))
      (fun s' => DurableOk sc config s' ∧ AddEffect s oid r e .persistent s') := by
  have hok := h.entryOk he ho
  have hsize : s.config.blockSize.toNat ∈ sc.sizes := by
    rw [h.config_eq]
    exact h.blockSize
  have henc : e.compat.encode.length < 2 ^ 64 := by
    rw [hok.compat]
    exact r.compat_small
  have hkeep := Durable.keep_spec env.io hS h.durable r.payload_small
    (Scope.pieces_mem hok.registered hsize) henc
    fun blocks numel hchunk hnumel => manifestOk_metaOf h he ho hchunk hnumel
  rintro s rfl
  cases hrun : onDurable (Durable.keep env.io s.config.blockSize.toNat oid e.address e.compat
      e.byteLen e.createdNs r.payload) s with
  | ok u s' =>
    obtain ⟨d, hd, rfl⟩ := zoom_eq_ok hrun
    obtain ⟨hwf, blocks, numel, hchunk, hnumel, hkept⟩ := hkeep.ok rfl hd
    exact ⟨hwf, .kept hchunk hnumel hkept⟩
  | error err s' =>
    obtain ⟨d, hd, rfl⟩ := zoom_eq_error hrun
    obtain ⟨hwf, hfailed⟩ := hkeep.error rfl hd
    exact ⟨hwf, .keepFailed hfailed⟩

theorem addPlacement_effect (env : Env) (t : Tier) :
    DurableOk sc config (addPlacement env oid t r.payload s).state ∧
      AddEffect s oid r e t (addPlacement env oid t r.payload s).state := by
  refine Triple.state (P := (· = s)) (I := fun s' => DurableOk sc config s' ∧
    AddEffect s oid r e t s') ?_ rfl
  refine Triple.get_bind ?_
  rintro s rfl
  have hrefused : ∀ s', s' = s → DurableOk sc config s' ∧ AddEffect s oid r e t s' := by
    rintro s rfl
    exact ⟨h.durable, .refused t⟩
  rw [getMeta_eq_ok.mpr he, ofExcept_ok_bind]
  refine Triple.ite (fun _ => Triple.throw hrefused) fun _ => ?_
  cases t with
  | host =>
    cases hplan : s.hostPlan e.byteLen r.payload with
    | error err => exact Triple.throw hrefused
    | ok plan =>
      obtain ⟨blocks, n⟩ := plan
      rw [ofExcept_ok_bind]
      refine Triple.bind (Triple.conseq (onHost_takeIn h hplan) (fun _ hs => hs) (fun _ _ hs => hs)
        fun _ hs => hs.elim) fun acquired => Triple.modify fun s' hs' => hs'
  | accelerator id =>
    refine Triple.bind (Q := fun dev s' => DurableOk sc config s' ∧ AddEffect s oid r e
      (.accelerator id) (updateEntry oid (Entry.push (.accelerator dev)) s')) ?_
      fun dev => Triple.modify fun s' hs' => hs'
    rintro s rfl
    cases hrun : onDevices (Devices.upload env.driver id r.payload) s with
    | ok dev s' =>
      obtain ⟨d, hd, rfl⟩ := zoom_eq_ok hrun
      obtain ⟨hid, -, hold, hkeep⟩ := Devices.upload_ok hd
      exact ⟨h.durable, .uploaded hid hold hkeep⟩
    | error err s' =>
      obtain ⟨d, hd, rfl⟩ := zoom_eq_error hrun
      exact ⟨h.durable, .uploadFailed fun dev p hold => Devices.upload_error hd hold⟩
  | persistent =>
    exact Triple.bind (onDurable_keep hS h he ho env) fun _ => Triple.modify fun s' hs' => hs'

end Add

/-- The state after a new tensor has been taken in. -/
def withEntry (env : Env) (r : Registration) (byteLen numel : UInt64) (ps : List Bytes) (n : ℕ)
    (s : Runtime) : Runtime :=
  insertEntry r.address.objectId.toHex
    (newEntry env r byteLen numel (refsFrom 0 ps) (refsFrom 0 ps)) (s.setHostTier (s.admitted ps n))

/-- The persistent tier after the manifest of an object has been removed. -/
def cleaned (env : Env) (oid : ObjectId) (s : Runtime) : Durable :=
  (Durable.onStore (PersistentStore.removeManifest env.io oid.toHex) s.durable).state

lemma removeManifest_state (env : Env) (oid : ObjectId) (s : Runtime) :
    (removeManifest env oid s).state = s.setDurable (cleaned env oid s) :=
  zoom_state

/-- What removing a placement can lead to. -/
inductive RemoveEffect (env : Env) (s : Runtime) (oid : ObjectId) : Tier → Runtime → Prop where
  | absent (t : Tier) : RemoveEffect env s oid t s
  | host {e : Entry} {refs : List BlockRef} (he : s.entries.lookup oid.toHex = some e)
      (hp : e.tier? .host = some (.host refs)) :
      RemoveEffect env s oid .host ((updateEntry oid (Entry.without .host) s).setHostTier
        (HostTier.release refs s.hostTier).state)
  | device {e : Entry} {dev : DeviceBuffer} {id : BackendId}
      (he : s.entries.lookup oid.toHex = some e)
      (hp : e.tier? (.accelerator id) = some (.accelerator dev)) :
      RemoveEffect env s oid (.accelerator id)
        ((updateEntry oid (Entry.without (.accelerator id)) s).setDevices
          (Devices.release env.driver dev s.devices).state)
  | persistent {e : Entry} {d : Durable} (he : s.entries.lookup oid.toHex = some e)
      (hp : e.tier? .persistent = some .persistent)
      (hdrop : Durable.Dropped env.io oid e.blocks s.durable d) :
      RemoveEffect env s oid .persistent
        ((updateEntry oid (Entry.without .persistent) s).setDurable d)

lemma RemoveEffect.entries (h : RemoveEffect env s oid t s') : s'.entries = s.entries ∨
    s'.entries = s.entries.modify oid.toHex (Entry.without t) := by
  cases h with
  | absent => exact Or.inl rfl
  | host => exact Or.inr rfl
  | device => exact Or.inr rfl
  | persistent => exact Or.inr rfl

theorem removePlacement_effect (hS : CollisionFree sc.blocks) (h : Safe sc config o s) (env : Env)
    (oid : ObjectId) (t : Tier) :
    DurableOk sc config (removePlacement env oid t s).state ∧
      RemoveEffect env s oid t (removePlacement env oid t s).state := by
  by_cases hp : ∀ e, s.entries.lookup oid.toHex = some e → e.tier? t = none
  · obtain ⟨err, herr⟩ := removePlacement_of_none env hp
    rw [herr]
    exact ⟨h.durable, .absent t⟩
  · push Not at hp
    obtain ⟨e, he, hp⟩ := hp
    obtain ⟨p, hp⟩ := Option.ne_none_iff_exists'.mp hp
    obtain ⟨r, -, hok⟩ := h.entry _ e he
    have htier := (Entry.tier_of_tier? hp).2
    subst htier
    rw [removePlacement_of_some he hp]
    cases p with
    | host refs =>
      rw [freePlacement, onHost, zoom_state]
      exact ⟨h.durable, .host he hp⟩
    | accelerator dev =>
      rw [freePlacement, onDevices, zoom_state]
      exact ⟨h.durable, .device he hp⟩
    | persistent =>
      obtain ⟨d, hrun, hwf, hdrop⟩ := Durable.drop_spec env.io hS hok.refTo h.durable oid
      have hrun' : Durable.drop env.io e.blocks oid
          (updateEntry oid (Entry.without Placement.persistent.tier) s).durable = .ok ⟨⟩ d := hrun
      rw [freePlacement, onDurable, zoom_of_ok hrun']
      exact ⟨hwf, .persistent he hp hdrop⟩

end Runtime

/-! ### Entries under the moves -/

section EntryOk

variable {sc : Scope} {blockSize : ℕ} {d d' : Devices} {r : Registration} {k : Str} {e : Entry}

lemma EntryOk.touch (h : EntryOk sc blockSize d r k e) {f : Entry → Entry}
    (hf : Entry.Touches f) : EntryOk sc blockSize d r k (f e) := by
  obtain ⟨reuse, lastUse, durable, he⟩ := hf e
  rw [he]
  exact ⟨h.registered, h.key, h.address, h.compat, h.compatId, h.byteLen, h.shape, h.numel,
    h.flags, h.blocks, h.tiers, h.host, h.device⟩

lemma EntryOk.without (h : EntryOk sc blockSize d r k e) (t : Tier)
    (hdev : ∀ dev, .accelerator dev ∈ (e.without t).placements → d'.Holds dev r.payload) :
    EntryOk sc blockSize d' r k (e.without t) :=
  ⟨h.registered, h.key, h.address, h.compat, h.compatId, h.byteLen, h.shape, h.numel, h.flags,
    h.blocks, by rw [Entry.placementTiers_without]; exact h.tiers.erase t,
    fun refs hrefs => h.host refs (Entry.mem_of_mem_without hrefs), hdev⟩

lemma EntryOk.push (h : EntryOk sc blockSize d r k e) {p : Placement}
    (hp : p.tier ∉ e.placementTiers)
    (hhost : ∀ refs, p = .host refs → chunk r.payload blockSize = .ok refs)
    (hdev : ∀ dev, p = .accelerator dev → d.Holds dev r.payload) :
    EntryOk sc blockSize d r k (e.push p) := by
  refine ⟨h.registered, h.key, h.address, h.compat, h.compatId, h.byteLen, h.shape, h.numel,
    h.flags, h.blocks, ?_, fun refs hrefs => ?_, fun dev hdev' => ?_⟩
  · rw [Entry.placementTiers_push]
    exact List.nodup_append.mpr ⟨h.tiers, List.nodup_singleton _, fun a ha b hb => by
      rintro rfl
      exact hp (List.mem_singleton.mp hb ▸ ha)⟩
  · rcases List.mem_append.mp hrefs with hrefs | hrefs
    · exact h.host refs hrefs
    · exact hhost refs (List.mem_singleton.mp hrefs).symm
  · rcases List.mem_append.mp hdev' with hdev' | hdev'
    · exact h.device dev hdev'
    · exact hdev dev (List.mem_singleton.mp hdev').symm

end EntryOk

namespace Safe

open TensorCache.Runtime

variable {sc : Scope} {config : RuntimeConfig} {o : Origin} {s s' : Runtime} {env : Env}
  {oid : ObjectId} {t : Tier} {e : Entry} {r : Registration} {k : Str}

/-- Changing one entry. -/
lemma entry_modify (h : Safe sc config o s) {f : Entry → Entry} {d : Devices}
    (hself : ∀ e r, s.entries.lookup k = some e → o k = some r →
      EntryOk sc config.blockSize.toNat s.devices r k e →
      EntryOk sc config.blockSize.toNat d r k (f e))
    (hothers : ∀ k' e r, k' ≠ k → s.entries.lookup k' = some e →
      EntryOk sc config.blockSize.toNat s.devices r k' e →
      EntryOk sc config.blockSize.toNat d r k' e) :
    ∀ k' e, (s.entries.modify k f).lookup k' = some e →
      ∃ r, o k' = some r ∧ EntryOk sc config.blockSize.toNat d r k' e := by
  intro k' e' he'
  by_cases hk : k' = k
  · subst hk
    rw [AList.lookup_modify_self] at he'
    obtain ⟨e, he, rfl⟩ := Option.map_eq_some_iff.mp he'
    obtain ⟨r, ho, hok⟩ := h.entry k' e he
    exact ⟨r, ho, hself e r he ho hok⟩
  · rw [AList.lookup_modify_ne hk] at he'
    obtain ⟨r, ho, hok⟩ := h.entry k' e' he'
    exact ⟨r, ho, hothers k' e' r hk he' hok⟩

theorem touch (h : Safe sc config o s) {f : Entry → Entry} (hf : Entry.Touches f)
    (oid : ObjectId) : Safe sc config o (updateEntry oid f s) where
  config_eq := h.config_eq
  blockSize := h.blockSize
  entry := h.entry_modify (fun _ _ _ _ hok => hok.touch hf) fun _ _ _ _ _ hok => hok
  host := h.host
  hostDemand x := (demand_touch hf).trans_le (h.hostDemand x)
  deviceDemand x := (demand_touch hf).trans_le (h.deviceDemand x)
  durable := h.durable

/-! ### Devices -/

/-- A buffer at another address than all those in use. -/
lemma apart_of_demand {entries : HashMap Str Entry} {dev dev' : DeviceBuffer}
    (hdemand : ∀ x, dev.address = some x → demand (deviceWeight x) entries = 0)
    (he : entries.lookup k = some e) (hdev' : .accelerator dev' ∈ e.placements) :
    Devices.Apart dev' dev := by
  by_cases hsame : dev'.address = dev.address
  · left
    by_contra hsome
    obtain ⟨x, hx⟩ := Option.ne_none_iff_exists'.mp hsome
    have := le_demand (w := deviceWeight x) he hdev'
    rw [hdemand x (hsame ▸ hx), deviceWeight, if_pos hx] at this
    omega
  · exact Or.inr hsame

lemma demand_eq_zero_of_apart {entries : HashMap Str Entry} {dev : DeviceBuffer}
    (hapart : ∀ k e dev', entries.lookup k = some e → .accelerator dev' ∈ e.placements →
      Devices.Apart dev' dev) {x : BackendId × UInt64} (hx : dev.address = some x) :
    demand (deviceWeight x) entries = 0 := by
  refine AList.total_eq_zero fun k e he => Entry.weight_eq_zero fun p hp => ?_
  cases p with
  | host refs => rfl
  | persistent => rfl
  | accelerator dev' =>
    rw [deviceWeight, if_neg]
    intro hx'
    rcases hapart k e dev' he hp with hnone | hne
    · rw [hnone] at hx'
      cases hx'
    · exact hne (hx'.trans hx.symm)

/-! ### Additions and removals -/

/-- A new placement on one entry. -/
lemma entry_push (h : Safe sc config o s) (he : s.entries.lookup k = some e) (ho : o k = some r)
    (p : Placement) (hp : p.tier ∉ e.placementTiers) {d : Devices}
    (hkeep : ∀ dev p, s.devices.Holds dev p → d.Holds dev p)
    (hhost : ∀ refs, p = .host refs → chunk r.payload config.blockSize.toNat = .ok refs)
    (hdev : ∀ dev, p = .accelerator dev → d.Holds dev r.payload) :
    ∀ k' e, (s.entries.modify k (Entry.push p)).lookup k' = some e →
      ∃ r, o k' = some r ∧ EntryOk sc config.blockSize.toNat d r k' e := by
  have hmono : ∀ {k' e' r'}, EntryOk sc config.blockSize.toNat s.devices r' k' e' →
      EntryOk sc config.blockSize.toNat d r' k' e' :=
    fun hok => hok.of_devices fun dev hdev => hkeep dev _ (hok.device dev hdev)
  refine h.entry_modify (fun e' r' he' ho' hok => ?_) fun _ _ _ _ _ hok => hmono hok
  rw [he] at he'
  rw [ho] at ho'
  cases he'
  cases ho'
  exact (hmono hok).push hp hhost hdev

/-- Every state that an addition can lead to is safe. -/
theorem addEffect (h : Safe sc config o s) (he : s.entries.lookup oid.toHex = some e)
    (ho : o oid.toHex = some r) (ht : t ∉ e.placementTiers) (hdurable : DurableOk sc config s')
    (heff : AddEffect s oid r e t s') : Safe sc config o s' := by
  have hok := h.entryOk he ho
  cases heff with
  | refused => exact h
  | @host ps n hps hchunk hn hfits =>
    rw [h.config_eq] at hps hchunk
    have hmem : ∀ b ∈ ps, b ∈ sc.blocks := by
      rw [hps]
      exact Scope.pieces_mem hok.registered h.blockSize
    refine ⟨h.config_eq, h.blockSize, h.entry_push he ho (.host (refsFrom 0 ps)) ht (fun _ _ hold => hold) ?_
      (by simp),
      h.host.admitted hmem hfits, fun x => ?_, fun x => ?_, hdurable⟩
    · rintro refs ⟨⟩
      exact hchunk
    · refine (demand_push he _).trans_le ?_
      refine (Nat.add_le_add_right (h.hostDemand x) _).trans_eq ?_
      exact (h.host.arena.count_takeAll hmem 0 x).symm
    · exact (demand_push he _).trans_le (h.deviceDemand x)
  | uploadFailed hkeep =>
    refine ⟨h.config_eq, h.blockSize, fun k e he => ?_, h.host, h.hostDemand, h.deviceDemand,
      hdurable⟩
    obtain ⟨r, ho, hok⟩ := h.entry k e he
    exact ⟨r, ho, hok.of_devices fun dev hdev => hkeep dev _ (hok.device dev hdev)⟩
  | @uploaded id d dev hid hold hkeep =>
    refine ⟨h.config_eq, h.blockSize,
      h.entry_push he ho (.accelerator dev) (by rw [Placement.tier, hid]; exact ht)
        (fun dev p hp => (hkeep dev p hp).1) (by simp) ?_, h.host, fun x => ?_, fun x => ?_, hdurable⟩
    · rintro dev ⟨⟩
      exact hold
    · exact (demand_push he _).trans_le (h.hostDemand x)
    · refine (demand_push he _).trans_le ?_
      rw [deviceWeight]
      split_ifs with hx
      · -- no buffer in use has the new address
        have hzero : demand (deviceWeight x) s.entries = 0 := by
          refine demand_eq_zero_of_apart (fun k e dev' he' hdev' => ?_) hx
          obtain ⟨r', -, hok'⟩ := h.entry k e he'
          exact (hkeep dev' _ (hok'.device dev' hdev')).2
        omega
      · exact h.deviceDemand x
  | keepFailed hkeep =>
    exact ⟨h.config_eq, h.blockSize, h.entry, h.host, h.hostDemand, h.deviceDemand, hdurable⟩
  | kept hchunk hnumel hkeep =>
    refine ⟨h.config_eq, h.blockSize,
      h.entry_push he ho .persistent ht (fun _ _ hold => hold) (by simp) (by simp), h.host, fun x => ?_,
      fun x => ?_, hdurable⟩
    · exact (demand_push he _).trans_le (h.hostDemand x)
    · exact (demand_push he _).trans_le (h.deviceDemand x)

/-- One placement less. -/
lemma entry_without (h : Safe sc config o s) (t : Tier) {d : Devices}
    (hdev : ∀ k' e' dev p, (s.entries.modify k (Entry.without t)).lookup k' = some e' →
      .accelerator dev ∈ e'.placements → s.devices.Holds dev p → d.Holds dev p) :
    ∀ k' e, (s.entries.modify k (Entry.without t)).lookup k' = some e →
      ∃ r, o k' = some r ∧ EntryOk sc config.blockSize.toNat d r k' e := by
  refine h.entry_modify (fun e r he ho hok => hok.without t fun dev hdev' => ?_)
    fun k' e r hk he hok => hok.of_devices fun dev hdev' => ?_
  · refine hdev k _ dev _ ?_ hdev' (hok.device dev (Entry.mem_of_mem_without hdev'))
    rw [AList.lookup_modify_self, he]
    rfl
  · exact hdev k' e dev _ (by rw [AList.lookup_modify_ne hk, he]) hdev' (hok.device dev hdev')

lemma demand_without_le {w : List BlockRef → Placement → ℕ} {n : ℕ}
    (he : s.entries.lookup k = some e) {p : Placement} (hp : e.tier? t = some p)
    (hle : demand w s.entries ≤ n) : demand w (s.entries.modify k (Entry.without t)) ≤ n := by
  have := demand_without (w := w) he hp
  omega

/-- Every state that a removal can lead to is safe. -/
theorem removeEffect (h : Safe sc config o s) (hdurable : DurableOk sc config s')
    (heff : RemoveEffect env s oid t s') : Safe sc config o s' := by
  cases heff with
  | absent => exact h
  | @host e refs he hp =>
    obtain ⟨hwf, hcount⟩ := (HostTier.release_covers
      (fun x => demand (hostWeight x) (s.entries.modify oid.toHex (Entry.without .host)))
      refs).state (s := s.hostTier) ⟨h.host, fun x =>
        (demand_without he hp).trans_le (h.hostDemand x)⟩
    exact ⟨h.config_eq, h.blockSize, h.entry_without .host (fun _ _ _ _ _ _ hold => hold), hwf,
      hcount, fun x => demand_without_le he hp (h.deviceDemand x), hdurable⟩
  | @device e dev id he hp =>
    have hzero : ∀ x, dev.address = some x → demand (deviceWeight x)
        (s.entries.modify oid.toHex (Entry.without (.accelerator id))) = 0 := by
      intro x hx
      have := demand_without (w := deviceWeight x) he hp
      have := h.deviceDemand x
      rw [deviceWeight, if_pos hx] at *
      omega
    refine ⟨h.config_eq, h.blockSize, h.entry_without (.accelerator id) ?_, h.host,
      fun x => demand_without_le he hp (h.hostDemand x),
      fun x => demand_without_le he hp (h.deviceDemand x), hdurable⟩
    intro k' e' dev' p he' hdev' hold
    exact Devices.release_state hold (apart_of_demand hzero he' hdev')
  | persistent he hp hdrop =>
    exact ⟨h.config_eq, h.blockSize, h.entry_without .persistent (fun _ _ _ _ _ _ hold => hold),
      h.host, fun x => demand_without_le he hp (h.hostDemand x),
      fun x => demand_without_le he hp (h.deviceDemand x), hdurable⟩

/-- Adding a placement, as the calls do it: the payload has been materialized, and the object is
not resident yet. -/
theorem add (hS : CollisionFree sc.blocks) (h : Safe sc config o s) {bytes : Bytes}
    (hbytes : s.materializePayload oid = .ok bytes) (hres : s.entryHasTier oid t = .ok false)
    (env : Env) :
    ∃ e r, s.entries.lookup oid.toHex = some e ∧ o oid.toHex = some r ∧ t ∉ e.placementTiers ∧
      bytes = r.payload ∧ AddEffect s oid r e t (addPlacement env oid t bytes s).state ∧
      Safe sc config o (addPlacement env oid t bytes s).state := by
  obtain ⟨e, he, htier⟩ := entryHasTier_eq_ok.mp hres
  obtain ⟨r, ho, -⟩ := h.entry _ e he
  have ht : t ∉ e.placementTiers := by
    rw [← Entry.hasTier_iff, htier]
    simp
  obtain rfl := h.eq_of_materializePayload hS ho hbytes
  obtain ⟨hdurable, heff⟩ := addPlacement_effect hS h he ho env t
  exact ⟨e, r, he, ho, ht, rfl, heff, h.addEffect he ho ht hdurable heff⟩

theorem remove (hS : CollisionFree sc.blocks) (h : Safe sc config o s) (env : Env)
    (oid : ObjectId) (t : Tier) :
    RemoveEffect env s oid t (removePlacement env oid t s).state ∧
      Safe sc config o (removePlacement env oid t s).state := by
  obtain ⟨hdurable, heff⟩ := removePlacement_effect hS h env oid t
  exact ⟨heff, h.removeEffect hdurable heff⟩

/-! ### Entries that come and go -/

lemma fits (h : Safe sc config o s) : Fits s := by
  have := h.host.budget.fits
  change s.hostTier.budget.used ≤ s.hostTier.budget.capacity
  omega

theorem forget (h : Safe sc config o s) (he : s.entries.lookup oid.toHex = some e)
    (hempty : e.placements = []) : Safe sc config o (removeEntry oid s) := by
  have hstate : removeEntry oid s
      = { s with entries := s.entries.erase oid.toHex, objectCount := s.objectCount - 1 } := by
    rw [removeEntry, he]
  have hdemand : ∀ w, demand w (s.entries.erase oid.toHex) = demand w s.entries := by
    intro w
    have := demand_erase (w := w) he
    rw [Entry.weight, hempty] at this
    simpa using this
  rw [hstate]
  refine ⟨h.config_eq, h.blockSize, fun k e he' => ?_, h.host,
    fun x => (hdemand _).trans_le (h.hostDemand x), fun x => (hdemand _).trans_le (h.deviceDemand x),
    h.durable⟩
  simp only [AList.lookup_erase_eq_ite] at he'
  split_ifs at he'
  exact h.entry k e he'

theorem clean (h : Safe sc config o s) (env : Env) (oid : ObjectId) :
    Safe sc config o (s.setDurable (cleaned env oid s)) := by
  have hdurable := (Durable.removeManifest_tier env.io h.durable oid).1
  exact ⟨h.config_eq, h.blockSize, h.entry, h.host, h.hostDemand, h.deviceDemand, hdurable⟩

lemma admitEntry_eq (h : Safe sc config o s) {ps : List Bytes} (htiles : Tiles r.payload ps)
    {n : ℕ} (hn : n ≤ s.accounting.free .host) (byteLen numel : UInt64) :
    admitEntry env r byteLen numel (refsFrom 0 ps) n s
      = .ok ⟨⟩ (withEntry env r byteLen numel ps n s) := by
  have henter : onHost (HostTier.takeIn r.payload (refsFrom 0 ps) n) s
      = .ok (refsFrom 0 ps) (s.setHostTier (s.admitted ps n)) :=
    zoom_of_ok (h.host.takeIn htiles r.payload_small hn)
  change EStateM.bind _ _ s = _
  simp only [EStateM.bind, henter]
  rfl

lemma fits_withEntry (h : Safe sc config o s) {n : ℕ} (hn : n ≤ s.accounting.free .host)
    (byteLen numel : UInt64) (ps : List Bytes) :
    Fits (withEntry env r byteLen numel ps n s) := by
  have hfree : n ≤ s.hostTier.budget.free := hn
  have := h.host.budget.fits
  rw [h.host.budget.free_eq] at hfree
  change s.hostTier.budget.used + n ≤ s.hostTier.budget.capacity
  omega

/-- A new entry keeps safety, with the registration as its origin. -/
theorem enter (h : Safe sc config o s) (hr : r ∈ sc.registered) {byteLen numel : UInt64}
    {blocks : List BlockRef} {s₀ : Runtime} (hs₀ : s₀.config = config)
    (hcheck : s₀.registerCheck r = .ok (byteLen, numel, blocks))
    (hnew : s.entries.lookup r.address.objectId.toHex = none) {n : ℕ}
    (hn : n ≤ s.accounting.free .host) (env : Env) :
    Safe sc config (Function.update o r.address.objectId.toHex (some r))
      (withEntry env r byteLen numel (pieces r.payload config.blockSize.toNat) n s) := by
  obtain ⟨hshape, hlen, hnumel, hchunk, -⟩ := registerCheck_ok hcheck
  rw [hs₀] at hchunk
  obtain ⟨rfl, htiles⟩ := chunk_spec hchunk
  have hmem := Scope.pieces_mem hr h.blockSize
  refine ⟨h.config_eq, h.blockSize, fun k e he => ?_, h.host.admitted hmem hn, fun x => ?_,
    fun x => ?_, h.durable⟩
  · change (s.entries.insert _ _).lookup k = some e at he
    rw [AList.lookup_insert_eq_ite] at he
    by_cases hk : k = r.address.objectId.toHex
    · rw [if_pos hk] at he
      cases he
      refine ⟨r, by rw [hk, Function.update_self], hr, hk, rfl, rfl, rfl, hlen, hshape, hnumel, rfl,
        ⟨_, h.blockSize, hchunk⟩, List.nodup_singleton _, ?_, ?_⟩
      · intro refs hrefs
        cases List.mem_singleton.mp hrefs
        exact hchunk
      · intro dev hdev
        cases List.mem_singleton.mp hdev
    · rw [if_neg hk] at he
      obtain ⟨r', ho', hok'⟩ := h.entry k e he
      exact ⟨r', by rw [Function.update_of_ne hk, ho'], hok'⟩
  · refine (demand_insert hnew _).trans_le ?_
    have hcount := h.host.arena.count_takeAll hmem 0 x
    have := h.hostDemand x
    change _ ≤ (s.host.takeAll _).count x
    simp only [Entry.weight, newEntry, List.map_cons, List.map_nil, List.sum_cons, List.sum_nil,
      hostWeight]
    change (s.host.takeAll _).count x = s.host.count x + _ at hcount
    omega
  · refine (demand_insert hnew _).trans_le ?_
    have := h.deviceDemand x
    simp only [Entry.weight, newEntry, List.map_cons, List.map_nil, List.sum_cons, List.sum_nil,
      deviceWeight]
    omega

end Safe

end TensorCache
