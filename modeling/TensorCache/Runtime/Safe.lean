import TensorCache.Runtime.DurableProperties
import TensorCache.Runtime.Rules

/-!
# The safety invariant

Every entry stems from a registration (`EntryOk`), and the tiers hold at least what the
placements ask for. `Safe` is kept by every move, also by one that fails half-way, so whatever
can be read for an entry is the payload it was registered with (`Safe.materializePayload`).
That a placement can be read is a different matter, see `Readable`.
-/

namespace TensorCache

open Codec EStateM

/-- What the blocks of the tiers are made of: the registrations, and the block sizes in use. -/
structure Scope where
  registered : Set Registration
  sizes : Set ℕ

/-- The blocks of all registered payloads, for all block sizes in use. -/
def Scope.blocks (sc : Scope) : Set Bytes :=
  { b | ∃ r ∈ sc.registered, ∃ n ∈ sc.sizes, b ∈ pieces r.payload n }

/-- The registration each entry stems from. -/
abbrev Origin := Str → Option Registration

/-- A manifest is that of a registration, cut with one of the block sizes. -/
def ManifestOk (sc : Scope) (path : Path) (m : PersistEntryMeta) : Prop :=
  ∃ r ∈ sc.registered, ∃ n ∈ sc.sizes, ∃ numel createdNs blocks,
    path = manifestFile r.address.objectId ∧ chunk r.payload n = .ok blocks ∧
    r.compat.shape.byteLen r.compat.dtype.byteSize = .ok (UInt64.ofNat r.payload.length) ∧
    r.compat.shape.numel = .ok numel ∧
    m = Durable.metaOf r.address.objectId r.address r.compat (UInt64.ofNat r.payload.length)
      numel createdNs blocks

/-- An entry stems from the registration `r`, and its host and device placements belong to the
payload of `r`. -/
structure EntryOk (sc : Scope) (blockSize : ℕ) (devices : Devices) (r : Registration) (k : Str)
    (e : Entry) : Prop where
  registered : r ∈ sc.registered
  key : k = r.address.objectId.toHex
  address : e.address = r.address
  compat : e.compat = r.compat
  compatId : e.compatId = r.compat.compatId
  byteLen : e.byteLen = UInt64.ofNat r.payload.length
  shape : r.compat.shape.byteLen r.compat.dtype.byteSize = .ok e.byteLen
  numel : r.compat.shape.numel = .ok e.numel
  flags : e.flags = {}
  blocks : ∃ n ∈ sc.sizes, chunk r.payload n = .ok e.blocks
  tiers : e.placementTiers.Nodup
  host : ∀ refs, .host refs ∈ e.placements → chunk r.payload blockSize = .ok refs
  device : ∀ dev, .accelerator dev ∈ e.placements → devices.Holds dev r.payload

/-- The safety invariant. -/
structure Safe (sc : Scope) (config : RuntimeConfig) (o : Origin) (s : Runtime) : Prop where
  config_eq : s.config = config
  blockSize : config.blockSize.toNat ∈ sc.sizes
  entry : ∀ k e, s.entries.lookup k = some e →
    ∃ r, o k = some r ∧ EntryOk sc config.blockSize.toNat s.devices r k e
  host : s.hostTier.Wf sc.blocks config.hostCapacity.toNat
  hostDemand : ∀ h, demand (hostWeight h) s.entries ≤ s.host.count h
  deviceDemand : ∀ x, demand (deviceWeight x) s.entries ≤ 1
  durable : s.durable.Wf sc.blocks (ManifestOk sc) config.persistentCapacity.toNat

variable {sc : Scope} {config : RuntimeConfig} {o : Origin} {s s' : Runtime} {env : Env}
  {oid : ObjectId} {t : Tier} {e : Entry} {r : Registration} {k : Str}

/-! ### Block lists -/

lemma Scope.pieces_mem {n : ℕ} (hr : r ∈ sc.registered) (hn : n ∈ sc.sizes) :
    ∀ b ∈ pieces r.payload n, b ∈ sc.blocks :=
  fun _ hb => ⟨r, hr, n, hn, hb⟩

namespace EntryOk

variable {blockSize : ℕ} {d d' : Devices}

/-- The block list of an entry is made of pieces of its payload. -/
lemma tiles (h : EntryOk sc blockSize d r k e) :
    ∃ ps, Tiles r.payload ps ∧ e.blocks = refsFrom 0 ps ∧ ∀ b ∈ ps, b ∈ sc.blocks := by
  obtain ⟨n, hn, hchunk⟩ := h.blocks
  obtain ⟨hrefs, htiles⟩ := chunk_spec hchunk
  exact ⟨_, htiles, hrefs, Scope.pieces_mem h.registered hn⟩

lemma refTo (h : EntryOk sc blockSize d r k e) : ∀ b ∈ e.blocks, RefTo sc.blocks b := by
  obtain ⟨ps, htiles, hblocks, hps⟩ := h.tiles
  rw [hblocks]
  exact refTo_refsFrom hps (by rw [htiles.flatten]; simpa using r.payload_small) 0

/-- The part that does not depend on the devices. -/
lemma of_devices (h : EntryOk sc blockSize d r k e)
    (hdev : ∀ dev, .accelerator dev ∈ e.placements → d'.Holds dev r.payload) :
    EntryOk sc blockSize d' r k e :=
  { h with device := hdev }

lemma byteLen_toNat (h : EntryOk sc blockSize d r k e) : e.byteLen.toNat = r.payload.length := by
  rw [h.byteLen]
  exact toNat_ofNat r.payload_small

/-- Reassembling the blocks of an entry can only give its payload. -/
lemma eq_of_reconstruct (h : EntryOk sc blockSize d r k e) {get : Digest → Except Error Bytes}
    {bytes : Bytes} (hget : ∀ b ∈ sc.blocks, ∀ c, get (hash b) = .ok c → c = b)
    (hrun : reconstruct e.blocks e.byteLen get = .ok bytes) : bytes = r.payload := by
  obtain ⟨ps, htiles, hblocks, hps⟩ := h.tiles
  rw [hblocks, h.byteLen] at hrun
  exact eq_of_reconstruct_tiles htiles r.payload_small (fun b hb => hget b (hps b hb)) hrun

/-- If all blocks of an entry can be read, they give its payload. -/
lemma reconstruct (h : EntryOk sc blockSize d r k e) {get : Digest → Except Error Bytes}
    (hget : ∀ b ∈ sc.blocks, 0 < countRef (hash b) e.blocks → get (hash b) = .ok b) :
    TensorCache.reconstruct e.blocks e.byteLen get = .ok r.payload := by
  obtain ⟨ps, htiles, hblocks, hps⟩ := h.tiles
  rw [hblocks] at hget
  rw [hblocks, h.byteLen]
  refine reconstruct_tiles htiles r.payload_small fun b hb => hget b (hps b hb) ?_
  exact countRef_pos.mpr (mem_refsFrom 0 hb)

end EntryOk

/-! ### Reading -/

namespace Safe

lemma entryOk (h : Safe sc config o s) (he : s.entries.lookup k = some e) (ho : o k = some r) :
    EntryOk sc config.blockSize.toNat s.devices r k e := by
  obtain ⟨r', ho', hok⟩ := h.entry k e he
  rw [ho] at ho'
  cases ho'
  exact hok

/-- The key of an entry is the hexadecimal form of its id. -/
lemma key_of_fromHex (h : Safe sc config o s) (he : s.entries.lookup k = some e)
    (hoid : ObjectId.fromHex k = .ok oid) : k = oid.toHex := by
  obtain ⟨r, -, hok⟩ := h.entry k e he
  rw [hok.key, ObjectId.fromHex_toHex] at hoid
  rw [hok.key, Except.ok.inj hoid]

/-- A buffer that a device placement refers to holds the payload. -/
lemma download (h : Safe sc config o s) (he : s.entries.lookup k = some e) (ho : o k = some r)
    {dev : DeviceBuffer} (hdev : .accelerator dev ∈ e.placements) :
    s.devices.download dev.backend dev e.byteLen.toNat = .ok r.payload := by
  have hok := h.entryOk he ho
  rw [hok.byteLen_toNat]
  exact (hok.device dev hdev).download

lemma device_of_findSome {dev : DeviceBuffer}
    (h : e.placements.findSome? Placement.device? = some dev) :
    .accelerator dev ∈ e.placements := by
  obtain ⟨p, hp, hdev⟩ := List.exists_of_findSome?_eq_some h
  cases p with
  | accelerator dev' => cases hdev; exact hp
  | host refs => cases hdev
  | persistent => cases hdev

/-- Whatever is reassembled from the store is the payload. -/
lemma eq_of_reconstructDurable (hS : CollisionFree sc.blocks) (h : Safe sc config o s)
    (he : s.entries.lookup k = some e) (ho : o k = some r) {err : Error} {bytes : Bytes}
    (hrun : (s.reconstructDurable e).getD (.error err) = .ok bytes) : bytes = r.payload := by
  unfold Runtime.reconstructDurable at hrun
  cases hst : s.persistent with
  | none => rw [hst] at hrun; cases hrun
  | some st =>
    rw [hst] at hrun
    exact (h.entryOk he ho).eq_of_reconstruct
      (fun b hb c => h.durable.eq_of_getBlock hS hst hb) hrun

/-- Whatever is materialized for an object is its payload. -/
theorem eq_of_materializePayload (hS : CollisionFree sc.blocks) (h : Safe sc config o s)
    (ho : o oid.toHex = some r) {bytes : Bytes} (hrun : s.materializePayload oid = .ok bytes) :
    bytes = r.payload := by
  unfold Runtime.materializePayload at hrun
  cases hmeta : s.getMeta oid with
  | error err => rw [hmeta] at hrun; cases hrun
  | ok e =>
    rw [hmeta] at hrun
    have he := Runtime.getMeta_eq_ok.mp hmeta
    change (if _ then _ else _) = _ at hrun
    by_cases hhost : .host ∈ e.placementTiers
    · rw [if_pos hhost] at hrun
      exact (h.entryOk he ho).eq_of_reconstruct (fun b hb c => h.host.arena.eq_of_get hS hb) hrun
    · rw [if_neg hhost] at hrun
      cases hdev : e.placements.findSome? Placement.device? with
      | some dev =>
        simp only [hdev] at hrun
        rw [h.download he ho (device_of_findSome hdev)] at hrun
        cases hrun
        rfl
      | none =>
        simp only [hdev] at hrun
        split_ifs at hrun
        exact h.eq_of_reconstructDurable hS he ho hrun

end Safe

end TensorCache
