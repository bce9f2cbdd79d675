import TensorCache.Devices
import TensorCache.Policy
import TensorCache.Runtime.Durable
import TensorCache.Runtime.Host

/-!
# The local runtime

The state of one runtime and the operations on it. The state is guarded by a single mutex, and
every call below is one critical section after the other of one thread. What the source takes
from outside (the clock, failing file operations, the CUDA driver) is in `Env`.
-/

namespace TensorCache

open Codec

/-- Configuration for a local runtime. -/
structure RuntimeConfig where
  blockSize : UInt64 := 1048576
  hostCapacity : UInt64 := 1073741824
  persistentPath : Option Str := none
  persistentCapacity : UInt64 := 2147483648
  admission : AdmissionPolicy := {}
  eviction : EvictionPolicy := {}
  cost : CostModel := {}

/-- A materialized placement in a tier. -/
inductive Placement where
  | host (blockRefs : List BlockRef)
  | accelerator (device : DeviceBuffer)
  | persistent
deriving DecidableEq

namespace Placement

def tier : Placement → Tier
  | host _ => .host
  | accelerator device => .accelerator device.backend
  | persistent => .persistent

def device? : Placement → Option DeviceBuffer
  | accelerator device => some device
  | _ => none

end Placement

/-- Transient movement state held on an entry while a move is in flight. -/
structure MoveFlags where
  migrating : Bool := false
  restoring : Bool := false
  evicting : Bool := false
  /-- The entry failed integrity and must not be served. -/
  quarantined : Bool := false
  invalid : Bool := false
deriving DecidableEq

/-- The in-memory metadata for a tensor entry. -/
structure Entry where
  address : Address
  compat : CompatKey
  compatId : Digest
  byteLen : UInt64
  numel : UInt64
  blocks : List BlockRef
  placements : List Placement
  createdNs : UInt64
  lastUseNs : UInt64
  reuseCount : ℕ
  durable : Bool
  flags : MoveFlags

namespace Entry

def placementTiers (e : Entry) : List Tier := e.placements.map Placement.tier

def hasTier (e : Entry) (t : Tier) : Bool := e.placements.any fun p => p.tier = t

/-- The placement in a tier. -/
def tier? (e : Entry) (t : Tier) : Option Placement := e.placements.find? fun p => p.tier = t

def isQuarantined (e : Entry) : Bool := e.flags.quarantined || e.flags.invalid

/-- `e.placements.push(p)`. -/
def push (p : Placement) (e : Entry) : Entry := { e with placements := e.placements ++ [p] }

/-- Remove the first placement in a tier. -/
def without (t : Tier) (e : Entry) : Entry :=
  { e with placements := e.placements.eraseP fun p => p.tier = t }

def preferredTier (e : Entry) : Option Tier :=
  match e.placementTiers.find? Tier.isAccelerator with
  | some t => some t
  | none =>
    if .host ∈ e.placementTiers then some .host
    else if .persistent ∈ e.placementTiers then some .persistent
    else none

end Entry

def nextLower : Tier → Except Error Tier
  | .accelerator _ => .ok .host
  | .host => .ok .persistent
  | .persistent => .error (.residency "persistent is the lowest tier")

/-- Where a call reads the clock. -/
inductive Reading where
  | created | lastUse
  | candidate (key : Str)
  | enforced (key : Str)
  | recovered (key : Str)

/-- What the outside does during one call. -/
structure Env where
  now : Reading → UInt64 := fun _ => 0
  io : IoFaults := fun _ _ => none
  driver : Driver := {}

/-- The runtime: its locked state, the backends, the configuration and the store. -/
structure Runtime where
  entries : HashMap Str Entry
  host : BlockArena
  persistentRefs : HashMap Digest ℕ
  storageUsed : ℕ
  accelUsed : ℕ
  accounting : Accounting
  objectCount : ℕ
  backends : BackendRegistry
  config : RuntimeConfig
  persistent : Option PersistentStore

abbrev M := EStateM Error Runtime

namespace Runtime

/-! ### The tiers of a runtime -/

def hostTier (s : Runtime) : HostTier := ⟨s.host, s.accounting.host⟩

def setHostTier (t : HostTier) (s : Runtime) : Runtime :=
  { s with host := t.arena, accounting := { s.accounting with host := t.budget } }

def devices (s : Runtime) : Devices := ⟨s.backends, s.accelUsed⟩

def setDevices (d : Devices) (s : Runtime) : Runtime :=
  { s with backends := d.backends, accelUsed := d.used }

def durable (s : Runtime) : Durable :=
  ⟨s.persistentRefs, s.storageUsed, s.accounting.storage, s.persistent⟩

def setDurable (d : Durable) (s : Runtime) : Runtime :=
  { s with
    persistentRefs := d.refs, storageUsed := d.used,
    accounting := { s.accounting with storage := d.budget }, persistent := d.store }

variable {α : Type}

def onHost (m : EStateM Error HostTier α) : M α := EStateM.zoom hostTier setHostTier m

def onDevices (m : EStateM Error Devices α) : M α := EStateM.zoom devices setDevices m

def onDurable (m : EStateM Error Durable α) : M α := EStateM.zoom durable setDurable m

/-- Change the entry of an object, if there is one. -/
def updateEntry (oid : ObjectId) (f : Entry → Entry) (s : Runtime) : Runtime :=
  { s with entries := s.entries.modify oid.toHex f }

/-! ### Reading -/

def getMeta (s : Runtime) (oid : ObjectId) : Except Error Entry :=
  match s.entries.lookup oid.toHex with
  | some e => .ok e
  | none => .error (.notFound s!"object {oid.toHex.val}")

def entryHasTier (s : Runtime) (oid : ObjectId) (t : Tier) : Except Error Bool :=
  (s.getMeta oid).map (·.hasTier t)

def entryQuarantined (s : Runtime) (oid : ObjectId) : Except Error Bool :=
  (s.getMeta oid).map (·.isQuarantined)

/-- Reassemble the blocks of an entry from the store. -/
def reconstructDurable (s : Runtime) (e : Entry) : Option (Except Error Bytes) :=
  s.persistent.map fun st => reconstruct e.blocks e.byteLen st.getBlock

/-- Reconstruct the payload of an object from its best available placement. -/
def materializePayload (s : Runtime) (oid : ObjectId) : Except Error Bytes := do
  let e ← s.getMeta oid
  let missing : Error := .reconstruct s!"object {oid.toHex.val} has no materialized placement"
  if .host ∈ e.placementTiers then reconstruct e.blocks e.byteLen s.host.get
  else match e.placements.findSome? Placement.device? with
    | some dev => s.devices.download dev.backend dev e.byteLen.toNat
    | none =>
      if .persistent ∈ e.placementTiers then (s.reconstructDurable e).getD (.error missing)
      else .error missing

/-- Reconstruct the payload specifically from a given placement tier. -/
def materializeFrom (s : Runtime) (oid : ObjectId) (tier : Tier) : Except Error Bytes := do
  let e ← s.getMeta oid
  match tier with
  | .host => reconstruct e.blocks e.byteLen s.host.get
  | .persistent =>
    (s.reconstructDurable e).getD (.error (.persistence "no persistent tier"))
  | .accelerator id =>
    match e.tier? tier with
    | none => .error (.notFound s!"no {tier.label} placement")
    | some (.accelerator dev) => s.devices.download id dev e.byteLen.toNat
    | some _ => .error (.internal "placement tier mismatch")

/-! ### Placements -/

/-- The block list of a payload for the host tier, and the bytes that are new. -/
def hostPlan (s : Runtime) (byteLen : UInt64) (bytes : Bytes) :
    Except Error (List BlockRef × ℕ) := do
  let blocks ← chunk bytes s.config.blockSize.toNat
  validateBlockList blocks byteLen
  let newHost := newBytes s.host.contains blocks
  if newHost > s.accounting.free .host then
    .error (.admissionRejected "host tier capacity exceeded")
  else .ok (blocks, newHost)

/-- Add a placement of the payload into a tier. -/
def addPlacement (env : Env) (oid : ObjectId) (tier : Tier) (bytes : Bytes) : M PUnit := do
  let s ← get
  let e ← EStateM.ofExcept (s.getMeta oid)
  if UInt64.ofNat bytes.length ≠ e.byteLen then
    throw (.integrity "placement payload length mismatch")
  else match tier with
    | .host => do
      let (blocks, newHost) ← EStateM.ofExcept (s.hostPlan e.byteLen bytes)
      let acquired ← onHost (HostTier.takeIn bytes blocks newHost)
      modify (updateEntry oid (Entry.push (.host acquired)))
    | .accelerator id => do
      let dev ← onDevices (Devices.upload env.driver id bytes)
      modify (updateEntry oid (Entry.push (.accelerator dev)))
    | .persistent => do
      onDurable (Durable.keep env.io s.config.blockSize.toNat oid e.address e.compat e.byteLen
        e.createdNs bytes)
      modify (updateEntry oid (Entry.push .persistent))

/-- Free the state under a placement of an object with the given block list. -/
def freePlacement (env : Env) (oid : ObjectId) (blocks : List BlockRef) : Placement → M PUnit
  | .host refs => onHost (HostTier.release refs)
  | .accelerator dev => onDevices (Devices.release env.driver dev)
  | .persistent => onDurable (Durable.drop env.io blocks oid)

/-- Remove a placement from a tier, freeing the underlying state. -/
def removePlacement (env : Env) (oid : ObjectId) (tier : Tier) : M PUnit := do
  let s ← get
  let absent : Error := .residency s!"object {oid.toHex.val} is not {tier.label} resident"
  match s.entries.lookup oid.toHex with
  | none => throw absent
  | some e =>
    match e.tier? tier with
    | none => throw absent
    | some p => do
      modify (updateEntry oid (Entry.without tier))
      freePlacement env oid e.blocks p

/-! ### Eviction -/

/-- The non-durable entries with a host placement, as eviction candidates. -/
def evictables (clock : Str → UInt64) (s : Runtime) : List Evictable :=
  s.entries.entries.filterMap fun ⟨key, e⟩ =>
    if e.hasTier .host ∧ e.durable = false then
      some
        { objectId := key, bytes := e.byteLen.toNat, reuseCount := e.reuseCount
          ageSeconds := ((clock key).toNat - e.lastUseNs.toNat) / 1000000000
          reconstructionCostNs := s.config.cost.reconstructCostNs e.byteLen.toNat
          priority := 0, durable := e.durable }
    else none

/-- Remove the placements of an entry, except a persistent one. -/
def strip (env : Env) (key : Str) : M PUnit := do
  let oid ← EStateM.ofExcept (ObjectId.fromHex key)
  let s ← get
  let tiers := ((s.entries.lookup key).map Entry.placementTiers).getD []
  tiers.forM fun t =>
    if t = .persistent then pure ⟨⟩ else EStateM.ignoring (removePlacement env oid t)

/-- The loop of `evict_to_free` and `enforce_capacity`: strip candidates in order while there is
need. -/
def stripWhile (env : Env) (need : Runtime → Bool) : List Evictable → M PUnit
  | [] => pure ⟨⟩
  | c :: cs => do
    let s ← get
    if need s then do
      strip env c.objectId
      stripWhile env need cs
    else pure ⟨⟩

/-- Evict the lowest-scoring non-durable host entries until `needed` bytes are free. -/
def evictToFree (env : Env) (needed : ℕ) : M PUnit := do
  let s ← get
  let order :=
    evictionOrder s.config.eviction (s.evictables fun key => env.now (.candidate key))
  if s.accounting.free .host ≥ needed then pure ⟨⟩
  else stripWhile env (fun s => s.accounting.free .host < needed) order

/-- Enforce host capacity by evicting the lowest-scoring entries. -/
def enforceCapacity (env : Env) : M PUnit := do
  let s ← get
  let hostCap := s.accounting.capacity .host
  let order := evictionOrder s.config.eviction (s.evictables fun key => env.now (.enforced key))
  stripWhile env (fun s => s.accounting.used .host > hostCap) order

end Runtime

end TensorCache
