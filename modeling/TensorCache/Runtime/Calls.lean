import TensorCache.Runtime.Basic

/-!
# The calls of the runtime

The public operations, recovery at start-up, and runs: sequences of calls, each with what the
outside does during it.
-/

namespace TensorCache

open Codec

/-- The result of a compatible lookup. -/
structure LookupResult where
  hit : Bool
  objectId : ObjectId
  generation : UInt64
  sourceTier : Option Tier
  compatOk : Bool
  bytes : UInt64
  reconstructionAvoidedNs : ℕ
  transferCostNs : ℕ
  rationale : String

/-- Integrity verification report. -/
structure IntegrityReport where
  objectId : Str
  checkedPlacements : ℕ
  verifiedBytes : UInt64
  clean : Bool

structure RecoveryReport where
  recovered : ℕ := 0
  skipped : ℕ := 0

/-- The outcome of a call. -/
def outcome {σ α : Type} : EStateM.Result Error σ α → Except Error α
  | .ok a _ => .ok a
  | .error e _ => .error e

/-- What `register` is given. The payload and the encoded key are in memory, so their lengths
fit a `usize`. -/
structure Registration where
  address : Address
  compat : CompatKey
  payload : Bytes
  payload_small : payload.length < 2 ^ 64
  compat_small : compat.encode.length < 2 ^ 64

namespace Runtime

/-! ### Registration -/

/-- The checks of `register` before anything changes: geometry, chunking, that the address is
free, and admission. -/
def registerCheck (s : Runtime) (r : Registration) :
    Except Error (UInt64 × UInt64 × List BlockRef) := do
  let oid := r.address.objectId
  let byteLen ← r.compat.shape.byteLen r.compat.dtype.byteSize
  if byteLen ≠ UInt64.ofNat r.payload.length then
    .error (.geometry
      s!"payload length {r.payload.length} does not match declared byte_len {byteLen}")
  else do
    let numel ← r.compat.shape.numel
    let blocks ← chunk r.payload s.config.blockSize.toNat
    validateBlockList blocks byteLen
    let reconstructCost := s.config.cost.reconstructCostNs byteLen.toNat
    let candidate : AdmissionCandidate := ⟨byteLen.toNat, reconstructCost, reconstructCost⟩
    if (s.entries.lookup oid.toHex).isSome then
      .error (.alreadyExists s!"object {oid.toHex.val} already registered")
    else match evaluateIgnoringCapacity s.config.admission candidate s.accounting with
      | .reject reason => .error (.admissionRejected reason)
      | .admitted => .ok (byteLen, numel, blocks)

/-- Evict if the new bytes do not fit. -/
def makeRoom (env : Env) (newHost : ℕ) : M PUnit := do
  let s ← get
  if newHost > s.accounting.free .host then do
    evictToFree env newHost
    let s ← get
    if newHost > s.accounting.free .host then
      throw (.admissionRejected "no capacity after eviction")
    else pure ⟨⟩
  else pure ⟨⟩

/-- The entry of a newly registered tensor. -/
def newEntry (env : Env) (r : Registration) (byteLen numel : UInt64)
    (blocks acquired : List BlockRef) : Entry where
  address := r.address
  compat := r.compat
  compatId := r.compat.compatId
  byteLen := byteLen
  numel := numel
  blocks := blocks
  placements := [.host acquired]
  createdNs := env.now .created
  lastUseNs := env.now .lastUse
  reuseCount := 0
  durable := false
  flags := {}

def insertEntry (key : Str) (e : Entry) (s : Runtime) : Runtime :=
  { s with entries := s.entries.insert key e, objectCount := s.objectCount + 1 }

/-- Take in the payload and add the entry of a new tensor. -/
def admitEntry (env : Env) (r : Registration) (byteLen numel : UInt64) (blocks : List BlockRef)
    (newHost : ℕ) : M PUnit := do
  let acquired ← onHost (HostTier.takeIn r.payload blocks newHost)
  modify (insertEntry r.address.objectId.toHex (newEntry env r byteLen numel blocks acquired))

/-- Register a tensor entry into the cache (admission and host placement). -/
def register (env : Env) (r : Registration) : M ObjectId := do
  let s ← get
  let (byteLen, numel, blocks) ← EStateM.ofExcept (s.registerCheck r)
  let newHost := newBytes s.host.contains blocks
  makeRoom env newHost
  admitEntry env r byteLen numel blocks newHost
  enforceCapacity env
  pure r.address.objectId

/-! ### Lookup -/

/-- A reuse is recorded on the entry. -/
def recordUse (env : Env) (e : Entry) : Entry :=
  { e with reuseCount := saturatingAdd e.reuseCount 1, lastUseNs := env.now .lastUse }

/-- Safe cache lookup by stable identity and compatibility gate. -/
def lookup (env : Env) (address : Address) (compat : CompatKey) : M LookupResult := do
  let s ← get
  let oid := address.objectId
  match s.entries.lookup oid.toHex with
  | none => throw (.notFound s!"object {oid.toHex.val}")
  | some e =>
    let requested := compat.compatId
    if e.compatId ≠ requested then
      throw (.compatibility
        (s!"object {oid.toHex.val} has incompatible compat identity (requested " ++
          s!"{requested.toHex.val}, stored {e.compatId.toHex.val})"))
    else do
      modify (updateEntry oid (recordUse env))
      let plan := Planner.decide s.config.cost e.byteLen.toNat .host e.placementTiers false
      let avoided :=
        if plan.action ≠ .reconstruct then s.config.cost.reconstructCostNs e.byteLen.toNat else 0
      pure
        { hit := true, objectId := oid, generation := address.generation,
          sourceTier := e.preferredTier, compatOk := true, bytes := e.byteLen,
          reconstructionAvoidedNs := avoided, transferCostNs := plan.costNs,
          rationale := plan.rationale }

/-! ### Movement -/

/-- Materialize the tensor bytes into a tier and return them. -/
def restore (env : Env) (oid : ObjectId) (tier : Tier) : M Bytes := do
  let s ← get
  let quarantined ← EStateM.ofExcept (s.entryQuarantined oid)
  if quarantined then throw (.integrity "object is quarantined")
  else do
    let bytes ← EStateM.ofExcept (s.materializePayload oid)
    let resident ← EStateM.ofExcept (s.entryHasTier oid tier)
    if resident then do
      EStateM.ignoring (enforceCapacity env)
      pure bytes
    else do
      addPlacement env oid tier bytes
      EStateM.ignoring (enforceCapacity env)
      pure bytes

/-- Add a placement in a tier (idempotent if already present). -/
def promote (env : Env) (oid : ObjectId) (tier : Tier) : M PUnit := do
  let s ← get
  let resident ← EStateM.ofExcept (s.entryHasTier oid tier)
  if resident then pure ⟨⟩
  else do
    let quarantined ← EStateM.ofExcept (s.entryQuarantined oid)
    if quarantined then throw (.integrity "object is quarantined")
    else do
      let bytes ← EStateM.ofExcept (s.materializePayload oid)
      addPlacement env oid tier bytes
      EStateM.ignoring (enforceCapacity env)

/-- Add a replica in a tier. -/
def replicate (env : Env) (oid : ObjectId) (tier : Tier) : M PUnit := promote env oid tier

/-- Materialize the payload and add a placement, unless the object is already resident. -/
def ensurePlacement (env : Env) (oid : ObjectId) (tier : Tier) : M PUnit := do
  let s ← get
  let resident ← EStateM.ofExcept (s.entryHasTier oid tier)
  if resident then pure ⟨⟩
  else do
    let bytes ← EStateM.ofExcept (s.materializePayload oid)
    addPlacement env oid tier bytes

/-- Move a placement to the next lower tier, removing the source placement only after the lower
copy exists. -/
def demote (env : Env) (oid : ObjectId) (source : Tier) : M PUnit := do
  let s ← get
  let resident ← EStateM.ofExcept (s.entryHasTier oid source)
  if resident then do
    let target ← EStateM.ofExcept (nextLower source)
    ensurePlacement env oid target
    removePlacement env oid source
  else throw (.residency s!"object {oid.toHex.val} is not {source.label} resident")

/-- Ensure a durable persistent copy exists. -/
def persist (env : Env) (oid : ObjectId) : M PUnit := do
  ensurePlacement env oid .persistent
  modify (updateEntry oid fun e => { e with durable := true })

/-! ### Removal -/

/-- Reclaim all placements except a persistent one. -/
def evict (env : Env) (oid : ObjectId) : M PUnit := do
  let s ← get
  let e ← EStateM.ofExcept (s.getMeta oid)
  e.placementTiers.forM fun t =>
    if t = .persistent then pure ⟨⟩ else removePlacement env oid t

/-- Forget the metadata of an object. -/
def removeEntry (oid : ObjectId) (s : Runtime) : Runtime :=
  match s.entries.lookup oid.toHex with
  | some _ => { s with entries := s.entries.erase oid.toHex, objectCount := s.objectCount - 1 }
  | none => s

/-- Remove an object entirely (free all placements and metadata). -/
def delete (env : Env) (oid : ObjectId) : M PUnit := do
  let s ← get
  let e ← EStateM.ofExcept (s.getMeta oid)
  e.placementTiers.forM fun t => removePlacement env oid t
  modify (removeEntry oid)
  EStateM.ignoring
    (onDurable (Durable.onStore (PersistentStore.removeManifest env.io oid.toHex)))

/-! ### Verification -/

/-- Compare the copies of the given tiers with the bytes, counting them. -/
def verifyTiers (s : Runtime) (oid : ObjectId) (bytes : Bytes) :
    List Tier → Except Error ℕ
  | [] => .ok 0
  | t :: ts => do
    let b ← s.materializeFrom oid t
    if b ≠ bytes then
      .error (.integrity s!"placement {t.label} of {oid.toHex.val} disagrees")
    else do
      let n ← verifyTiers s oid bytes ts
      .ok (n + 1)

/-- Verify the integrity of an object across all its placements. -/
def verify (s : Runtime) (oid : ObjectId) : Except Error IntegrityReport := do
  let bytes ← s.materializePayload oid
  let e ← s.getMeta oid
  if UInt64.ofNat bytes.length ≠ e.byteLen then
    .error (.integrity s!"object {oid.toHex.val} byte length mismatch")
  else do
    let checked ← s.verifyTiers oid bytes e.placementTiers
    .ok ⟨oid.toHex, checked, e.byteLen, true⟩

/-! ### Recovery -/

/-- The entry of a recovered tensor. -/
def recoveredEntry (env : Env) (key : Str) (m : PersistEntryMeta) : Entry where
  address := ⟨m.nameSpace, m.key, m.generation⟩
  compat := m.compat
  compatId := m.compat.compatId
  byteLen := m.byteLen
  numel := m.numel
  blocks := m.blocks
  placements := [.persistent]
  createdNs := m.createdNs
  lastUseNs := env.now (.recovered key)
  reuseCount := 0
  durable := true
  flags := {}

/-- One turn of the recovery loop. -/
def recoverOne (env : Env) (st : PersistentStore) (acc : Runtime × RecoveryReport)
    (m : PersistEntryMeta) : Runtime × RecoveryReport :=
  match ObjectId.fromHex m.objectId with
  | .error _ => (acc.1, { acc.2 with skipped := acc.2.skipped + 1 })
  | .ok oid =>
    if st.blocksExist m.blocks then
      let durable := m.blocks.foldl (fun d b => d.addRef b) acc.1.durable
      (insertEntry oid.toHex (recoveredEntry env oid.toHex m) (acc.1.setDurable durable),
        { acc.2 with recovered := acc.2.recovered + 1 })
    else (acc.1, { acc.2 with skipped := acc.2.skipped + 1 })

/-- Recover durable persistent state. -/
def recover (env : Env) (s : Runtime) : Runtime × RecoveryReport :=
  match s.persistent with
  | none => (s, {})
  | some st => st.recover.foldl (recoverOne env st) (s, {})

/-- A runtime before recovery. The mandatory CPU backend comes first, and every capacity counts
toward the accelerator budget. -/
def initial (config : RuntimeConfig) (extra : List Backend)
    (persistent : Option PersistentStore) : Runtime where
  entries := ∅
  host := BlockArena.new
  persistentRefs := ∅
  storageUsed := 0
  accelUsed := 0
  accounting :=
    (((({} : Accounting).setTierCapacity .host config.hostCapacity.toNat).setTierCapacity
      .persistent config.persistentCapacity.toNat).setTierCapacity .accelerator
        (extra.foldl (fun cap b => saturatingAdd cap b.byteCapacity.toNat)
          config.hostCapacity.toNat))
  objectCount := 0
  backends := Backend.newCpu 0 config.hostCapacity :: extra
  config := config
  persistent := persistent

/-- Create a runtime on the files of its directory, for the process with the given id. -/
def new (env : Env) (config : RuntimeConfig) (extra : List Backend) (disk : Disk) (pid : ℕ) :
    Except Error Runtime :=
  if config.blockSize = 0 then .error (.invalidArgument "block size must be nonzero")
  else
    let persistent := config.persistentPath.map fun _ => PersistentStore.openOn env.io disk pid
    .ok (recover env (initial config extra persistent)).1

/-! ### Runs -/

/-- The public calls. -/
inductive Call where
  | register (r : Registration)
  | lookup (address : Address) (compat : CompatKey)
  | restore (oid : ObjectId) (tier : Tier)
  | promote (oid : ObjectId) (tier : Tier)
  | replicate (oid : ObjectId) (tier : Tier)
  | demote (oid : ObjectId) (source : Tier)
  | persist (oid : ObjectId)
  | evict (oid : ObjectId)
  | delete (oid : ObjectId)
  | verify (oid : ObjectId)

/-- What a call returns when it succeeds. -/
inductive Reply where
  | registered (oid : ObjectId)
  | found (result : LookupResult)
  | restored (bytes : Bytes)
  | done
  | verified (report : IntegrityReport)

def call (env : Env) : Call → M Reply
  | .register r => do
    let oid ← register env r
    pure (.registered oid)
  | .lookup address compat => do
    let result ← lookup env address compat
    pure (.found result)
  | .restore oid tier => do
    let bytes ← restore env oid tier
    pure (.restored bytes)
  | .promote oid tier => do
    promote env oid tier
    pure .done
  | .replicate oid tier => do
    replicate env oid tier
    pure .done
  | .demote oid source => do
    demote env oid source
    pure .done
  | .persist oid => do
    persist env oid
    pure .done
  | .evict oid => do
    evict env oid
    pure .done
  | .delete oid => do
    delete env oid
    pure .done
  | .verify oid => do
    let s ← get
    let report ← EStateM.ofExcept (s.verify oid)
    pure (.verified report)

/-- A call starts a new journal of filesystem steps. -/
def beginCall (s : Runtime) : Runtime := { s with persistent := s.persistent.map (·.beginCall) }

/-- One call, with what the outside does during it. -/
structure Event where
  env : Env
  call : Call

/-- The state after a call, whether or not it succeeded. -/
def exec (s : Runtime) (ev : Event) : Runtime := (call ev.env ev.call s.beginCall).state

/-- The state after a sequence of calls. -/
def run (s : Runtime) (events : List Event) : Runtime := events.foldl exec s

end Runtime

end TensorCache
