import TensorCache.Lib.AssocMap
import TensorCache.Lib.Command
import TensorCache.Protocol.Message

/-!
# The coordinator

The single source of authority: an epoch, a boot identity, the registered nodes with their peer
addresses, the owner and fence of every object, and the migrations in progress. `handle` maps an
inbound message to its responses; a snapshot of the epoch and the owners survives the process.
The clock and the boot identities come from outside.
-/

namespace TensorCache

open Codec EStateM

/-- A strictly monotonic coordinator epoch. -/
abbrev Epoch := UInt64

/-- `saturating_add(1)`. -/
def Epoch.next (e : Epoch) : Epoch := if e = 0xFFFFFFFFFFFFFFFF then e else e + 1

/-- The immutable boot identity of a coordinator process. -/
abbrev BootId := Str

/-- The authoritative owner and fence for one object. -/
structure ObjectState where
  owner : Str
  fence : UInt64
  epoch : Epoch
deriving DecidableEq

/-- A migration in progress. -/
structure PendingMigration where
  newOwner : Str
  toFence : UInt64
deriving DecidableEq

structure Coordinator where
  epoch : Epoch
  bootId : BootId
  leaseNs : UInt64
  nodes : HashMap Str Str
  objects : HashMap Str ObjectState
  migrations : HashMap Str PendingMigration

/-- The text of an error message. -/
def Str.ofString (s : String) : Str :=
  if h : s.utf8ByteSize < 2 ^ 64 then ⟨s, h⟩ else ⟨"", by decide⟩

namespace Coordinator

def new (bootId : BootId) (leaseNs : UInt64) : Coordinator where
  epoch := 1
  bootId := bootId
  leaseNs := leaseNs
  nodes := ∅
  objects := ∅
  migrations := ∅

/-- Simulate a coordinator restart: advance the epoch and rotate the boot identity. -/
def restart (bootId : BootId) (c : Coordinator) : Coordinator :=
  { c with epoch := c.epoch.next, bootId := bootId }

def objectId (nameSpace key : Str) (generation : UInt64) : Str :=
  (Address.objectId ⟨nameSpace, key, generation⟩).toHex

/-! ### Messages -/

/-- A response or an error; both leave a state behind. -/
abbrev Handler := EStateM Error Coordinator (List Message)

def register (nodeId addr : Str) : Handler := do
  modify fun c => { c with nodes := c.nodes.insert nodeId addr }
  let c ← get
  pure [.hello c.epoch c.bootId nodeId addr c.leaseNs]

/-- The first creator becomes the owner; the owner may claim its object again. -/
def create (nameSpace key : Str) (generation : UInt64) (nodeId : Str) : Handler := do
  let c ← get
  let id := objectId nameSpace key generation
  match c.objects.lookup id with
  | some state =>
    if state.owner = nodeId then pure [.createAck id c.epoch state.fence nodeId]
    else throw (.authority s!"object {id.val} already owned by {state.owner.val}")
  | none => do
    set { c with objects := c.objects.insert id ⟨nodeId, 0, c.epoch⟩ }
    pure [.createAck id c.epoch 0 nodeId]

def lookup (nameSpace key : Str) (generation : UInt64) : Handler := do
  let c ← get
  match c.objects.lookup (objectId nameSpace key generation) with
  | some state =>
    pure [.lookupResult true (some state.owner) (c.nodes.lookup state.owner) generation]
  | none => pure [.lookupResult false none none generation]

def leaseRenew (now : UInt64) (objectId : Str) (fence : UInt64) : Handler := do
  let c ← get
  match c.objects.lookup objectId with
  | some state =>
    if fence ≠ state.fence then
      throw (.authority s!"stale fence {fence} for {objectId.val} (current {state.fence})")
    else pure [.leaseGrant objectId c.epoch state.fence (now + c.leaseNs)]
  | none => throw (.notFound s!"object {objectId.val}")

/-- The old owner requests a migration; the reply carries the authoritative target address and a
bumped fence for the new owner. -/
def migrate (objectId newOwner newOwnerAddr : Str) (fence : UInt64) : Handler := do
  let c ← get
  match c.objects.lookup objectId with
  | none => throw (.notFound s!"object {objectId.val}")
  | some state =>
    if fence < state.fence then throw (.authority s!"stale fence {fence} for {objectId.val}")
    else do
      let toFence := state.fence + 1
      let targetAddr := (c.nodes.lookup newOwner).getD newOwnerAddr
      set { c with migrations := c.migrations.insert objectId ⟨newOwner, toFence⟩ }
      pure [.migrate objectId newOwner targetAddr toFence]

def migrateAck (objectId newOwner : Str) (fence : UInt64) : Handler := do
  let c ← get
  match c.migrations.lookup objectId with
  | none => throw (.authority s!"no pending migration for {objectId.val}")
  | some pending =>
    if pending.newOwner ≠ newOwner ∨ pending.toFence ≠ fence then
      throw (.authority s!"migration ack mismatch for {objectId.val}")
    else do
      set { c with
        objects := c.objects.modify objectId fun _ => ⟨newOwner, fence, c.epoch⟩
        migrations := c.migrations.erase objectId }
      pure []

/-- Handle one inbound message. -/
def handle (now : UInt64) (msg : Message) : Handler :=
  match msg with
  | .register nodeId addr => register nodeId addr
  | .create nameSpace key generation _ _ nodeId => create nameSpace key generation nodeId
  | .lookup nameSpace key generation _ => lookup nameSpace key generation
  | .leaseRenew objectId fence => leaseRenew now objectId fence
  | .migrate objectId newOwner newOwnerAddr fence => migrate objectId newOwner newOwnerAddr fence
  | .migrateAck objectId newOwner fence => migrateAck objectId newOwner fence
  | .heartbeat .. => pure []
  | msg => pure [.error (.lit "unsupported")
      (.ofString s!"coordinator does not handle {msg.msgType.tag}")]

/-! ### The snapshot -/

/-- "TCCO". -/
def snapshotMagic : UInt32 := 0x5443434F

/-- One object of a snapshot: its id, owner and fence. -/
structure Row where
  id : Str
  owner : Str
  fence : UInt64
deriving DecidableEq

def writeRow (row : Row) : Bytes := Writer.str row.id ++ (Writer.str row.owner ++ Writer.u64 row.fence)

def readRow : Reader Row := do
  let id ← Reader.str
  let owner ← Reader.str
  let fence ← Reader.u64
  pure ⟨id, owner, fence⟩

/-- The bytes of a snapshot. -/
def writeSnapshot (epoch : Epoch) (rows : List Row) : Bytes :=
  Writer.u32 snapshotMagic ++ (Writer.u8 1 ++ (Writer.u64 epoch ++
    (Writer.u64 (UInt64.ofNat rows.length) ++ putAll writeRow rows)))

def readSnapshot : Reader (Epoch × List Row) := do
  let magic ← Reader.u32
  if magic ≠ snapshotMagic then Reader.fail (.persistence "bad coordinator snapshot magic") else do
  let version ← Reader.u8
  if version ≠ 1 then Reader.fail (.persistence "unsupported coordinator snapshot version") else do
  let epoch ← Reader.u64
  let count ← Reader.u64
  let rows ← getMany readRow count.toNat
  pure (epoch, rows)

/-- An order in which a hash map may be iterated. -/
structure IterOrder where
  list : HashMap Str ObjectState → List (Sigma fun _ : Str => ObjectState)
  perm : ∀ m, (list m).Perm m.entries

/-- What `save_state` writes: the objects in some iteration order of the map. -/
def snapshot (order : IterOrder) (c : Coordinator) : Bytes :=
  writeSnapshot c.epoch ((order.list c.objects).map fun o => ⟨o.1, o.2.owner, o.2.fence⟩)

/-- Insert the rows of a snapshot into an empty map; a later row replaces an earlier one. -/
def ofRows (epoch : Epoch) (rows : List Row) : HashMap Str ObjectState :=
  rows.foldl (fun m row => m.insert row.id ⟨row.owner, row.fence, epoch⟩) ∅

/-- Load the contents of the snapshot file, if there is one. Nothing changes before the whole
file has been checked. -/
def loadState (file : Option Bytes) (bootId : BootId) : EStateM Error Coordinator PUnit := do
  match file with
  | none => pure ⟨⟩
  | some bytes => do
    let ((epoch, rows), rest) ← EStateM.ofExcept (readSnapshot bytes)
    if rest ≠ [] then throw (.persistence "trailing bytes in coordinator snapshot")
    else modify fun c => { c with objects := ofRows epoch rows, epoch := epoch.next, bootId := bootId }

end Coordinator

end TensorCache
