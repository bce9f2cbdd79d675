import TensorCache.Lib.Process
import TensorCache.Coordinator.Basic
import TensorCache.Crc
import TensorCache.Runtime.Calls

/-!
# A storage node

A node owns a local cache, serves peers and clients, and talks to the coordinator. What it does
with one inbound message is a program: it calls its cache, which it shares with the other
connections of the node, and it exchanges messages with the coordinator and with other nodes. The
answers come from outside, each at a time of its own, and every exchange may fail.
-/

namespace TensorCache

open Codec Process

/-! ### Names and texts -/

/-- The name of a message type, as it is printed for debugging. -/
def MsgType.name : MsgType → String
  | register => "Register" | hello => "Hello" | lookup => "Lookup"
  | lookupResult => "LookupResult" | create => "Create" | createAck => "CreateAck"
  | leaseRenew => "LeaseRenew" | leaseGrant => "LeaseGrant" | fetch => "Fetch"
  | fetchReply => "FetchReply" | store => "Store" | storeAck => "StoreAck"
  | migrate => "Migrate" | migrateAck => "MigrateAck" | heartbeat => "Heartbeat"
  | error => "Error"

namespace Error

/-- A short machine-readable category tag. -/
def kind : Error → Str
  | io _ => .lit "io"
  | invalidArgument _ => .lit "invalid-argument"
  | geometry _ => .lit "geometry"
  | compatibility _ => .lit "compatibility"
  | notFound _ => .lit "not-found"
  | alreadyExists _ => .lit "exists"
  | admissionRejected _ => .lit "admission-rejected"
  | integrity _ => .lit "integrity"
  | persistence _ => .lit "persistence"
  | protocol _ => .lit "protocol"
  | authority _ => .lit "authority"
  | residency _ => .lit "residency"
  | backend _ => .lit "backend"
  | reconstruct _ => .lit "reconstruct"
  | accounting _ => .lit "accounting"
  | internal _ => .lit "internal"

/-- The message of an error. -/
def text : Error → String
  | io m | invalidArgument m | geometry m | compatibility m | notFound m | alreadyExists m
  | admissionRejected m | integrity m | persistence m | protocol m | authority m | residency m
  | backend m | reconstruct m | accounting m | internal m => m

/-- The message a server sends for an error. -/
def toMessage (e : Error) : Message := .error e.kind (.ofString e.text)

end Error

/-- What a server answers. -/
def responses (x : Except Error (List Message)) : List Message :=
  match x with
  | .ok r => r
  | .error e => [e.toMessage]

/-- Bytes in memory; there are fewer than 2⁶⁴ of them. -/
def Blob.ofBytes (b : Bytes) : Blob :=
  if h : b.length < 2 ^ 64 then ⟨b, h⟩ else ⟨[], Vec.small_nil⟩

/-- Decode a key that came in a message. Its encoding is the blob it came in. -/
def decodeKey (compat : Blob) :
    Except Error { k : CompatKey // k.encode.length < 2 ^ 64 } :=
  match h : CompatKey.decode compat.val with
  | .error e => .error e
  | .ok k => .ok ⟨k, by rw [(CompatKey.encode_of_decode h).1]; exact compat.small⟩

/-! ### What a node asks for -/

inductive NodeReq where
  | register (r : Registration)
  | getMeta (oid : ObjectId)
  | restore (oid : ObjectId) (tier : Tier)
  /-- One request and one response on a connection to the coordinator. -/
  | coordinator (m : Message)
  /-- A message written on a connection to the coordinator; no response is read. -/
  | notify (m : Message)
  /-- A request to the peer at an address; the answer is a connection. -/
  | send (addr : Str) (m : Message)
  /-- The response on a connection. -/
  | receive (conn : ℕ)

/-- An exchange returns no message when the other side closes the connection. -/
abbrev NodeReq.Resp : NodeReq → Type
  | register _ => Except Error ObjectId
  | getMeta _ => Except Error Entry
  | restore .. => Except Error Bytes
  | coordinator _ => Except Error (Option Message)
  | notify _ => Except Error PUnit
  | send .. => Except Error ℕ
  | receive _ => Except Error (Option Message)

/-- A node identity. -/
structure NodeInfo where
  nodeId : Str
  nodeAddr : Str

abbrev Node (α : Type) := ExceptT Error (Program NodeReq.Resp) α

namespace Node

def ofExcept {α : Type} (x : Except Error α) : Node α := ExceptT.mk (pure x)

@[simp] lemma ofExcept_ok_bind {α β : Type} (a : α) (f : α → Node β) :
    (ofExcept (.ok a) >>= f) = f a := rfl

def tcRegister (r : Registration) : Program NodeReq.Resp (Except Error ObjectId) :=
  Program.request (NodeReq.register r)

def tcMeta (oid : ObjectId) : Node Entry := Program.request (NodeReq.getMeta oid)

def tcRestore (oid : ObjectId) (tier : Tier) : Node Bytes :=
  Program.request (NodeReq.restore oid tier)

def exchange (m : Message) : Node (Option Message) := Program.request (NodeReq.coordinator m)

def notify (m : Message) : Node PUnit := Program.request (NodeReq.notify m)

def send (addr : Str) (m : Message) : Node ℕ := Program.request (NodeReq.send addr m)

def receive (conn : ℕ) : Node (Option Message) := Program.request (NodeReq.receive conn)

/-- The message that came, or an error if the connection was closed. -/
def expect (closed : String) : Option Message → Node Message
  | some m => pure m
  | none => throw (.protocol closed)

/-- A one-request/one-response exchange with the coordinator. -/
def coordinatorRoundtrip (req : Message) : Node Message := do
  let reply ← exchange req
  expect "coordinator closed connection" reply

/-! ### Transfers between nodes -/

/-- Fetch an object's bytes from a peer node. -/
def fetchFrom (ownerAddr objectId : Str) (compat : Blob) : Node Blob := do
  let conn ← send ownerAddr (.fetch objectId compat)
  let reply ← receive conn
  let m ← expect "owner closed connection" reply
  match m with
  | .fetchReply _ data crc =>
    if crc32c data.val ≠ crc then throw (.integrity "fetch payload CRC mismatch")
    else pure data
  | .error _ message => throw (.protocol message.val)
  | other => throw (.protocol s!"unexpected fetch reply {other.msgType.name}")

/-- Push an object to a peer node. -/
def storeTo (me : NodeInfo) (peerAddr nameSpace key : Str) (generation : UInt64) (compat : Blob)
    (data : Blob) : Node PUnit := do
  let conn ← send peerAddr
    (.store nameSpace key generation data (crc32c data.val) compat me.nodeId)
  let reply ← receive conn
  let m ← expect "peer closed connection" reply
  match m with
  | .storeAck _ => pure ⟨⟩
  | .error _ message => throw (.protocol s!"store rejected by peer: {message.val}")
  | other => throw (.protocol s!"unexpected store reply {other.msgType.name}")

/-- Drive a coordinator-authorized migration. The object goes to the address the request named,
and the acknowledgement repeats the coordinator's reply. -/
def migrate (me : NodeInfo) (objectId newOwner newOwnerAddr : Str) (fence : UInt64) :
    Node PUnit := do
  let reply ← exchange (.migrate objectId newOwner newOwnerAddr fence)
  let instr ← expect "coordinator closed during migration" reply
  match instr with
  | .migrate objectId newOwner _ fence => do
    let oid ← ofExcept (ObjectId.fromHex objectId)
    let entry ← tcMeta oid
    let compat := (← tcMeta oid).compat
    let data ← tcRestore oid .host
    storeTo me newOwnerAddr entry.address.nameSpace entry.address.key entry.address.generation
      (.ofBytes compat.encode) (.ofBytes data)
    notify (.migrateAck objectId newOwner fence)
  | .error _ message => throw (.protocol message.val)
  | other => throw (.protocol s!"unexpected migrate reply {other.msgType.name}")

/-! ### Inbound messages -/

/-- Take an object into the local cache. The node may already hold a replica: then the key and
the bytes must be equal. -/
def storeLocally (r : Registration) : Node PUnit := do
  let oid := r.address.objectId
  match ← ExceptT.lift (tcRegister r) with
  | .ok _ => pure ⟨⟩
  | .error (.alreadyExists _) => do
    let stored := (← tcMeta oid).compatId
    if stored ≠ r.compat.compatId then
      throw (.compatibility "store conflicts with an existing incompatible object")
    else do
      let existing ← tcRestore oid .host
      if existing ≠ r.payload then
        throw (.integrity "store payload differs from the existing object")
      else pure ⟨⟩
  | .error e => throw e

/-- If the object is not yet owned, the first writer becomes owner. The coordinator's answer to
the claim is not looked at. -/
def claim (me : NodeInfo) (nameSpace key : Str) (generation byteLen : UInt64) (compat : Blob) :
    Node PUnit := do
  let lk ← coordinatorRoundtrip (.lookup nameSpace key generation compat)
  match lk with
  | .lookupResult false .. => do
    let _ ← coordinatorRoundtrip (.create nameSpace key generation byteLen compat me.nodeId)
    pure ⟨⟩
  | _ => pure ⟨⟩

def handleStore (me : NodeInfo) (nameSpace key : Str) (generation : UInt64) (data : Blob)
    (crc : UInt32) (compat : Blob) : Node (List Message) := do
  if crc ≠ crc32c data.val then throw (.integrity "Store payload CRC mismatch")
  else do
    let compatKey ← ofExcept (decodeKey compat)
    let address : Address := ⟨nameSpace, key, generation⟩
    storeLocally ⟨address, compatKey.val, data.val, data.small, compatKey.property⟩
    claim me nameSpace key generation (UInt64.ofNat data.val.length) compat
    pure [.storeAck address.objectId.toHex]

def handleFetch (objectId : Str) (compat : Blob) : Node (List Message) := do
  let oid ← ofExcept (ObjectId.fromHex objectId)
  let stored := (← tcMeta oid).compatId
  let reqCompat ← ofExcept (CompatKey.decode compat.val)
  if stored ≠ reqCompat.compatId then
    throw (.compatibility s!"object {oid.toHex.val} is not compatible with request")
  else do
    let bytes ← tcRestore oid .host
    pure [.fetchReply objectId (.ofBytes bytes) (crc32c bytes)]

/-- Fetch an object from its owner and keep a local replica, if the cache takes it. -/
def replicateFrom (addr nameSpace key : Str) (generation : UInt64) (compat : Blob) :
    Node PUnit := do
  let address : Address := ⟨nameSpace, key, generation⟩
  let data ← fetchFrom addr address.objectId.toHex compat
  let compatKey ← ofExcept (decodeKey compat)
  let _ ← ExceptT.lift
    (tcRegister ⟨address, compatKey.val, data.val, data.small, compatKey.property⟩)
  pure ⟨⟩

def handleLookup (me : NodeInfo) (nameSpace key : Str) (generation : UInt64) (compat : Blob) :
    Node (List Message) := do
  let lk ← coordinatorRoundtrip (.lookup nameSpace key generation compat)
  match lk with
  | .lookupResult true owner ownerAddr generation =>
    if owner = some me.nodeId then
      pure [.lookupResult true owner (some me.nodeAddr) generation]
    else match ownerAddr with
      | some addr => do
        replicateFrom addr nameSpace key generation compat
        pure [.lookupResult true owner (some addr) generation]
      | none => pure [.lookupResult true owner none generation]
  | .lookupResult false _ _ generation => pure [.lookupResult false none none generation]
  | other => throw (.protocol s!"unexpected coordinator reply {other.msgType.name}")

/-- Handle an inbound message of a peer or a client. -/
def handlePeer (me : NodeInfo) (msg : Message) : Node (List Message) :=
  match msg with
  | .register .. => throw (.protocol "nodes do not serve Register")
  | .store nameSpace key generation data crc compat _ =>
    handleStore me nameSpace key generation data crc compat
  | .fetch objectId compat => handleFetch objectId compat
  | .lookup nameSpace key generation compat => handleLookup me nameSpace key generation compat
  | .createAck objectId epoch fence owner => pure [.createAck objectId epoch fence owner]
  | .migrate objectId newOwner newOwnerAddr fence => do
    migrate me objectId newOwner newOwnerAddr fence
    pure [.migrateAck objectId newOwner fence]
  | msg => pure [.error (.lit "unsupported")
      (.ofString s!"node does not handle {msg.msgType.tag}")]

/-- What the server of a node does with one message. -/
def serve (me : NodeInfo) (msg : Message) : Program NodeReq.Resp (List Message) := do
  let x ← ExceptT.run (handlePeer me msg)
  pure (responses x)

end Node

end TensorCache
