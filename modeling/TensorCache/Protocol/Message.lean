import TensorCache.Compat

/-!
# Messages

The sixteen messages of the coordinator and the peer protocol, and their binary bodies. Every
message is decoded from its own body and from no other bytes.
-/

namespace TensorCache

open Codec

/-- Message type tags. -/
inductive MsgType where
  | register | hello | lookup | lookupResult | create | createAck | leaseRenew | leaseGrant
  | fetch | fetchReply | store | storeAck | migrate | migrateAck | heartbeat | error
deriving DecidableEq, Repr

namespace MsgType

def tag : MsgType → UInt8
  | register => 1 | hello => 2 | lookup => 3 | lookupResult => 4 | create => 5 | createAck => 6
  | leaseRenew => 7 | leaseGrant => 8 | fetch => 9 | fetchReply => 10 | store => 11
  | storeAck => 12 | migrate => 13 | migrateAck => 14 | heartbeat => 15 | error => 16

def fromTag (t : UInt8) : Except Error MsgType :=
  match t with
  | 1 => .ok register | 2 => .ok hello | 3 => .ok lookup | 4 => .ok lookupResult
  | 5 => .ok create | 6 => .ok createAck | 7 => .ok leaseRenew | 8 => .ok leaseGrant
  | 9 => .ok fetch | 10 => .ok fetchReply | 11 => .ok store | 12 => .ok storeAck
  | 13 => .ok migrate | 14 => .ok migrateAck | 15 => .ok heartbeat | 16 => .ok error
  | t => .error (.protocol s!"unknown message type {t}")

@[simp] lemma fromTag_tag (t : MsgType) : fromTag t.tag = .ok t := by
  cases t <;> rfl

lemma tag_of_fromTag {c : UInt8} {t : MsgType} (h : fromTag c = .ok t) : t.tag = c := by
  unfold fromTag at h
  split at h <;> cases h <;> rfl

end MsgType

/-- A byte blob of a message. -/
abbrev Blob := Vec UInt8

/-- A decoded network message. -/
inductive Message where
  | register (nodeId addr : Str)
  | hello (epoch : UInt64) (bootId nodeId addr : Str) (leaseNs : UInt64)
  | lookup (nameSpace key : Str) (generation : UInt64) (compat : Blob)
  | lookupResult (found : Bool) (owner ownerAddr : Option Str) (generation : UInt64)
  | create (nameSpace key : Str) (generation byteLen : UInt64) (compat : Blob) (nodeId : Str)
  | createAck (objectId : Str) (epoch fence : UInt64) (owner : Str)
  | leaseRenew (objectId : Str) (fence : UInt64)
  | leaseGrant (objectId : Str) (epoch fence expiresNs : UInt64)
  | fetch (objectId : Str) (compat : Blob)
  | fetchReply (objectId : Str) (data : Blob) (crc : UInt32)
  | store (nameSpace key : Str) (generation : UInt64) (data : Blob) (crc : UInt32) (compat : Blob)
      (source : Str)
  | storeAck (objectId : Str)
  | migrate (objectId newOwner newOwnerAddr : Str) (fence : UInt64)
  | migrateAck (objectId newOwner : Str) (fence : UInt64)
  | heartbeat (nodeId : Str) (epoch : UInt64)
  | error (code message : Str)
deriving DecidableEq

namespace Writer

def blob (v : Blob) : Bytes := bytes v.val

end Writer

namespace Reader

/-- `bytes()?.to_vec()`. -/
def blob : Reader Blob := fun data =>
  match hbytes : bytes data with
  | .error e => .error e
  | .ok (b, rest) => .ok (⟨b, length_of_bytes hbytes⟩, rest)

end Reader

namespace Message

def msgType : Message → MsgType
  | register .. => .register
  | hello .. => .hello
  | lookup .. => .lookup
  | lookupResult .. => .lookupResult
  | create .. => .create
  | createAck .. => .createAck
  | leaseRenew .. => .leaseRenew
  | leaseGrant .. => .leaseGrant
  | fetch .. => .fetch
  | fetchReply .. => .fetchReply
  | store .. => .store
  | storeAck .. => .storeAck
  | migrate .. => .migrate
  | migrateAck .. => .migrateAck
  | heartbeat .. => .heartbeat
  | error .. => .error

/-- Encode the message body, without the frame header. -/
def encode : Message → Bytes
  | register nodeId addr => Writer.str nodeId ++ Writer.str addr
  | hello epoch bootId nodeId addr leaseNs =>
    Writer.u64 epoch ++ (Writer.str bootId ++ (Writer.str nodeId ++ (Writer.str addr ++
      Writer.u64 leaseNs)))
  | lookup nameSpace key generation compat =>
    Writer.str nameSpace ++ (Writer.str key ++ (Writer.u64 generation ++ Writer.blob compat))
  | lookupResult found owner ownerAddr generation =>
    Writer.bool found ++ (Writer.u64 generation ++ (writeOptStr owner ++ writeOptStr ownerAddr))
  | create nameSpace key generation byteLen compat nodeId =>
    Writer.str nameSpace ++ (Writer.str key ++ (Writer.u64 generation ++ (Writer.u64 byteLen ++
      (Writer.blob compat ++ Writer.str nodeId))))
  | createAck objectId epoch fence owner =>
    Writer.str objectId ++ (Writer.u64 epoch ++ (Writer.u64 fence ++ Writer.str owner))
  | leaseRenew objectId fence => Writer.str objectId ++ Writer.u64 fence
  | leaseGrant objectId epoch fence expiresNs =>
    Writer.str objectId ++ (Writer.u64 epoch ++ (Writer.u64 fence ++ Writer.u64 expiresNs))
  | fetch objectId compat => Writer.str objectId ++ Writer.blob compat
  | fetchReply objectId data crc => Writer.str objectId ++ (Writer.blob data ++ Writer.u32 crc)
  | store nameSpace key generation data crc compat source =>
    Writer.str nameSpace ++ (Writer.str key ++ (Writer.u64 generation ++ (Writer.blob data ++
      (Writer.u32 crc ++ (Writer.blob compat ++ Writer.str source)))))
  | storeAck objectId => Writer.str objectId
  | migrate objectId newOwner newOwnerAddr fence =>
    Writer.str objectId ++ (Writer.str newOwner ++ (Writer.str newOwnerAddr ++ Writer.u64 fence))
  | migrateAck objectId newOwner fence =>
    Writer.str objectId ++ (Writer.str newOwner ++ Writer.u64 fence)
  | heartbeat nodeId epoch => Writer.str nodeId ++ Writer.u64 epoch
  | error code message => Writer.str code ++ Writer.str message

/-- The fields of a body, without the check that the input is used up. -/
def decodeFields : MsgType → Reader Message
  | .register => do
    let nodeId ← Reader.str
    let addr ← Reader.str
    pure (register nodeId addr)
  | .hello => do
    let epoch ← Reader.u64
    let bootId ← Reader.str
    let nodeId ← Reader.str
    let addr ← Reader.str
    let leaseNs ← Reader.u64
    pure (hello epoch bootId nodeId addr leaseNs)
  | .lookup => do
    let nameSpace ← Reader.str
    let key ← Reader.str
    let generation ← Reader.u64
    let compat ← Reader.blob
    pure (lookup nameSpace key generation compat)
  | .lookupResult => do
    let found ← Reader.bool
    let generation ← Reader.u64
    let owner ← readOptStr
    let ownerAddr ← readOptStr
    pure (lookupResult found owner ownerAddr generation)
  | .create => do
    let nameSpace ← Reader.str
    let key ← Reader.str
    let generation ← Reader.u64
    let byteLen ← Reader.u64
    let compat ← Reader.blob
    let nodeId ← Reader.str
    pure (create nameSpace key generation byteLen compat nodeId)
  | .createAck => do
    let objectId ← Reader.str
    let epoch ← Reader.u64
    let fence ← Reader.u64
    let owner ← Reader.str
    pure (createAck objectId epoch fence owner)
  | .leaseRenew => do
    let objectId ← Reader.str
    let fence ← Reader.u64
    pure (leaseRenew objectId fence)
  | .leaseGrant => do
    let objectId ← Reader.str
    let epoch ← Reader.u64
    let fence ← Reader.u64
    let expiresNs ← Reader.u64
    pure (leaseGrant objectId epoch fence expiresNs)
  | .fetch => do
    let objectId ← Reader.str
    let compat ← Reader.blob
    pure (fetch objectId compat)
  | .fetchReply => do
    let objectId ← Reader.str
    let data ← Reader.blob
    let crc ← Reader.u32
    pure (fetchReply objectId data crc)
  | .store => do
    let nameSpace ← Reader.str
    let key ← Reader.str
    let generation ← Reader.u64
    let data ← Reader.blob
    let crc ← Reader.u32
    let compat ← Reader.blob
    let source ← Reader.str
    pure (store nameSpace key generation data crc compat source)
  | .storeAck => do
    let objectId ← Reader.str
    pure (storeAck objectId)
  | .migrate => do
    let objectId ← Reader.str
    let newOwner ← Reader.str
    let newOwnerAddr ← Reader.str
    let fence ← Reader.u64
    pure (migrate objectId newOwner newOwnerAddr fence)
  | .migrateAck => do
    let objectId ← Reader.str
    let newOwner ← Reader.str
    let fence ← Reader.u64
    pure (migrateAck objectId newOwner fence)
  | .heartbeat => do
    let nodeId ← Reader.str
    let epoch ← Reader.u64
    pure (heartbeat nodeId epoch)
  | .error => do
    let code ← Reader.str
    let message ← Reader.str
    pure (error code message)

/-- Decode a message body from a type tag. -/
def decode (t : MsgType) (payload : Bytes) : Except Error Message := do
  let (m, rest) ← decodeFields t payload
  if rest ≠ [] then .error (.protocol "trailing bytes in message") else .ok m

end Message

/-! ### The codec is exact -/

lemma reads_blob : Reads Writer.blob Reader.blob := by
  intro v rest
  have hb := reads_bytes v.small rest
  unfold Reader.blob Writer.blob
  split
  · rename_i e he
    rw [hb] at he
    cases he
  · rename_i b rest' hok
    rw [hb] at hok
    cases hok
    rfl

lemma canonical_blob : Canonical Writer.blob Reader.blob := by
  intro input v rest h
  unfold Reader.blob at h
  split at h
  · cases h
  · rename_i b mid hbytes
    cases h
    exact canonical_bytes input _ _ hbytes

namespace Message

/-- A body is read back as its message, whatever follows it. -/
lemma decodeFields_encode (m : Message) (rest : Bytes) :
    decodeFields m.msgType (m.encode ++ rest) = .ok (m, rest) := by
  cases m <;>
    simp only [msgType, encode, decodeFields, List.append_assoc, reads_str.bind, reads_u64.bind,
      reads_u32.bind, reads_bool.bind, reads_blob.bind, reads_optStr.bind, pure_apply]

/-- The reader of each type accepts only bodies of that type. -/
lemma canonical_fields {t : MsgType} {input rest : Bytes} {m : Message}
    (h : decodeFields t input = .ok (m, rest)) : m.msgType = t ∧ input = m.encode ++ rest := by
  cases t with
  | register =>
    obtain ⟨nodeId, _, hNodeId, h⟩ := canonical_str.bind h
    obtain ⟨addr, _, hAddr, h⟩ := canonical_str.bind h
    cases h
    exact ⟨rfl, by simp only [encode, hNodeId, hAddr, List.append_assoc]⟩
  | hello =>
    obtain ⟨epoch, _, hEpoch, h⟩ := canonical_u64.bind h
    obtain ⟨bootId, _, hBootId, h⟩ := canonical_str.bind h
    obtain ⟨nodeId, _, hNodeId, h⟩ := canonical_str.bind h
    obtain ⟨addr, _, hAddr, h⟩ := canonical_str.bind h
    obtain ⟨leaseNs, _, hLeaseNs, h⟩ := canonical_u64.bind h
    cases h
    exact ⟨rfl, by simp only [encode, hEpoch, hBootId, hNodeId, hAddr, hLeaseNs, List.append_assoc]⟩
  | lookup =>
    obtain ⟨nameSpace, _, hNameSpace, h⟩ := canonical_str.bind h
    obtain ⟨key, _, hKey, h⟩ := canonical_str.bind h
    obtain ⟨generation, _, hGeneration, h⟩ := canonical_u64.bind h
    obtain ⟨compat, _, hCompat, h⟩ := canonical_blob.bind h
    cases h
    exact ⟨rfl, by simp only [encode, hNameSpace, hKey, hGeneration, hCompat, List.append_assoc]⟩
  | lookupResult =>
    obtain ⟨found, _, hFound, h⟩ := canonical_bool.bind h
    obtain ⟨generation, _, hGeneration, h⟩ := canonical_u64.bind h
    obtain ⟨owner, _, hOwner, h⟩ := CompatKey.canonical_optStr.bind h
    obtain ⟨ownerAddr, _, hOwnerAddr, h⟩ := CompatKey.canonical_optStr.bind h
    cases h
    exact ⟨rfl, by simp only [encode, hFound, hGeneration, hOwner, hOwnerAddr, List.append_assoc]⟩
  | create =>
    obtain ⟨nameSpace, _, hNameSpace, h⟩ := canonical_str.bind h
    obtain ⟨key, _, hKey, h⟩ := canonical_str.bind h
    obtain ⟨generation, _, hGeneration, h⟩ := canonical_u64.bind h
    obtain ⟨byteLen, _, hByteLen, h⟩ := canonical_u64.bind h
    obtain ⟨compat, _, hCompat, h⟩ := canonical_blob.bind h
    obtain ⟨nodeId, _, hNodeId, h⟩ := canonical_str.bind h
    cases h
    exact ⟨rfl, by simp only [encode, hNameSpace, hKey, hGeneration,
      hByteLen, hCompat, hNodeId, List.append_assoc]⟩
  | createAck =>
    obtain ⟨objectId, _, hObjectId, h⟩ := canonical_str.bind h
    obtain ⟨epoch, _, hEpoch, h⟩ := canonical_u64.bind h
    obtain ⟨fence, _, hFence, h⟩ := canonical_u64.bind h
    obtain ⟨owner, _, hOwner, h⟩ := canonical_str.bind h
    cases h
    exact ⟨rfl, by simp only [encode, hObjectId, hEpoch, hFence, hOwner, List.append_assoc]⟩
  | leaseRenew =>
    obtain ⟨objectId, _, hObjectId, h⟩ := canonical_str.bind h
    obtain ⟨fence, _, hFence, h⟩ := canonical_u64.bind h
    cases h
    exact ⟨rfl, by simp only [encode, hObjectId, hFence, List.append_assoc]⟩
  | leaseGrant =>
    obtain ⟨objectId, _, hObjectId, h⟩ := canonical_str.bind h
    obtain ⟨epoch, _, hEpoch, h⟩ := canonical_u64.bind h
    obtain ⟨fence, _, hFence, h⟩ := canonical_u64.bind h
    obtain ⟨expiresNs, _, hExpiresNs, h⟩ := canonical_u64.bind h
    cases h
    exact ⟨rfl, by simp only [encode, hObjectId, hEpoch, hFence, hExpiresNs, List.append_assoc]⟩
  | fetch =>
    obtain ⟨objectId, _, hObjectId, h⟩ := canonical_str.bind h
    obtain ⟨compat, _, hCompat, h⟩ := canonical_blob.bind h
    cases h
    exact ⟨rfl, by simp only [encode, hObjectId, hCompat, List.append_assoc]⟩
  | fetchReply =>
    obtain ⟨objectId, _, hObjectId, h⟩ := canonical_str.bind h
    obtain ⟨data, _, hData, h⟩ := canonical_blob.bind h
    obtain ⟨crc, _, hCrc, h⟩ := canonical_u32.bind h
    cases h
    exact ⟨rfl, by simp only [encode, hObjectId, hData, hCrc, List.append_assoc]⟩
  | store =>
    obtain ⟨nameSpace, _, hNameSpace, h⟩ := canonical_str.bind h
    obtain ⟨key, _, hKey, h⟩ := canonical_str.bind h
    obtain ⟨generation, _, hGeneration, h⟩ := canonical_u64.bind h
    obtain ⟨data, _, hData, h⟩ := canonical_blob.bind h
    obtain ⟨crc, _, hCrc, h⟩ := canonical_u32.bind h
    obtain ⟨compat, _, hCompat, h⟩ := canonical_blob.bind h
    obtain ⟨source, _, hSource, h⟩ := canonical_str.bind h
    cases h
    exact ⟨rfl, by simp only [encode, hNameSpace, hKey, hGeneration,
      hData, hCrc, hCompat, hSource, List.append_assoc]⟩
  | storeAck =>
    obtain ⟨objectId, _, hObjectId, h⟩ := canonical_str.bind h
    cases h
    exact ⟨rfl, by simp only [encode, hObjectId]⟩
  | migrate =>
    obtain ⟨objectId, _, hObjectId, h⟩ := canonical_str.bind h
    obtain ⟨newOwner, _, hNewOwner, h⟩ := canonical_str.bind h
    obtain ⟨newOwnerAddr, _, hNewOwnerAddr, h⟩ := canonical_str.bind h
    obtain ⟨fence, _, hFence, h⟩ := canonical_u64.bind h
    cases h
    exact ⟨rfl, by simp only [encode, hObjectId, hNewOwner,
      hNewOwnerAddr, hFence, List.append_assoc]⟩
  | migrateAck =>
    obtain ⟨objectId, _, hObjectId, h⟩ := canonical_str.bind h
    obtain ⟨newOwner, _, hNewOwner, h⟩ := canonical_str.bind h
    obtain ⟨fence, _, hFence, h⟩ := canonical_u64.bind h
    cases h
    exact ⟨rfl, by simp only [encode, hObjectId, hNewOwner, hFence, List.append_assoc]⟩
  | heartbeat =>
    obtain ⟨nodeId, _, hNodeId, h⟩ := canonical_str.bind h
    obtain ⟨epoch, _, hEpoch, h⟩ := canonical_u64.bind h
    cases h
    exact ⟨rfl, by simp only [encode, hNodeId, hEpoch, List.append_assoc]⟩
  | error =>
    obtain ⟨code, _, hCode, h⟩ := canonical_str.bind h
    obtain ⟨message, _, hMessage, h⟩ := canonical_str.bind h
    cases h
    exact ⟨rfl, by simp only [encode, hCode, hMessage, List.append_assoc]⟩

lemma encode_of_decode {t : MsgType} {b : Bytes} {m : Message} (h : decode t b = .ok m) :
    m.msgType = t ∧ m.encode = b := by
  obtain ⟨⟨m', rest⟩, hfields, hrest⟩ := except_bind_eq_ok h
  obtain ⟨htype, hencode⟩ := canonical_fields hfields
  dsimp only at hrest
  split_ifs at hrest with hnil
  cases hrest
  rw [not_ne_iff.mp hnil, List.append_nil] at hencode
  exact ⟨htype, hencode.symm⟩

lemma decode_encode (m : Message) : decode m.msgType m.encode = .ok m := by
  have hfields := decodeFields_encode m []
  rw [List.append_nil] at hfields
  simp only [decode, hfields]
  rfl

/-- The message codec is exact: every message is decoded from its body, and nothing but the body
of a message of the right type is decoded, so that no message has two encodings. -/
theorem message_codec_exact :
    (∀ m : Message, decode m.msgType m.encode = .ok m) ∧
    (∀ (t : MsgType) (b : Bytes) (m : Message), decode t b = .ok m →
      m.msgType = t ∧ m.encode = b) ∧
    ∀ (t t' : MsgType) (b b' : Bytes) (m : Message), decode t b = .ok m → decode t' b' = .ok m →
      t = t' ∧ b = b' := by
  refine ⟨decode_encode, fun t b m h => encode_of_decode h, ?_⟩
  intro t t' b b' m h h'
  obtain ⟨rfl, rfl⟩ := encode_of_decode h
  exact encode_of_decode h'

end Message

end TensorCache
