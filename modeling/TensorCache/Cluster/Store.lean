import TensorCache.Cluster.Basic
import TensorCache.Coordinator.Ownership

/-!
# A store that is not disturbed

The steps of a node that works on a `Store` while everything else waits, with a cache that takes
the object and a coordinator that answers at once.
-/

namespace TensorCache

open Codec Process

namespace Cluster

/-- The message that stores a tensor. -/
def storeMessage (r : Registration) (source : Str) : Message :=
  .store r.address.nameSpace r.address.key r.address.generation ⟨r.payload, r.payload_small⟩
    (crc32c r.payload) ⟨r.compat.encode, r.compat_small⟩ source

/-- The request that looks a tensor up. -/
def lookupMessage (r : Registration) : Message :=
  .lookup r.address.nameSpace r.address.key r.address.generation ⟨r.compat.encode, r.compat_small⟩

/-- The request of a node that claims a tensor. -/
def createMessage (r : Registration) (node : Str) : Message :=
  .create r.address.nameSpace r.address.key r.address.generation (UInt64.ofNat r.payload.length)
    ⟨r.compat.encode, r.compat_small⟩ node

/-- The response to a store. -/
def storeAckOf (r : Registration) : List Message := [.storeAck r.address.objectId.toHex]

lemma decodeKey_encode {k : CompatKey} (hsmall : k.encode.length < 2 ^ 64)
    (h : k.layout.validate k.shape = .ok ()) : decodeKey ⟨k.encode, hsmall⟩ = .ok ⟨k, hsmall⟩ := by
  have hdecode := CompatKey.decode_encode h
  unfold decodeKey
  split
  · rename_i e he
    rw [hdecode] at he
    cases he
  · rename_i k' hk'
    have heq : k' = k := by
      rw [hdecode] at hk'
      exact (Except.ok.inj hk').symm
    subst heq
    rfl

lemma handleStore_eq (me : NodeInfo) {r : Registration}
    (h : r.compat.layout.validate r.compat.shape = .ok ()) :
    Node.handleStore me r.address.nameSpace r.address.key r.address.generation
        ⟨r.payload, r.payload_small⟩ (crc32c r.payload) ⟨r.compat.encode, r.compat_small⟩
      = (do
        Node.storeLocally r
        Node.claim me r.address.nameSpace r.address.key r.address.generation
          (UInt64.ofNat r.payload.length) ⟨r.compat.encode, r.compat_small⟩
        pure (storeAckOf r)) := by
  unfold Node.handleStore
  rw [if_neg (not_not.mpr rfl), decodeKey_encode r.compat_small h]
  rfl

section Alone

variable {s : Cluster} {t : Task} {r : Registration}

/-- The cluster after the local part of a store. -/
def storedLocally (t : Task) (r : Registration) (s : Cluster) : Cluster :=
  s.setNode t.node (Runtime.register {} r (s.nodes t.node).beginCall).state

/-- The cluster after a store of an object that nobody owned. -/
def stored (t : Task) (r : Registration) (s : Cluster) : Cluster :=
  let s₂ := ((s.storedLocally t r).deliver 0 (lookupMessage r)).deliver 0 (createMessage r t.node)
  { s₂ with replies := (t.conn, storeAckOf r) :: s₂.replies }

/-- A claim is always answered. -/
lemma reply_create (now : UInt64) (nameSpace key : Str) (generation byteLen : UInt64)
    (compat : Blob) (node : Str) :
    ∃ m, (s.reply now (.create nameSpace key generation byteLen compat node)).head? = some m := by
  have hcases := s.coord.handled now (.create nameSpace key generation byteLen compat node)
  unfold reply
  generalize s.coord.handle now (.create nameSpace key generation byteLen compat node) = res
    at hcases ⊢
  cases hcases with
  | created | reclaimed | claimRefused => exact ⟨_, rfl⟩
  | idle m hidle => cases hidle

/-- A store of an object that nobody owns. -/
lemma steps_store (T : Traffic) (addr : Str → Str) (s : Cluster) (past : Past) (t : Task)
    (source : Str) {r : Registration} {oid : ObjectId}
    (hvalid : r.compat.layout.validate r.compat.shape = .ok ())
    (hreg : outcome (Runtime.register {} r (s.nodes t.node).beginCall) = .ok oid)
    (hfree : s.coord.objects.lookup r.address.objectId.toHex = none)
    (l : List (Task × Program NodeReq.Resp (List Message))) :
    ∃ past', Steps (world T addr)
      ⟨⟨s, past⟩, (t, Node.serve ⟨t.node, addr t.node⟩ (storeMessage r source)) :: l⟩
      ⟨⟨s.stored t r, .finished t (storeAckOf r) :: past'⟩, l⟩ := by
  have hserve : Node.serve ⟨t.node, addr t.node⟩ (storeMessage r source) =
      (do
        let x ← ExceptT.run (Node.handleStore ⟨t.node, addr t.node⟩ r.address.nameSpace
          r.address.key r.address.generation ⟨r.payload, r.payload_small⟩ (crc32c r.payload)
          ⟨r.compat.encode, r.compat_small⟩)
        pure (responses x)) := rfl
  rw [hserve, handleStore_eq _ hvalid]
  have hdoes₁ : Does t (.register r) s (.ok oid) (s.storedLocally t r) := by
    have h := Does.register (t := t) r {} s
    rw [hreg] at h
    exact h
  have hreply : ((s.storedLocally t r).reply 0 (lookupMessage r)).head?
      = some (.lookupResult false none none r.address.generation) := by
    change (responses (outcome (Coordinator.lookup _ _ _ s.coord))).head? = _
    unfold Coordinator.lookup
    rw [EStateM.get_bind_apply]
    have hfree' : s.coord.objects.lookup (Coordinator.objectId r.address.nameSpace r.address.key
        r.address.generation) = none := hfree
    simp only [hfree']
    rfl
  have hdoes₂ := Does.answered (t := t) (lookupMessage r) 0 (s.storedLocally t r)
  rw [hreply] at hdoes₂
  obtain ⟨reply, hreply'⟩ := reply_create (s := (s.storedLocally t r).deliver 0 (lookupMessage r)) 0
    r.address.nameSpace r.address.key r.address.generation (UInt64.ofNat r.payload.length)
    ⟨r.compat.encode, r.compat_small⟩ t.node
  have hdoes₃ := Does.answered (t := t) (createMessage r t.node) 0
    ((s.storedLocally t r).deliver 0 (lookupMessage r))
  rw [createMessage, hreply'] at hdoes₃
  refine ⟨_, .head (Step.act [] l hdoes₁) (.head (Step.act [] l hdoes₂)
    (.head (Step.act [] l hdoes₃) (.single (Step.finish [] l ?_))))⟩
  rfl

end Alone

end Cluster

end TensorCache
