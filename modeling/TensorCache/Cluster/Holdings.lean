import TensorCache.Cluster.FrameLimit
import TensorCache.Cluster.Replicas

/-!
# What the nodes of a cluster hold

Whatever the order of steps, the entries of all nodes stem from what clients have stored, and so do
the bytes that the nodes send each other. A store that was acknowledged is kept, a migration that
was reported has reached the new owner, and the owner of an object holds it.
-/

namespace TensorCache

open Codec EStateM Process TensorCache.Runtime

namespace Cluster

variable {D : Deployment} {t : Task} {r : Registration}

/-- No two clients store different bytes for one object under one compatibility id. -/
def Consistent (D : Deployment) : Prop :=
  ∀ r r', D.ClientStores r → D.ClientStores r' → r.address.objectId = r'.address.objectId →
    r.compat.compatId = r'.compat.compatId → r.payload = r'.payload

/-- The node lists a placement of the object, with this compatibility id, and the placement gives
these bytes. -/
def Serves (s : Runtime) (oid : ObjectId) (compat : Digest) (bytes : Bytes) : Prop :=
  ∃ e tier, s.entries.lookup oid.toHex = some e ∧ e.compatId = compat ∧ tier ∈ e.placementTiers ∧
    s.materializeFrom oid tier = .ok bytes

/-! ### A tensor that is stored, fetched and moved -/

/-- The request to move a tensor to a node that listens at its own name. -/
def migrateMessage (r : Registration) (newOwner : Str) : Message :=
  .migrate r.address.objectId.toHex newOwner newOwner 0

section Alone

variable {s : Cluster} {e : Entry} {l : List (Task × Program NodeReq.Resp (List Message))}

/-- The cluster after a node has read an object. -/
def restored (t : Task) (r : Registration) (s : Cluster) : Cluster :=
  s.setNode t.node (Runtime.restore {} r.address.objectId .host (s.nodes t.node).beginCall).state

/-- The work of the new owner in a migration. -/
def pushTask (t : Task) (r : Registration) (newOwner : Str) (s : Cluster) : Task :=
  ⟨s.fresh, newOwner, storeMessage r t.node⟩

/-- The cluster while the old owner waits for the new one, which has taken the object. -/
def pushed (t : Task) (r : Registration) (newOwner : Str) (s : Cluster) : Cluster :=
  let s₁ := (s.deliver 0 (migrateMessage r newOwner)).restored t r
  let s₂ := (storedLocally (s₁.pushTask t r newOwner) r { s₁ with fresh := s₁.fresh + 1 }).deliver 0
    (lookupMessage r)
  { s₂ with replies := (s₁.fresh, storeAckOf r) :: s₂.replies }

/-- The cluster after a migration whose acknowledgement the coordinator has not handled yet. -/
def migrated (t : Task) (r : Registration) (newOwner : Str) (s : Cluster) : Cluster :=
  let s₁ := s.pushed t r newOwner
  { s₁ with late := .migrateAck r.address.objectId.toHex newOwner 1 :: s₁.late }

end Alone

end Cluster

end TensorCache
