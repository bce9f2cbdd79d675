import TensorCache.Runtime.Moves

/-!
# Filesystems that do not fail

When no filesystem step fails, the store refuses nothing that belongs to it: an attempt to keep a
payload goes through, or it is refused before anything has changed.
-/

namespace TensorCache

open Codec EStateM

variable {io : IoFaults}

namespace PersistentStore

end PersistentStore

namespace Durable

variable {S : Set Bytes} {M : Path → PersistEntryMeta → Prop} {cap : ℕ} {d d' : Durable}

end Durable

namespace Runtime

variable {sc : Scope} {config : RuntimeConfig} {o : Origin} {s s' : Runtime} {env : Env}
  {oid : ObjectId} {e : Entry} {r : Registration}

end Runtime

end TensorCache
