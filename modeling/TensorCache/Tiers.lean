import TensorCache.Wire

/-!
# Storage tiers

The three physical tiers and their coarse kinds.
-/

namespace TensorCache

/-- A backend name plus a zero-based device index. -/
structure BackendId where
  name : Str
  device : ℕ
deriving DecidableEq

namespace BackendId

def cpu (device : ℕ) : BackendId := ⟨Str.lit "cpu", device⟩

def cuda (device : ℕ) : BackendId := ⟨Str.lit "cuda", device⟩

def display (id : BackendId) : String := s!"{id.name.val}/{id.device}"

end BackendId

/-- A physical storage tier. -/
inductive Tier where
  /-- A device-resident buffer on a specific accelerator backend. -/
  | accelerator (id : BackendId)
  | host
  | persistent
deriving DecidableEq

/-- The coarse tier kind, used by the cost model and accounting. -/
inductive TierKind where
  | accelerator | host | persistent
deriving DecidableEq, Repr

namespace Tier

def kind : Tier → TierKind
  | accelerator _ => .accelerator
  | host => .host
  | persistent => .persistent

def isAccelerator : Tier → Bool
  | accelerator _ => true
  | _ => false

def label : Tier → String
  | accelerator b => s!"accelerator/{b.display}"
  | host => "host"
  | persistent => "persistent"

end Tier

end TensorCache
