import Mathlib.Data.List.Sort
import TensorCache.Accounting

/-!
# Costs, admission, eviction order and planning

The deterministic economics of the runtime. Costs are nanoseconds in `u64`, saturating at the
top; keep-scores are `i64` as the source computes them.
-/

namespace TensorCache

/-- `u64::MAX`. -/
def u64Max : ℕ := 2 ^ 64 - 1

/-! ### The cost model -/

/-- A configurable, deterministic cost model. -/
structure CostModel where
  accelReadBw : UInt64 := 1800000000000
  accelWriteBw : UInt64 := 1800000000000
  hostReadBw : UInt64 := 20000000000
  hostWriteBw : UInt64 := 20000000000
  storageReadBw : UInt64 := 1500000000
  storageWriteBw : UInt64 := 1200000000
  /-- One-way transfer setup latency across a tier hop. -/
  transferLatencyNs : UInt64 := 20000
  /-- Restore-from-persistent setup latency. -/
  restoreLatencyNs : UInt64 := 250000
  recomputeBaseNs : UInt64 := 5000000
  recomputeNsPerByte : UInt64 := 30

namespace CostModel

def readBw (m : CostModel) : TierKind → ℕ
  | .accelerator => m.accelReadBw.toNat
  | .host => m.hostReadBw.toNat
  | .persistent => m.storageReadBw.toNat

def writeBw (m : CostModel) : TierKind → ℕ
  | .accelerator => m.accelWriteBw.toNat
  | .host => m.hostWriteBw.toNat
  | .persistent => m.storageWriteBw.toNat

/-- Nanoseconds required to move `bytes` at the given bandwidth. -/
def transferNs (bytes bandwidth : ℕ) : ℕ :=
  if bandwidth = 0 then u64Max else min (bytes * 1000000000 / bandwidth) u64Max

/-- Cost to transfer `bytes` from `src` to `dst`. -/
def transferCostNs (m : CostModel) (src dst : Tier) (bytes : ℕ) : ℕ :=
  saturatingAdd m.transferLatencyNs.toNat
    (transferNs bytes (min (m.readBw src.kind) (m.writeBw dst.kind)))

/-- Cost to restore `bytes` from persistent storage to `dst`. -/
def restoreCostNs (m : CostModel) (dst : Tier) (bytes : ℕ) : ℕ :=
  saturatingAdd m.restoreLatencyNs.toNat
    (transferNs bytes (min m.storageReadBw.toNat (m.writeBw dst.kind)))

/-- Cost to recompute `bytes`. -/
def reconstructCostNs (m : CostModel) (bytes : ℕ) : ℕ :=
  saturatingAdd m.recomputeBaseNs.toNat (min (bytes * m.recomputeNsPerByte.toNat) u64Max)

def reuseInPlaceCostNs (_ : CostModel) : ℕ := 0

end CostModel

/-! ### Admission -/

/-- A candidate object under consideration for admission. -/
structure AdmissionCandidate where
  bytes : ℕ
  reconstructionCostNs : ℕ
  /-- Expected value of a future reuse. -/
  reuseValueNs : ℕ

structure AdmissionPolicy where
  maxObjectBytes : UInt64 := 1073741824
  minReuseValueNs : UInt64 := 250000
  valuePerByteNs : UInt64 := 1
  maxObjects : Option UInt64 := none
  minReconstructionCostNs : UInt64 := 0

inductive AdmissionDecision where
  | admitted
  | reject (reason : String)
deriving DecidableEq

/-- The non-capacity admission criteria (size, value, object count). -/
def evaluateIgnoringCapacity (policy : AdmissionPolicy) (candidate : AdmissionCandidate)
    (accounting : Accounting) : AdmissionDecision :=
  let requiredValue := min (candidate.bytes * policy.valuePerByteNs.toNat) u64Max
  if candidate.bytes > policy.maxObjectBytes.toNat then
    .reject s!"object {candidate.bytes} bytes exceeds max {policy.maxObjectBytes}"
  else if candidate.reuseValueNs < policy.minReuseValueNs.toNat then
    .reject s!"object reuse value {candidate.reuseValueNs} below minimum {policy.minReuseValueNs}"
  -- a reconstruction that is trivially cheap is not worth caching
  else if candidate.reconstructionCostNs < policy.minReconstructionCostNs.toNat then
    let cost := candidate.reconstructionCostNs
    let least := policy.minReconstructionCostNs
    .reject s!"object reconstruction cost {cost} below minimum {least}"
  else if candidate.reuseValueNs < requiredValue then
    let value := candidate.reuseValueNs
    .reject s!"object reuse value {value} below per-byte requirement {requiredValue}"
  else match policy.maxObjects with
    | some max =>
      if accounting.objectCount ≥ max.toNat then .reject "object count limit reached" else .admitted
    | none => .admitted

/-! ### Eviction order -/

/-- Metadata required to score an object for eviction. -/
structure Evictable where
  objectId : Str
  bytes : ℕ
  reuseCount : ℕ
  /-- Seconds since last use. -/
  ageSeconds : ℕ
  reconstructionCostNs : ℕ
  priority : ℕ
  durable : Bool

/-- The eviction policy weights. -/
structure EvictionPolicy where
  reuseWeight : UInt64 := 1000
  reconstructWeight : UInt64 := 1
  ageWeight : UInt64 := 500
  sizeWeight : UInt64 := 200
  durableBonus : UInt64 := 1000000
  priorityWeight : UInt64 := 500000

/-- `x as i64`, and the wrapping result of an `i64` addition. -/
def toI64 (x : ℤ) : ℤ := x.bmod (2 ^ 64)

/-- `i64::saturating_mul`. -/
def saturatingMulI64 (a b : ℤ) : ℤ := max (-2 ^ 63) (min (a * b) (2 ^ 63 - 1))

/-- A deterministic keep-score (higher means keep). -/
def keepScore (policy : EvictionPolicy) (e : Evictable) : ℤ :=
  let score := saturatingMulI64 (toI64 e.reuseCount) (toI64 policy.reuseWeight.toNat)
  let score := toI64 (score +
    saturatingMulI64 (toI64 e.reconstructionCostNs) (toI64 policy.reconstructWeight.toNat))
  -- age and size penalties
  let score := toI64 (score - saturatingMulI64 (toI64 e.ageSeconds) (toI64 policy.ageWeight.toNat))
  let score := toI64 (score -
    saturatingMulI64 ((toI64 e.bytes).tdiv 1024) (toI64 policy.sizeWeight.toNat))
  let score := if e.durable then toI64 (score + toI64 policy.durableBonus.toNat) else score
  toI64 (score + saturatingMulI64 (toI64 e.priority) (toI64 policy.priorityWeight.toNat))

/-- The comparison of `eviction_order`: by keep-score, ties by object id. -/
def evictsBefore (policy : EvictionPolicy) (a b : Evictable) : Prop :=
  keepScore policy a < keepScore policy b ∨
    keepScore policy a = keepScore policy b ∧ a.objectId.bytes ≤ b.objectId.bytes

instance (policy : EvictionPolicy) : DecidableRel (evictsBefore policy) := fun _ _ =>
  inferInstanceAs (Decidable (_ ∨ _))

/-- Order eviction candidates by ascending keep-score. -/
def evictionOrder (policy : EvictionPolicy) (entries : List Evictable) : List Evictable :=
  entries.insertionSort (evictsBefore policy)

lemma mem_evictionOrder {policy : EvictionPolicy} {entries : List Evictable} {e : Evictable} :
    e ∈ evictionOrder policy entries ↔ e ∈ entries :=
  (List.perm_insertionSort _ _).mem_iff

/-- The loop of `evictionPlan`: `need` bytes are still to be freed. -/
def evictUntil (need : ℕ) : List Evictable → List Evictable
  | [] => []
  | e :: es => if need = 0 then [] else e :: evictUntil (need - e.bytes) es

/-- The lowest-scoring entries that must be evicted until the tier is within its capacity. -/
def evictionPlan (policy : EvictionPolicy) (entries : List Evictable) (usedBytes capacity : ℕ) :
    List Evictable :=
  evictUntil (usedBytes - capacity) (evictionOrder policy entries)

/-! ### Planning -/

/-- The action chosen by the planner. -/
inductive Action where
  | reuseInPlace
  | transfer (src : Tier)
  | restore
  | reconstruct
  | reject
deriving DecidableEq

/-- A planned decision with its estimated cost and a rationale. -/
structure Plan where
  action : Action
  costNs : ℕ
  rationale : String
deriving DecidableEq

namespace Action

def priority : Action → ℕ
  | reuseInPlace => 0
  | transfer _ => 1
  | restore => 2
  | reconstruct => 3
  | reject => 4

def rationale : Action → String
  | reuseInPlace => "reuse in place"
  | transfer t => s!"transfer from {t.label}"
  | restore => "restore from persistent storage"
  | reconstruct => "reconstruct/recompute"
  | reject => "reject"

end Action

/-- The comparison of `decide`: lowest cost, ties by action priority. -/
def cheaper (a b : ℕ × Action) : Prop :=
  a.1 < b.1 ∨ a.1 = b.1 ∧ a.2.priority ≤ b.2.priority

instance : DecidableRel cheaper := fun _ _ => inferInstanceAs (Decidable (_ ∨ _))

namespace Planner

/-- The candidate actions of `decide` when the destination holds no copy. -/
def candidates (cost : CostModel) (bytes : ℕ) (dest : Tier) (placements : List Tier)
    (canReconstruct : Bool) : List (ℕ × Action) :=
  ((placements.filter (· ≠ dest)).map fun p => (cost.transferCostNs p dest bytes, .transfer p)) ++
  (if placements.any (·.kind = .persistent) then [(cost.restoreCostNs dest bytes, .restore)]
    else []) ++
  (if canReconstruct then [(cost.reconstructCostNs bytes, .reconstruct)] else [])

/-- The best placement or reuse action. -/
def decide (cost : CostModel) (bytes : ℕ) (dest : Tier) (placements : List Tier)
    (canReconstruct : Bool) : Plan :=
  if dest ∈ placements then
    ⟨.reuseInPlace, cost.reuseInPlaceCostNs, s!"already {dest.label} resident"⟩
  else
    match (candidates cost bytes dest placements canReconstruct).insertionSort cheaper with
    | [] => ⟨.reject, u64Max, "no source placement and reconstruction not possible"⟩
    | (costNs, action) :: _ => ⟨action, costNs, action.rationale⟩

end Planner

end TensorCache
