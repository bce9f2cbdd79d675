import TensorCache.Lib.Process
import TensorCache.Runtime.Reachable

/-!
# Threads

The state of a runtime is guarded by one mutex. A call takes the lock once or several times: a
registration gives it up before it makes room and before it enforces the capacity, a lookup before
it records the use, a restore and a promotion before they enforce the capacity. Between two such
critical sections of one thread those of other threads come. A call is therefore a program that
asks for one critical section after the other.
-/

namespace TensorCache

open Codec EStateM Process TensorCache.Runtime

/-- What a registration that has to make room knows when it gives the lock up. -/
structure Checked where
  byteLen : UInt64
  numel : UInt64
  blocks : List BlockRef
  newHost : ℕ
deriving DecidableEq

/-- What a lookup reads of the entry. -/
structure Found where
  source : Option Tier
  tiers : List Tier
  byteLen : UInt64

/-- The critical sections. -/
inductive Critical where
  /-- The checks of `register`, and the admission if the new bytes fit. -/
  | register (r : Registration)
  | evictToFree (needed : ℕ)
  /-- The admission after room was made. -/
  | admitAfter (r : Registration) (checked : Checked)
  | enforceCapacity
  | find (address : Address) (compat : CompatKey)
  | recordUse (oid : ObjectId)
  | restore (oid : ObjectId) (tier : Tier)
  | promote (oid : ObjectId) (tier : Tier)
  /-- A call that holds the lock all the way. -/
  | whole (c : Call)

namespace Critical

/-- What a critical section finds out. -/
abbrev Val : Critical → Type
  | register _ => Option Checked
  | evictToFree _ => PUnit
  | admitAfter .. => PUnit
  | enforceCapacity => PUnit
  | find .. => Found
  | recordUse _ => PUnit
  | restore .. => Bytes
  | promote .. => Bool
  | whole _ => Reply

/-- A critical section may end in an error. -/
abbrev Resp (q : Critical) : Type := Except Error q.Val

end Critical

namespace Runtime

/-! ### What is done under the lock -/

/-- The checks of a registration. If the new bytes fit, the tensor is taken in at once, else the
lock is given up to make room. -/
def admitNow (env : Env) (r : Registration) : M (Option Checked) := do
  let s ← get
  let (byteLen, numel, blocks) ← EStateM.ofExcept (s.registerCheck r)
  let newHost := newBytes s.host.contains blocks
  if newHost > s.accounting.free .host then pure (some ⟨byteLen, numel, blocks, newHost⟩)
  else do
    admitEntry env r byteLen numel blocks newHost
    pure none

/-- The lock is taken again: only the free space is looked at once more. -/
def admitAfter (env : Env) (r : Registration) (checked : Checked) : M PUnit := do
  let s ← get
  if checked.newHost > s.accounting.free .host then
    throw (.admissionRejected "no capacity after eviction")
  else admitEntry env r checked.byteLen checked.numel checked.blocks checked.newHost

/-- The part of `lookup` that reads the entry. -/
def find (address : Address) (compat : CompatKey) : M Found := do
  let s ← get
  let oid := address.objectId
  match s.entries.lookup oid.toHex with
  | none => throw (.notFound s!"object {oid.toHex.val}")
  | some e =>
    let requested := compat.compatId
    if e.compatId ≠ requested then
      throw (.compatibility
        (s!"object {oid.toHex.val} has incompatible compat identity (requested " ++
          s!"{requested.toHex.val}, stored {e.compatId.toHex.val})"))
    else pure ⟨e.preferredTier, e.placementTiers, e.byteLen⟩

/-- The part of `restore` before the capacity is enforced. -/
def restoreLocked (env : Env) (oid : ObjectId) (tier : Tier) : M Bytes := do
  let s ← get
  let quarantined ← EStateM.ofExcept (s.entryQuarantined oid)
  if quarantined then throw (.integrity "object is quarantined")
  else do
    let bytes ← EStateM.ofExcept (s.materializePayload oid)
    let resident ← EStateM.ofExcept (s.entryHasTier oid tier)
    if resident then pure bytes
    else do
      addPlacement env oid tier bytes
      pure bytes

/-- The part of `promote` before the capacity is enforced; it is not if nothing was added. -/
def promoteLocked (env : Env) (oid : ObjectId) (tier : Tier) : M Bool := do
  let s ← get
  let resident ← EStateM.ofExcept (s.entryHasTier oid tier)
  if resident then pure false
  else do
    let quarantined ← EStateM.ofExcept (s.entryQuarantined oid)
    if quarantined then throw (.integrity "object is quarantined")
    else do
      let bytes ← EStateM.ofExcept (s.materializePayload oid)
      addPlacement env oid tier bytes
      pure true

end Runtime

namespace Critical

def run (env : Env) : (q : Critical) → M q.Val
  | register r => admitNow env r
  | evictToFree needed => Runtime.evictToFree env needed
  | admitAfter r checked => Runtime.admitAfter env r checked
  | enforceCapacity => Runtime.enforceCapacity env
  | find address compat => Runtime.find address compat
  | recordUse oid => modify (updateEntry oid (Runtime.recordUse env))
  | restore oid tier => restoreLocked env oid tier
  | promote oid tier => promoteLocked env oid tier
  | whole c => call env c

/-- The sections that a call begins with. -/
def opens : Critical → Bool
  | evictToFree _ | admitAfter .. | enforceCapacity | recordUse _ => false
  | _ => true

/-- The state in which a section begins; the first of a call starts a new journal. -/
def enter (q : Critical) (s : Runtime) : Runtime := if q.opens then s.beginCall else s

end Critical

/-! ### The calls of a thread -/

abbrev Job (α : Type) := ExceptT Error (Program Critical.Resp) α

namespace Job

def ask (q : Critical) : Job q.Val := Program.request q

/-- `let _ = ask(q)`. -/
def ignoring (q : Critical) : Job PUnit := do
  let _ ← ExceptT.lift (Program.request q)
  pure ⟨⟩

/-- What `lookup` makes of what it has read. -/
def lookupResult (cost : CostModel) (address : Address) (found : Found) : LookupResult :=
  let plan := Planner.decide cost found.byteLen.toNat .host found.tiers false
  { hit := true, objectId := address.objectId, generation := address.generation,
    sourceTier := found.source, compatOk := true, bytes := found.byteLen,
    reconstructionAvoidedNs :=
      if plan.action ≠ .reconstruct then cost.reconstructCostNs found.byteLen.toNat else 0,
    transferCostNs := plan.costNs, rationale := plan.rationale }

def register (r : Registration) : Job ObjectId := do
  match ← ask (.register r) with
  | none => do
    ask .enforceCapacity
    pure r.address.objectId
  | some checked => do
    ask (.evictToFree checked.newHost)
    ask (.admitAfter r checked)
    ask .enforceCapacity
    pure r.address.objectId

def lookup (cost : CostModel) (address : Address) (compat : CompatKey) : Job LookupResult := do
  let found ← ask (.find address compat)
  ask (.recordUse address.objectId)
  pure (lookupResult cost address found)

def restore (oid : ObjectId) (tier : Tier) : Job Bytes := do
  let bytes ← ask (.restore oid tier)
  ignoring .enforceCapacity
  pure bytes

def promote (oid : ObjectId) (tier : Tier) : Job PUnit := do
  let added ← ask (.promote oid tier)
  if added then ignoring .enforceCapacity else pure ⟨⟩

/-- A public call, as a thread makes it. -/
def call (cost : CostModel) : Call → Job Reply
  | .register r => do
    let oid ← register r
    pure (.registered oid)
  | .lookup address compat => do
    let result ← lookup cost address compat
    pure (.found result)
  | .restore oid tier => do
    let bytes ← restore oid tier
    pure (.restored bytes)
  | .promote oid tier | .replicate oid tier => do
    promote oid tier
    pure .done
  | c => ask (.whole c)

end Job

/-! ### Threads around one runtime -/

/-- A thread makes one call. -/
structure Thread where
  id : ℕ
  call : Call

/-- What a critical section amounts to, if its thread is not interrupted later on. -/
inductive Effect where
  /-- The whole call. -/
  | call (env : Env)
  /-- A lookup, up to the use that is still to be recorded. -/
  | looked (env : Env)
  | used (env : Env) (oid : ObjectId)
  /-- A registration has passed its checks, but there is no room. -/
  | short
  | room (env : Env) (needed : ℕ)
  | admitted (env : Env) (r : Registration) (checked : Checked)

/-- The effect of a critical section of a call. -/
def Critical.effect (env : Env) : (q : Critical) → q.Resp → Option Effect
  | register _, .ok (some _) => some .short
  | evictToFree needed, _ => some (.room env needed)
  | admitAfter r checked, _ => some (.admitted env r checked)
  | enforceCapacity, _ => none
  | find .., _ => some (.looked env)
  | recordUse oid, _ => some (.used env oid)
  | _, _ => some (.call env)

/-- A runtime, and what has taken effect on it, newest first. -/
structure Shared where
  tc : Runtime
  log : List (Thread × Effect)

namespace Shared

/-- A thread gets the lock. -/
def Does (t : Thread) (q : Critical) (s : Shared) (x : q.Resp) (s' : Shared) : Prop :=
  ∃ env, x = outcome (q.run env (q.enter s.tc)) ∧
    s' = ⟨(q.run env (q.enter s.tc)).state, ((q.effect env x).map (t, ·)).toList ++ s.log⟩

/-- Threads arrive with any calls of `T`. -/
def world (cost : CostModel) (T : Call → Prop) :
    World Thread Shared Critical.Resp (Except Error Reply) where
  does := Does
  finishes _ _ s s' := s' = s
  arrives s t p s' := T t.call ∧ p = Job.call cost t.call ∧ s' = s
  moves _ _ := False

/-- A runtime that no thread has called yet. -/
def start (s : Runtime) : Config Thread Shared Critical.Resp (Except Error Reply) where
  scene := ⟨⟨s, []⟩, []⟩
  tasks := []

end Shared

end TensorCache
