import TensorCache.Deletion
import TensorCache.ObjectLimit

/-!
# What recovery counts

Recovery takes in every manifest of the store that names an object and has all its blocks. It looks
neither at the name of the file nor at the address in the manifest, and an object that is in the
table already is counted once more. So the counters agree with the table as long as the manifests
are about different objects, and recovering a second time changes nothing only if the first time
did not.
-/

namespace TensorCache

open Codec EStateM TensorCache.Runtime

/-! ### The loop -/

/-- A manifest that recovery takes in, with the object it names. -/
def PersistentStore.recoverable (st : PersistentStore) (m : PersistEntryMeta) :
    Option (ObjectId × PersistEntryMeta) :=
  match ObjectId.fromHex m.objectId with
  | .error _ => none
  | .ok oid => if st.blocksExist m.blocks then some (oid, m) else none

/-- The manifests that recovery takes in. -/
def Runtime.found (s : Runtime) : List (ObjectId × PersistEntryMeta) :=
  match s.persistent with
  | none => []
  | some st => st.recover.filterMap st.recoverable

/-- Take in one of them. -/
def takeBack (env : Env) (s : Runtime) (f : ObjectId × PersistEntryMeta) : Runtime :=
  insertEntry f.1.toHex (recoveredEntry env f.1.toHex f.2)
    (s.setDurable (f.2.blocks.foldl (fun d b => d.addRef b) s.durable))

lemma recoverLoop_eq (env : Env) (st : PersistentStore) (ms : List PersistEntryMeta)
    (acc : Runtime × RecoveryReport) :
    (ms.foldl (recoverOne env st) acc).1
      = (ms.filterMap st.recoverable).foldl (takeBack env) acc.1 := by
  induction ms generalizing acc with
  | nil => rfl
  | cons m ms ih =>
    rw [List.foldl_cons, ih]
    cases hhex : ObjectId.fromHex m.objectId with
    | error e =>
      have hnone : st.recoverable m = none := by simp [PersistentStore.recoverable, hhex]
      rw [List.filterMap_cons_none hnone]
      simp [recoverOne, hhex]
    | ok oid =>
      by_cases hexist : st.blocksExist m.blocks = true
      · have hsome : st.recoverable m = some (oid, m) := by
          simp [PersistentStore.recoverable, hhex, hexist]
        rw [List.filterMap_cons_some hsome, List.foldl_cons]
        simp [recoverOne, hhex, hexist, takeBack]
      · have hnone : st.recoverable m = none := by
          simp [PersistentStore.recoverable, hhex, hexist]
        rw [List.filterMap_cons_none hnone]
        simp [recoverOne, hhex, hexist]

lemma recover_eq (env : Env) (s : Runtime) :
    (recover env s).1 = s.found.foldl (takeBack env) s := by
  unfold recover found
  cases s.persistent with
  | none => rfl
  | some st => exact recoverLoop_eq env st _ _

lemma mem_found {s : Runtime} {f : ObjectId × PersistEntryMeta} (h : f ∈ s.found) :
    ∃ st, s.persistent = some st ∧ f.2 ∈ st.recover ∧ ObjectId.fromHex f.2.objectId = .ok f.1 := by
  unfold found at h
  split at h
  · simp at h
  · rename_i st hst
    obtain ⟨m, hm, hf⟩ := List.mem_filterMap.mp h
    unfold PersistentStore.recoverable at hf
    split at hf
    · cases hf
    · rename_i oid hhex
      split_ifs at hf
      cases hf
      exact ⟨st, hst, hm, hhex⟩

/-- A property of the entries that were there and of those that are recovered. -/
lemma forall_takeBack {env : Env} {P : Str → Entry → Prop}
    {fs : List (ObjectId × PersistEntryMeta)} {s : Runtime}
    (h : ∀ k e, s.entries.lookup k = some e → P k e)
    (hfs : ∀ f ∈ fs, P f.1.toHex (recoveredEntry env f.1.toHex f.2)) :
    ∀ k e, (fs.foldl (takeBack env) s).entries.lookup k = some e → P k e := by
  induction fs generalizing s with
  | nil => exact h
  | cons f fs ih =>
    exact ih (AList.forall_insert h (hfs f List.mem_cons_self))
      fun f' hf' => hfs f' (List.mem_cons_of_mem _ hf')

lemma objectCount_takeBack (env : Env) (fs : List (ObjectId × PersistEntryMeta)) (s : Runtime) :
    (fs.foldl (takeBack env) s).objectCount = s.objectCount + fs.length := by
  induction fs generalizing s with
  | nil => rfl
  | cons f fs ih =>
    rw [List.foldl_cons, ih, List.length_cons]
    change s.objectCount + 1 + fs.length = _
    omega

/-! ### A second recovery -/

/-- Recovering again leaves the table, the counters and the host tier as they are exactly if there
is nothing to recover. -/
theorem recover_again_unchanged_iff (env : Env) (s : Runtime) :
    ((recover env s).1.entries = s.entries ∧ (recover env s).1.objectCount = s.objectCount ∧
      (recover env s).1.persistentRefs = s.persistentRefs ∧
      (recover env s).1.storageUsed = s.storageUsed ∧
      (recover env s).1.accelUsed = s.accelUsed ∧ (recover env s).1.host = s.host) ↔
      s.found = [] := by
  constructor
  · rintro ⟨-, hcount, -⟩
    rw [recover_eq, objectCount_takeBack] at hcount
    exact List.eq_nil_of_length_eq_zero (by omega)
  · intro hnone
    rw [recover_eq, hnone]
    exact ⟨rfl, rfl, rfl, rfl, rfl, rfl⟩

/-- A tensor that was made durable is counted twice by a second recovery: once it has been deleted,
there are no entries, but one object and two bytes are still counted, and the block is still
there. -/
theorem recover_again_counts_twice :
    ∃ s₀ s, new {} (storeConfig 2) [] ∅ 0 = .ok s₀ ∧
      s = ((recover {} (s₀.run (persistSession 2 (bytePair 0 1 2)).events)).1.exec
        ⟨{}, .delete (bytePair 0 1 2).address.objectId⟩) ∧
      s.entries.keys = [] ∧ s.objectCount = 1 ∧ s.storageUsed = 2 ∧
      ((s.files ∅).lookup (blockFile (hash (bytePair 0 1 2).payload))).isSome = true := by
  refine ⟨_, _, new_openStore ∅, rfl, ?_⟩
  decide +kernel

/-! ### The first mentions of blocks -/

section Loop

variable {env : Env} {s : Runtime} {f : ObjectId × PersistEntryMeta}
  {fs : List (ObjectId × PersistEntryMeta)}

end Loop

/-! ### Any directory -/

/-- The table and the counters agree, where the blocks have the lengths `len`. -/
structure Sound (len : Digest → ℕ) (s : Runtime) : Prop where
  count : s.objectCount = s.tableSize
  keyed : ∀ k e, s.entries.lookup k = some e → k = e.address.objectId.toHex
  refs : ∀ h, s.durable.count h = demand (durableWeight h) s.entries
  used : s.storageUsed = s.persistentRefs.total fun h _ => len h

end TensorCache
