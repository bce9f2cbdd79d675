import TensorCache.Runtime.Frame
import TensorCache.Runtime.Sessions

/-!
# The object limit

Admission compares the limit on the number of objects with a counter of the accounting that no
call of the runtime sets. The counter stays at zero, so the limit only binds when it is zero. A
registration adds at most one entry and nothing else adds any, so the table stays within the limit
as long as nothing is registered while it is full.
-/

namespace TensorCache

open Codec EStateM TensorCache.Runtime

namespace Runtime

/-- The number of entries in the table. -/
def tableSize (s : Runtime) : ℕ := s.entries.keys.length

end Runtime

/-! ### The size of the table -/

section Size

lemma length_keys_eq_total {K V : Type} (m : HashMap K V) :
    m.keys.length = m.total fun _ _ => 1 := by
  simp [AList.keys, List.keys, AList.total]

variable {K V : Type} [DecidableEq K] (m : HashMap K V) (k : K)

lemma length_keys_insert_le (v : V) : (m.insert k v).keys.length ≤ m.keys.length + 1 := by
  have herase : (m.keys.erase k).length ≤ m.keys.length := List.length_erase_le
  rw [AList.keys_insert, List.length_cons]
  omega

lemma length_keys_erase_le : (m.erase k).keys.length ≤ m.keys.length := by
  rw [AList.keys_erase]
  exact List.length_erase_le

lemma length_keys_modify (g : V → V) : (m.modify k g).keys.length = m.keys.length := by
  cases h : m.lookup k with
  | none => rw [AList.modify_of_none h]
  | some v =>
    have htotal := AList.total_modify_add (fun _ _ => 1) g h
    rw [length_keys_eq_total, length_keys_eq_total]
    omega

end Size

/-! ### One call -/

/-- `s` has at most `n` more entries than `s₀`, and the object counter and the configuration are
what they were. -/
structure Grows (n : ℕ) (s₀ s : Runtime) : Prop where
  size : s.tableSize ≤ s₀.tableSize + n
  counter : s.accounting.objectCount = s₀.accounting.objectCount
  config : s.config = s₀.config

variable {s s₀ : Runtime} {n : ℕ} {m : UInt64} {ev : Event}

lemma Grows.mono {n' : ℕ} (h : Grows n s₀ s) (hn : n ≤ n') : Grows n' s₀ s :=
  ⟨le_trans h.size (Nat.add_le_add_left hn _), h.counter, h.config⟩

/-- Changes of single entries and of the tiers leave the table as large as it is. -/
lemma stable_grows (n : ℕ) (s₀ : Runtime) : Stable (Grows n s₀) where
  update s oid f hs := by
    refine ⟨?_, hs.counter, hs.config⟩
    have hsize : (updateEntry oid f s).tableSize = s.tableSize := length_keys_modify _ _ _
    rw [hsize]
    exact hs.size
  host _ _ hs := ⟨hs.size, hs.counter, hs.config⟩
  devices _ _ hs := ⟨hs.size, hs.counter, hs.config⟩
  durable _ _ hs := ⟨hs.size, hs.counter, hs.config⟩

lemma Grows.insertEntry (h : Grows 0 s₀ s) (k : Str) (e : Entry) :
    Grows 1 s₀ (insertEntry k e s) := by
  refine ⟨?_, h.counter, h.config⟩
  have hsize : (Runtime.insertEntry k e s).tableSize ≤ s.tableSize + 1 :=
    length_keys_insert_le _ _ _
  have := h.size
  omega

lemma Grows.removeEntry (h : Grows n s₀ s) (oid : ObjectId) : Grows n s₀ (removeEntry oid s) := by
  unfold Runtime.removeEntry
  cases s.entries.lookup oid.toHex with
  | none => exact h
  | some e =>
    refine ⟨le_trans ?_ h.size, h.counter, h.config⟩
    exact length_keys_erase_le _ _

lemma grows_beginCall (s : Runtime) : Grows 0 s s.beginCall := ⟨le_rfl, rfl, rfl⟩

/-- Only a registration adds an entry, and never more than one. -/
lemma grows_exec (s : Runtime) (ev : Event) :
    Grows ev.call.registration.length s (s.exec ev) := by
  have hbegin := grows_beginCall s
  have hother : (∀ r, ev.call ≠ .register r) → (∀ oid, ev.call ≠ .delete oid) →
      Grows 0 s (s.exec ev) := fun hregister hdelete =>
    ((stable_grows 0 s).guarded.call hregister hdelete fun _ _ _ _ => .inl trivial).state hbegin
  cases hc : ev.call with
  | register r =>
    unfold exec
    rw [hc]
    refine Triple.state (P := (· = s.beginCall)) (Triple.bind ?_ fun _ => Keeps.pure) rfl
    exact (stable_grows 0 s).guarded.register (stable_grows 1 s).guarded
      (fun _ hs => hs.mono (Nat.zero_le 1))
      hbegin fun _ _ _ _ _ _ hs => hs.insertEntry _ _
  | delete oid =>
    unfold exec
    rw [hc]
    refine Keeps.state (Keeps.bind ?_ fun _ => Keeps.pure) hbegin
    exact (stable_grows 0 s).guarded.delete fun _ hs => hs.removeEntry oid
  | _ => exact hother (by simp [hc]) (by simp [hc])

/-! ### Admission -/

/-- The same runtime without a limit on the number of objects. -/
def Runtime.unlimited (s : Runtime) : Runtime :=
  { s with config := { s.config with admission := { s.config.admission with maxObjects := none } } }

section Admission

variable {policy : AdmissionPolicy} {candidate : AdmissionCandidate} {accounting : Accounting}

/-- A counter below the limit makes the limit void. -/
lemma evaluate_of_lt (hmax : policy.maxObjects = some m)
    (hlt : accounting.objectCount < m.toNat) :
    evaluateIgnoringCapacity policy candidate accounting
      = evaluateIgnoringCapacity { policy with maxObjects := none } candidate accounting := by
  simp only [evaluateIgnoringCapacity, hmax, if_neg (Nat.not_le.mpr hlt)]

lemma evaluate_of_le (hmax : policy.maxObjects = some m)
    (hle : m.toNat ≤ accounting.objectCount)
    (h : evaluateIgnoringCapacity { policy with maxObjects := none } candidate accounting
      = .admitted) :
    evaluateIgnoringCapacity policy candidate accounting = .reject "object count limit reached" := by
  simp only [evaluateIgnoringCapacity] at h
  split_ifs at h with hbytes hvalue hcost hrequired
  simp only [evaluateIgnoringCapacity, hmax, if_neg hbytes, if_neg hvalue, if_neg hcost,
    if_neg hrequired, if_pos hle]

end Admission

lemma registerCheck_of_lt {r : Registration} (hmax : s.config.admission.maxObjects = some m)
    (hlt : s.accounting.objectCount < m.toNat) :
    s.registerCheck r = s.unlimited.registerCheck r := by
  unfold registerCheck
  simp only [evaluate_of_lt hmax hlt]
  rfl

/-- What the checks of a registration have found when they pass. -/
lemma registerCheck_passed {r : Registration} {x : UInt64 × UInt64 × List BlockRef}
    (h : s.registerCheck r = .ok x) :
    ∃ byteLen numel blocks, r.compat.shape.byteLen r.compat.dtype.byteSize = .ok byteLen ∧
      ¬byteLen ≠ UInt64.ofNat r.payload.length ∧ r.compat.shape.numel = .ok numel ∧
      chunk r.payload s.config.blockSize.toNat = .ok blocks ∧
      validateBlockList blocks byteLen = .ok () ∧
      ¬(s.entries.lookup r.address.objectId.toHex).isSome = true ∧
      evaluateIgnoringCapacity s.config.admission
        ⟨byteLen.toNat, s.config.cost.reconstructCostNs byteLen.toNat,
          s.config.cost.reconstructCostNs byteLen.toNat⟩ s.accounting = .admitted := by
  unfold registerCheck at h
  obtain ⟨byteLen, hbyteLen, h⟩ := except_bind_eq_ok h
  by_cases hlen : byteLen ≠ UInt64.ofNat r.payload.length
  · rw [if_pos hlen] at h
    cases h
  rw [if_neg hlen] at h
  obtain ⟨numel, hnumel, h⟩ := except_bind_eq_ok h
  obtain ⟨blocks, hblocks, h⟩ := except_bind_eq_ok h
  obtain ⟨_, hvalid, h⟩ := except_bind_eq_ok h
  dsimp only at h
  by_cases hused : (s.entries.lookup r.address.objectId.toHex).isSome
  · rw [if_pos hused] at h
    cases h
  rw [if_neg hused] at h
  refine ⟨byteLen, numel, blocks, hbyteLen, hlen, hnumel, hblocks, hvalid, hused, ?_⟩
  split at h
  · cases h
  · assumption

/-- What only the limit stops is refused by admission. -/
lemma registerCheck_of_le {r : Registration} {x : UInt64 × UInt64 × List BlockRef}
    (hmax : s.config.admission.maxObjects = some m) (hle : m.toNat ≤ s.accounting.objectCount)
    (h : s.unlimited.registerCheck r = .ok x) :
    s.registerCheck r = .error (.admissionRejected "object count limit reached") := by
  obtain ⟨byteLen, numel, blocks, hbyteLen, hlen, hnumel, hblocks, hvalid, hused, hadmitted⟩ :=
    registerCheck_passed h
  have hreject := evaluate_of_le hmax hle hadmitted
  have hblocks' : chunk r.payload s.config.blockSize.toNat = .ok blocks := hblocks
  have hused' : ¬(s.entries.lookup r.address.objectId.toHex).isSome = true := hused
  have hreject' : evaluateIgnoringCapacity s.config.admission
      ⟨byteLen.toNat, s.config.cost.reconstructCostNs byteLen.toNat,
        s.config.cost.reconstructCostNs byteLen.toNat⟩ s.accounting
      = .reject "object count limit reached" := hreject
  simp only [registerCheck, hbyteLen, hnumel, hblocks', hvalid, bind, Except.bind, if_neg hlen,
    if_neg hused', hreject']

/-- With the counter at the limit no registration passes its checks. -/
lemma registerCheck_ne_ok {r : Registration} (hmax : s.config.admission.maxObjects = some m)
    (hle : m.toNat ≤ s.accounting.objectCount) (x : UInt64 × UInt64 × List BlockRef) :
    s.registerCheck r ≠ .ok x := by
  intro h
  obtain ⟨byteLen, -, -, -, -, -, -, -, -, hadmitted⟩ := registerCheck_passed h
  simp only [evaluateIgnoringCapacity, hmax, if_pos hle] at hadmitted
  split_ifs at hadmitted

/-! ### Runs -/

/-- Nothing is registered while the table is full, or the limit is zero. -/
def BelowLimit (m : UInt64) (s : Runtime) (ev : Event) : Prop :=
  ∀ r, ev.call = .register r → m = 0 ∨ s.tableSize < m.toNat

/-- What a limit of `m` objects promises of one call: the table stays within the limit, a full
table admits nothing, and below the limit it plays no part. -/
structure LimitKept (m : UInt64) (s : Runtime) (ev : Event) : Prop where
  bound : (s.exec ev).tableSize ≤ m.toNat
  full : ∀ r x, ev.call = .register r → s.tableSize = m.toNat →
    s.beginCall.unlimited.registerCheck r = .ok x →
    ∃ msg s', call ev.env ev.call s.beginCall = .error (.admissionRejected msg) s'
  room : ∀ r, ev.call = .register r → s.tableSize < m.toNat →
    s.beginCall.registerCheck r = s.beginCall.unlimited.registerCheck r

/-- The table is within the limit, and the counter that admission reads is zero. -/
structure Counted (m : UInt64) (s : Runtime) : Prop where
  counter : s.accounting.objectCount = 0
  limit : s.config.admission.maxObjects = some m
  size : s.tableSize ≤ m.toNat

lemma Counted.step (h : Counted m s) (hbelow : BelowLimit m s ev) :
    LimitKept m s ev ∧ Counted m (s.exec ev) := by
  have hgrows := grows_exec s ev
  have hle : m = 0 → m.toNat ≤ s.beginCall.accounting.objectCount := by
    rintro rfl
    exact Nat.zero_le _
  have hsize : (s.exec ev).tableSize ≤ m.toNat := by
    have hgrown := hgrows.size
    cases hc : ev.call with
    | register r =>
      rcases hbelow r hc with hm | hlt
      · -- nothing is admitted, so the call ends where it began
        cases hcheck : s.beginCall.registerCheck r with
        | ok x => exact absurd hcheck (registerCheck_ne_ok h.limit (hle hm) x)
        | error e =>
          rw [exec, hc, register_of_error hcheck]
          exact h.size
      · rw [hc] at hgrown
        exact le_trans hgrown hlt
    | _ =>
      rw [hc] at hgrown
      exact le_trans hgrown h.size
  refine ⟨⟨hsize, ?_, ?_⟩, hgrows.counter.trans h.counter, hgrows.config ▸ h.limit, hsize⟩
  · intro r x hc hfull hx
    rcases hbelow r hc with hm | hlt
    · rw [hc]
      exact ⟨_, _, register_of_error (registerCheck_of_le h.limit (hle hm) hx)⟩
    · exact absurd hfull hlt.ne
  · intro r hc hlt
    refine registerCheck_of_lt h.limit (lt_of_eq_of_lt h.counter ?_)
    exact Nat.zero_lt_of_lt hlt

lemma Counted.run (h : Counted m s) (events : List Event)
    (hbelow : Throughout (BelowLimit m) s events) :
    Throughout (LimitKept m) s events ∧ Counted m (s.run events) := by
  induction events generalizing s with
  | nil => exact ⟨trivial, h⟩
  | cons ev events ih =>
    obtain ⟨hhere, hrest⟩ := hbelow
    obtain ⟨hkept, hcounted⟩ := h.step hhere
    obtain ⟨hkepts, hrun⟩ := ih hcounted hrest
    exact ⟨⟨hkept, hkepts⟩, hrun⟩

end TensorCache
