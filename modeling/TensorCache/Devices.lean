import TensorCache.Lib.AssocMap
import TensorCache.Lib.Command
import TensorCache.Tiers

/-!
# Device backends

An accelerator placement lives on one of two backends: the mandatory CPU backend, whose buffers
are plain byte vectors, and the CUDA backend, whose buffers are device addresses. The CUDA
runtime library itself is not part of the program: a device is a map from live addresses to
their contents, and `Driver` says which of its calls fail.
-/

namespace TensorCache

open Codec

/-! ### Device buffers -/

/-- The opaque storage handle of a device allocation. -/
inductive DeviceHandle where
  | cpu (bytes : Bytes)
  /-- A backend-internal device id, such as a CUDA pointer address. -/
  | opaqueId (ptr : UInt64)
deriving DecidableEq

/-- A live device allocation owned by a backend. -/
structure DeviceBuffer where
  backend : BackendId
  bytes : ℕ
  handle : DeviceHandle
deriving DecidableEq

/-- What a backend keeps outside the buffers it hands out. -/
inductive BackendKind where
  | cpu
  /-- The live allocations of the CUDA device, by address. -/
  | cuda (memory : HashMap UInt64 Bytes)

structure Backend where
  id : BackendId
  byteCapacity : UInt64
  allocated : UInt64
  kind : BackendKind

/-- The outcome of each CUDA runtime call made during one call of the cache. -/
structure Driver where
  /-- The address returned by `cudaMalloc`, if it succeeds. -/
  malloc : Option UInt64 := none
  copyFails : Bool := false
  /-- Whether freeing the given address of the given device fails. -/
  freeFails : BackendId → UInt64 → Bool := fun _ _ => false
  /-- The text of the last CUDA error. -/
  errorText : String := "unknown error"

def Driver.err (driver : Driver) (what : String) : Error :=
  .backend s!"{what}: {driver.errorText}"

namespace Backend

/-- The CPU backend. -/
def newCpu (device : ℕ) (capacity : UInt64) : Backend := ⟨BackendId.cpu device, capacity, 0, .cpu⟩

/-- A CUDA backend whose device was found and selected. -/
def newCuda (device : ℕ) (capacity : UInt64) : Backend :=
  ⟨BackendId.cuda device, capacity, 0, .cuda ∅⟩

/-- A zero-initialized device buffer of the given size. `cudaMalloc` never returns an address
that is still live. -/
def allocate (driver : Driver) (bytes : ℕ) : EStateM Error Backend DeviceBuffer := fun be =>
  match be.kind with
  | .cpu =>
    if be.allocated.toNat + bytes ≥ 2 ^ 64 then
      .error (.backend "CPU device byte accounting overflow") be
    else if be.allocated.toNat + bytes > be.byteCapacity.toNat then
      .error (.backend
        s!"CPU device allocation of {bytes} bytes would exceed capacity {be.byteCapacity}") be
    else
      .ok ⟨be.id, bytes, .cpu (List.replicate bytes 0)⟩
        { be with allocated := UInt64.ofNat (be.allocated.toNat + bytes) }
  | .cuda memory =>
    if bytes = 0 then .ok ⟨be.id, 0, .opaqueId 0⟩ be
    else if be.allocated.toNat + bytes ≥ 2 ^ 64 then
      .error (.backend "CUDA byte accounting overflow") be
    else if be.allocated.toNat + bytes > be.byteCapacity.toNat then
      .error (.backend
        s!"CUDA allocation of {bytes} bytes would exceed capacity {be.byteCapacity}") be
    else match driver.malloc with
      | some ptr =>
        if ptr ≠ 0 ∧ memory.lookup ptr = none then
          .ok ⟨be.id, bytes, .opaqueId ptr⟩
            { be with
              allocated := UInt64.ofNat (be.allocated.toNat + bytes)
              kind := .cuda (memory.insert ptr (List.replicate bytes 0)) }
        else .error (driver.err "cudaMalloc") be
      | none => .error (driver.err "cudaMalloc") be

/-- Copy host bytes into a device buffer. -/
def toDevice (driver : Driver) (host : Bytes) (dev : DeviceBuffer) :
    EStateM Error Backend DeviceBuffer := fun be =>
  match be.kind with
  | .cpu =>
    if host.length ≠ dev.bytes then
      .error (.backend
        s!"H2D length mismatch: host {host.length} vs device {dev.bytes}") be
    else match dev.handle with
      | .cpu _ => .ok { dev with handle := .cpu host } be
      | .opaqueId _ => .error (.backend "not a CPU device buffer") be
  | .cuda memory =>
    if host.length ≠ dev.bytes then .error (.backend "H2D length mismatch") be
    else if dev.bytes = 0 then .ok dev be
    else match dev.handle with
      | .cpu _ => .error (.backend "not a CUDA device buffer") be
      | .opaqueId ptr =>
        if driver.copyFails ∨ memory.lookup ptr = none then
          .error (driver.err "cudaMemcpy(H2D)") be
        else .ok dev { be with kind := .cuda (memory.insert ptr host) }

/-- Copy device bytes back into a host buffer of the given length. -/
def deviceToHost (be : Backend) (dev : DeviceBuffer) (hostLen : ℕ) : Except Error Bytes :=
  match be.kind with
  | .cpu =>
    if hostLen ≠ dev.bytes then
      .error (.backend s!"D2H length mismatch: host {hostLen} vs device {dev.bytes}")
    else match dev.handle with
      | .cpu v => .ok v
      | .opaqueId _ => .error (.backend "not a CPU device buffer")
  | .cuda memory =>
    if hostLen ≠ dev.bytes then .error (.backend "D2H length mismatch")
    else if dev.bytes = 0 then .ok []
    else match dev.handle with
      | .cpu _ => .error (.backend "not a CUDA device buffer")
      | .opaqueId ptr =>
        match memory.lookup ptr with
        | some v => .ok v
        | none => .error (.backend "cudaMemcpy(D2H)")

/-- Release a device buffer. -/
def free (driver : Driver) (dev : DeviceBuffer) : EStateM Error Backend PUnit := fun be =>
  match be.kind with
  | .cpu =>
    match dev.handle with
    | .cpu v => .ok ⟨⟩ { be with allocated := be.allocated - UInt64.ofNat v.length }
    | .opaqueId _ => .error (.backend "not a CPU device buffer") be
  | .cuda memory =>
    if dev.bytes = 0 then .ok ⟨⟩ be
    else match dev.handle with
      | .cpu _ => .error (.backend "not a CUDA buffer") be
      | .opaqueId ptr =>
        if driver.freeFails be.id ptr ∨ memory.lookup ptr = none then
          .error (driver.err "cudaFree") be
        else
          .ok ⟨⟩ { be with
            allocated := be.allocated - UInt64.ofNat dev.bytes
            kind := .cuda (memory.erase ptr) }

end Backend

/-- A registry of live backends, in the order of registration. -/
abbrev BackendRegistry := List Backend

namespace BackendRegistry

/-- The first backend with the given id. -/
def get (bs : BackendRegistry) (id : BackendId) : Option Backend := bs.find? fun b => b.id = id

/-- Replace the first backend that has the id of `b`. -/
def put : BackendRegistry → Backend → BackendRegistry
  | [], _ => []
  | c :: cs, b => if c.id = b.id then b :: cs else c :: put cs b

end BackendRegistry

/-! ### The accelerator tier -/

/-- The accelerator part of the runtime state: the backends and the `accel_used` counter. -/
structure Devices where
  backends : BackendRegistry
  used : ℕ

namespace Devices

variable {α : Type}

/-- Run a backend operation on the backend with the given id. -/
def onBackend (id : BackendId) (m : EStateM Error Backend α) : EStateM Error Devices α := fun d =>
  match d.backends.get id with
  | none => .error (.backend s!"backend {id.display} not registered") d
  | some be =>
    match m be with
    | .ok a be => .ok a { d with backends := d.backends.put be }
    | .error e be => .error e { d with backends := d.backends.put be }

/-- The accelerator branch of `add_placement`, up to the new placement. -/
def upload (driver : Driver) (id : BackendId) (bytes : Bytes) :
    EStateM Error Devices DeviceBuffer := do
  let dev ← onBackend id (Backend.allocate driver bytes.length)
  let dev ← onBackend id (Backend.toDevice driver bytes dev)
  modify fun d => { d with used := d.used + bytes.length }
  pure dev

/-- The accelerator branch of `remove_placement`. -/
def release (driver : Driver) (dev : DeviceBuffer) : EStateM Error Devices PUnit := do
  onBackend dev.backend (Backend.free driver dev)
  modify fun d => { d with used := d.used - dev.bytes }

/-- Read a device buffer back through the backend with the given id. -/
def download (d : Devices) (id : BackendId) (dev : DeviceBuffer) (hostLen : ℕ) :
    Except Error Bytes :=
  match d.backends.get id with
  | none => .error (.backend s!"backend {id.display} not registered")
  | some be => be.deviceToHost dev hostLen

end Devices

/-! ### What a device holds -/

/-- The device address a nonempty buffer occupies. CPU buffers carry their bytes themselves. -/
def DeviceBuffer.address (dev : DeviceBuffer) : Option (BackendId × UInt64) :=
  match dev.handle with
  | .cpu _ => none
  | .opaqueId ptr => if dev.bytes = 0 then none else some (dev.backend, ptr)

lemma backend_eq_of_address {dev dev' : DeviceBuffer} {id : BackendId}
    (h : dev'.address = dev.address) (hsome : dev.address ≠ none) (hid : dev.backend = id) :
    dev'.backend = id := by
  have hboth : ∀ dev : DeviceBuffer, ∀ x ∈ dev.address, x.1 = dev.backend := by
    intro dev x hx
    unfold DeviceBuffer.address at hx
    split at hx
    · cases hx
    · split_ifs at hx <;> cases hx
      rfl
  obtain ⟨x, hx⟩ := Option.ne_none_iff_exists'.mp hsome
  rw [← hboth dev' x (h.trans hx), hboth dev x hx, hid]

namespace Backend

/-- The buffer holds the bytes `p`. -/
def Stores (be : Backend) (dev : DeviceBuffer) (p : Bytes) : Prop :=
  dev.backend = be.id ∧ dev.bytes = p.length ∧
    match be.kind with
    | .cpu => dev.handle = .cpu p
    | .cuda memory => ∃ ptr, dev.handle = .opaqueId ptr ∧ (p = [] ∨ memory.lookup ptr = some p)

/-- From `be` to `be'` only the buffer at the address `x` may have changed. -/
def KeepsOthers (be be' : Backend) (x : Option (BackendId × UInt64)) : Prop :=
  be'.id = be.id ∧
    ∀ dev p, be.Stores dev p → (dev.address = none ∨ dev.address ≠ x) → be'.Stores dev p

variable {be be' : Backend} {dev : DeviceBuffer} {p : Bytes} {driver : Driver}

lemma Stores.read (h : be.Stores dev p) : be.deviceToHost dev p.length = .ok p := by
  obtain ⟨-, hlen, hkind⟩ := h
  unfold deviceToHost
  cases hk : be.kind with
  | cpu =>
    rw [hk] at hkind
    simp [hlen, hkind]
  | cuda memory =>
    rw [hk] at hkind
    obtain ⟨ptr, hptr, rfl | hmem⟩ := hkind
    · simp [hlen]
    · simp only [hlen, ne_eq, not_true_eq_false, if_false, hptr, hmem]
      split_ifs with hzero
      · rw [List.eq_nil_of_length_eq_zero hzero]
      · rfl

lemma KeepsOthers.rfl (be : Backend) (x : Option (BackendId × UInt64)) : be.KeepsOthers be x :=
  ⟨Eq.refl _, fun _ _ h _ => h⟩

lemma keepsOthers_of_kind (hid : be'.id = be.id) (hkind : be'.kind = be.kind)
    (x : Option (BackendId × UInt64)) : be.KeepsOthers be' x := by
  refine ⟨hid, fun dev p h _ => ?_⟩
  rw [Stores, hid, hkind]
  exact h

/-- Changing the memory at one address keeps the other buffers. -/
lemma keepsOthers_of_cuda {memory memory' : HashMap UInt64 Bytes} {ptr : UInt64}
    (hid : be'.id = be.id) (hk : be.kind = .cuda memory) (hk' : be'.kind = .cuda memory')
    (hmem : ∀ q, q ≠ ptr → memory'.lookup q = memory.lookup q) :
    be.KeepsOthers be' (some (be.id, ptr)) := by
  refine ⟨hid, fun dev p ⟨hbe, hlen, h⟩ haddr => ⟨hbe.trans hid.symm, hlen, ?_⟩⟩
  rw [hk] at h
  rw [hk']
  obtain ⟨q, hq, hp | hlook⟩ := h
  · exact ⟨q, hq, Or.inl hp⟩
  · refine ⟨q, hq, ?_⟩
    by_cases hzero : dev.bytes = 0
    · exact Or.inl (List.eq_nil_of_length_eq_zero (hlen.symm.trans hzero))
    · have hne : q ≠ ptr := by
        rintro rfl
        simp [DeviceBuffer.address, hq, hzero, hbe] at haddr
      exact Or.inr ((hmem q hne).trans hlook)

/-- A new buffer has the requested size and an address that no other buffer has. -/
lemma allocate_ok {n : ℕ} (h : allocate driver n be = .ok dev be') :
    be'.Stores dev (List.replicate n 0) ∧ be.KeepsOthers be' dev.address ∧
      ∀ dev' p', be.Stores dev' p' → dev'.address = none ∨ dev'.address ≠ dev.address := by
  unfold allocate at h
  cases hk : be.kind with
  | cpu =>
    simp only [hk] at h
    split_ifs at h
    cases h
    refine ⟨⟨rfl, by simp, by simp⟩, keepsOthers_of_kind ?_ ?_ _, fun dev' p' hs => Or.inl ?_⟩
    · rfl
    · exact hk.symm
    have hcpu := hs.2.2
    rw [hk] at hcpu
    simp only [DeviceBuffer.address, hcpu]
  | cuda memory =>
    simp only [hk] at h
    split_ifs at h with hzero
    · cases h
      subst hzero
      refine ⟨⟨rfl, rfl, ?_⟩, KeepsOthers.rfl _ _, fun dev' p' _ => ?_⟩
      · rw [hk]
        exact ⟨0, rfl, Or.inl rfl⟩
      · by_cases ha : dev'.address = none
        · exact Or.inl ha
        · exact Or.inr (by simpa [DeviceBuffer.address] using ha)
    · cases hm : driver.malloc with
      | none => simp [hm] at h
      | some ptr =>
        simp only [hm] at h
        split_ifs at h with hfresh
        cases h
        have haddr : DeviceBuffer.address ⟨be.id, n, .opaqueId ptr⟩ = some (be.id, ptr) := by
          simp [DeviceBuffer.address, hzero]
        rw [haddr]
        refine ⟨⟨rfl, by simp, ptr, rfl, Or.inr (AList.lookup_insert _)⟩,
          keepsOthers_of_cuda rfl hk rfl fun q hq => AList.lookup_insert_ne hq,
          fun dev' p' hs => ?_⟩
        -- a buffer at this address would be live
        obtain ⟨hbe, hlen, hkind⟩ := hs
        rw [hk] at hkind
        obtain ⟨q, hq, hp | hlook⟩ := hkind
        · left
          simp [DeviceBuffer.address, hq, hlen, hp]
        · right
          rw [DeviceBuffer.address, hq]
          split_ifs
          · simp
          · intro heq
            simp only [Option.some.injEq, Prod.mk.injEq] at heq
            rw [heq.2, hfresh.2] at hlook
            cases hlook

lemma allocate_error {n : ℕ} {e : Error} (h : allocate driver n be = .error e be') :
    be' = be := by
  unfold allocate at h
  split at h <;> (repeat' split at h) <;> cases h <;> rfl

lemma toDevice_ok {old : Bytes} {dev' : DeviceBuffer} (hs : be.Stores dev old)
    (h : toDevice driver p dev be = .ok dev' be') :
    dev'.address = dev.address ∧ be'.Stores dev' p ∧ be.KeepsOthers be' dev.address := by
  obtain ⟨hbe, hlen, hkind⟩ := hs
  unfold toDevice at h
  cases hk : be.kind with
  | cpu =>
    rw [hk] at hkind
    simp only [hk, hkind] at h
    split_ifs at h with hne
    cases h
    refine ⟨by simp [DeviceBuffer.address, hkind], ⟨hbe, (not_ne_iff.mp hne).symm, ?_⟩,
      KeepsOthers.rfl _ _⟩
    rw [hk]
  | cuda memory =>
    rw [hk] at hkind
    obtain ⟨ptr, hptr, -⟩ := hkind
    simp only [hk, hptr] at h
    split_ifs at h with hne hzero
    · cases h
      have hp : p.length = dev.bytes := not_ne_iff.mp hne
      refine ⟨rfl, ⟨hbe, hp.symm, ?_⟩, KeepsOthers.rfl _ _⟩
      rw [hk]
      exact ⟨ptr, hptr, Or.inl (List.eq_nil_of_length_eq_zero (hp.trans hzero))⟩
    · cases h
      have hp : p.length = dev.bytes := not_ne_iff.mp hne
      have haddr : dev.address = some (be.id, ptr) := by
        simp [DeviceBuffer.address, hptr, hzero, hbe]
      refine ⟨rfl, ⟨hbe, hp.symm, ptr, hptr, Or.inr (AList.lookup_insert _)⟩, ?_⟩
      rw [haddr]
      exact keepsOthers_of_cuda rfl hk rfl fun q hq => AList.lookup_insert_ne hq

lemma toDevice_error {e : Error} (h : toDevice driver p dev be = .error e be') : be' = be := by
  unfold toDevice at h
  split at h <;> (repeat' split at h) <;> cases h <;> rfl

lemma free_keepsOthers (hbe : dev.backend = be.id) :
    be.KeepsOthers (free driver dev be).state dev.address := by
  unfold free
  cases hk : be.kind with
  | cpu =>
    cases hh : dev.handle with
    | cpu v =>
      refine keepsOthers_of_kind ?_ ?_ _
      · rfl
      · exact hk.symm
    | opaqueId ptr => exact KeepsOthers.rfl _ _
  | cuda memory =>
    simp only []
    split_ifs with hzero
    · exact KeepsOthers.rfl _ _
    · cases hh : dev.handle with
      | cpu v => exact KeepsOthers.rfl _ _
      | opaqueId ptr =>
        simp only []
        split_ifs
        · exact KeepsOthers.rfl _ _
        · have haddr : dev.address = some (be.id, ptr) := by
            simp [DeviceBuffer.address, hh, hzero, hbe]
          rw [haddr]
          exact keepsOthers_of_cuda rfl hk rfl fun q hq => AList.lookup_erase_ne hq

end Backend

namespace BackendRegistry

lemma get_put (bs : BackendRegistry) (b : Backend) (id : BackendId) :
    (bs.put b).get id = if id = b.id then (bs.get id).map fun _ => b else bs.get id := by
  induction bs with
  | nil => simp [put, get]
  | cons c cs ih =>
    simp only [get] at ih
    simp only [put, get]
    by_cases hc : c.id = b.id
    · by_cases hid : id = b.id
      · simp [hc, hid]
      · simp [hc, hid, Ne.symm hid]
    · rw [if_neg hc, List.find?_cons, List.find?_cons]
      by_cases hid : c.id = id
      · have hne : id ≠ b.id := fun h => hc (hid.trans h)
        simp [hid, hne]
      · simp [hid, ih]

lemma id_of_get {bs : BackendRegistry} {id : BackendId} {be : Backend}
    (h : bs.get id = some be) : be.id = id := by
  simpa using List.find?_some h

end BackendRegistry

namespace Devices

variable {α : Type} {d d' : Devices} {dev : DeviceBuffer} {p : Bytes} {driver : Driver}

/-- The buffer is held by a registered backend, with contents `p`. -/
def Holds (d : Devices) (dev : DeviceBuffer) (p : Bytes) : Prop :=
  ∃ be, d.backends.get dev.backend = some be ∧ be.Stores dev p

lemma Holds.download (h : d.Holds dev p) : d.download dev.backend dev p.length = .ok p := by
  obtain ⟨be, hget, hs⟩ := h
  rw [Devices.download, hget]
  exact hs.read

/-- Replacing a backend by one that keeps the other buffers. -/
lemma Holds.put {be be' : Backend} {x : Option (BackendId × UInt64)} {id : BackendId} {used : ℕ}
    (h : d.Holds dev p) (hget : d.backends.get id = some be) (hkeep : be.KeepsOthers be' x)
    (haddr : dev.address = none ∨ dev.address ≠ x) :
    Holds ⟨d.backends.put be', used⟩ dev p := by
  have hid := BackendRegistry.id_of_get hget
  obtain ⟨c, hc, hs⟩ := h
  by_cases hdev : dev.backend = id
  · rw [hdev, hget] at hc
    cases hc
    refine ⟨be', ?_, hkeep.2 dev p hs haddr⟩
    rw [BackendRegistry.get_put, hkeep.1, hid, if_pos hdev, hdev, hget]
    rfl
  · refine ⟨c, ?_, hs⟩
    rw [BackendRegistry.get_put, hkeep.1, hid, if_neg hdev, hc]

lemma onBackend_ok {id : BackendId} {m : EStateM Error Backend α} {a : α}
    (h : onBackend id m d = .ok a d') :
    ∃ be be', d.backends.get id = some be ∧ m be = .ok a be' ∧
      d' = { d with backends := d.backends.put be' } := by
  unfold onBackend at h
  split at h
  · cases h
  · rename_i be hget
    split at h
    · rename_i a' be' hm
      cases h
      exact ⟨be, be', hget, hm, rfl⟩
    · cases h

lemma onBackend_error {id : BackendId} {m : EStateM Error Backend α} {e : Error}
    (h : onBackend id m d = .error e d') :
    d' = d ∨ ∃ be be', d.backends.get id = some be ∧ m be = .error e be' ∧
      d' = { d with backends := d.backends.put be' } := by
  unfold onBackend at h
  split at h
  · cases h
    exact Or.inl rfl
  · rename_i be hget
    split at h
    · cases h
    · rename_i e' be' hm
      cases h
      exact Or.inr ⟨be, be', hget, hm, rfl⟩

/-- Buffers with different addresses, or without one. -/
def Apart (dev' dev : DeviceBuffer) : Prop := dev'.address = none ∨ dev'.address ≠ dev.address

lemma allocate_ok {id : BackendId} {n : ℕ}
    (h : onBackend id (Backend.allocate driver n) d = .ok dev d') :
    dev.backend = id ∧ d'.used = d.used ∧ d'.Holds dev (List.replicate n 0) ∧
      ∀ dev' p', d.Holds dev' p' → d'.Holds dev' p' ∧ Apart dev' dev := by
  obtain ⟨be, be', hget, halloc, rfl⟩ := onBackend_ok h
  obtain ⟨hs, hkeep, hfresh⟩ := Backend.allocate_ok halloc
  have hid := BackendRegistry.id_of_get hget
  have hbe : dev.backend = id := hs.1.trans (hkeep.1.trans hid)
  refine ⟨hbe, rfl, ⟨be', ?_, hs⟩, fun dev' p' hold => ?_⟩
  · rw [BackendRegistry.get_put, hbe, hkeep.1, hid, if_pos rfl, hget]
    rfl
  · have hapart : Apart dev' dev := by
      by_cases hdev : dev'.backend = id
      · obtain ⟨c, hc, hs'⟩ := hold
        rw [hdev, hget] at hc
        cases hc
        exact hfresh dev' p' hs'
      · by_cases ha : dev'.address = none
        · exact Or.inl ha
        · refine Or.inr fun heq => hdev ?_
          rw [heq] at ha
          exact backend_eq_of_address heq ha hbe
    exact ⟨hold.put hget hkeep hapart, hapart⟩

lemma toDevice_ok {id : BackendId} {old : Bytes} {dev₁ : DeviceBuffer} (hbe : dev.backend = id)
    (hold : d.Holds dev old) (h : onBackend id (Backend.toDevice driver p dev) d = .ok dev₁ d') :
    dev₁.backend = id ∧ dev₁.address = dev.address ∧ d'.used = d.used ∧ d'.Holds dev₁ p ∧
      ∀ dev' p', d.Holds dev' p' → Apart dev' dev → d'.Holds dev' p' := by
  obtain ⟨be, be', hget, hcopy, rfl⟩ := onBackend_ok h
  obtain ⟨c, hc, hs⟩ := hold
  rw [hbe, hget] at hc
  cases hc
  obtain ⟨haddr, hs', hkeep⟩ := Backend.toDevice_ok hs hcopy
  have hbe' : dev₁.backend = id := hs'.1.trans (hkeep.1.trans (BackendRegistry.id_of_get hget))
  refine ⟨hbe', haddr, rfl, ⟨be', ?_, hs'⟩, fun dev' p' hold' hapart =>
    hold'.put hget hkeep hapart⟩
  rw [BackendRegistry.get_put, hs'.1, if_pos rfl, ← hs'.1, hbe', hget]
  rfl

/-- A successful upload gives a buffer of its own that holds the bytes. -/
lemma upload_ok {id : BackendId} (h : upload driver id p d = .ok dev d') :
    dev.backend = id ∧ d'.used = d.used + p.length ∧ d'.Holds dev p ∧
      ∀ dev' p', d.Holds dev' p' → d'.Holds dev' p' ∧ Apart dev' dev := by
  unfold upload at h
  obtain ⟨dev₀, d₁, h₁, h⟩ := EStateM.bind_eq_ok h
  obtain ⟨dev₁, d₂, h₂, h⟩ := EStateM.bind_eq_ok h
  cases h
  obtain ⟨hbe₀, hused₁, hold₁, hothers₁⟩ := allocate_ok h₁
  obtain ⟨hbe, haddr, hused₂, hold₂, hothers₂⟩ := toDevice_ok hbe₀ hold₁ h₂
  refine ⟨hbe, by simp only [hused₂, hused₁], hold₂, fun dev' p' hold => ?_⟩
  obtain ⟨hold', hapart⟩ := hothers₁ dev' p' hold
  exact ⟨hothers₂ dev' p' hold' hapart, by rw [Apart, haddr]; exact hapart⟩

/-- An upload that fails, also half-way, keeps every buffer. -/
lemma upload_error {id : BackendId} {e : Error} {dev' : DeviceBuffer} {p' : Bytes}
    (h : upload driver id p d = .error e d') (hold : d.Holds dev' p') : d'.Holds dev' p' := by
  unfold upload at h
  rcases EStateM.bind_eq_error h with h | ⟨dev₀, d₁, h₁, h⟩
  · rcases onBackend_error h with rfl | ⟨be, be', hget, halloc, rfl⟩
    · exact hold
    · rw [Backend.allocate_error halloc]
      exact hold.put hget (Backend.KeepsOthers.rfl _ none) (by tauto)
  · obtain ⟨-, -, -, hothers⟩ := allocate_ok h₁
    obtain ⟨hold₁, -⟩ := hothers dev' p' hold
    rcases EStateM.bind_eq_error h with h | ⟨dev₁, d₂, -, h⟩
    · rcases onBackend_error h with rfl | ⟨be, be', hget, hcopy, rfl⟩
      · exact hold₁
      · rw [Backend.toDevice_error hcopy]
        exact hold₁.put hget (Backend.KeepsOthers.rfl _ none) (by tauto)
    · cases h

/-- A buffer that is held can be released, unless the driver fails. -/
lemma release_ok (driver : Driver) {p : Bytes} (hold : d.Holds dev p)
    (hfree : ∀ ptr, driver.freeFails dev.backend ptr = false) :
    ∃ d', release driver dev d = .ok ⟨⟩ d' := by
  obtain ⟨be, hget, hid, hbytes, hkind⟩ := hold
  have hbackend : ∃ be', Backend.free driver dev be = .ok ⟨⟩ be' := by
    unfold Backend.free
    cases hk : be.kind with
    | cpu =>
      rw [hk] at hkind
      simp only [hkind]
      exact ⟨_, rfl⟩
    | cuda memory =>
      rw [hk] at hkind
      obtain ⟨ptr, hptr, hmem⟩ := hkind
      simp only [hptr]
      split_ifs with hzero hfail
      · exact ⟨_, rfl⟩
      · exfalso
        rcases hfail with hfail | hfail
        · rw [← hid, hfree] at hfail
          cases hfail
        · rcases hmem with rfl | hmem
          · exact hzero hbytes
          · rw [hmem] at hfail
            cases hfail
      · exact ⟨_, rfl⟩
  obtain ⟨be', hbe'⟩ := hbackend
  unfold release
  change ∃ d', EStateM.bind _ _ d = _
  simp only [EStateM.bind, onBackend, hget, hbe']
  exact ⟨_, rfl⟩

/-- Releasing a buffer, also when the backend refuses, keeps every other buffer. -/
lemma release_state {dev' : DeviceBuffer} {p' : Bytes} (hold : d.Holds dev' p')
    (hapart : Apart dev' dev) : (release driver dev d).state.Holds dev' p' := by
  have hfree : ∀ be, d.backends.get dev.backend = some be →
      be.KeepsOthers (Backend.free driver dev be).state dev.address := fun be hget =>
    Backend.free_keepsOthers (BackendRegistry.id_of_get hget).symm
  cases hrun : release driver dev d with
  | ok u d' =>
    unfold release at hrun
    obtain ⟨u₁, d₁, h₁, h⟩ := EStateM.bind_eq_ok hrun
    obtain ⟨be, be', hget, hm, rfl⟩ := onBackend_ok h₁
    have hkeep := hfree be hget
    rw [hm] at hkeep
    cases h
    exact hold.put hget hkeep hapart
  | error e d' =>
    unfold release at hrun
    rcases EStateM.bind_eq_error hrun with h | ⟨-, d₁, -, h⟩
    · rcases onBackend_error h with rfl | ⟨be, be', hget, hm, rfl⟩
      · exact hold
      · have hkeep := hfree be hget
        rw [hm] at hkeep
        exact hold.put hget hkeep hapart
    · cases h

end Devices

end TensorCache
