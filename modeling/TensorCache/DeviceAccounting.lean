import TensorCache.Runtime.Reachable
import TensorCache.Runtime.Sessions

/-!
# Accelerator accounting

With CPU backends of distinct ids, the bytes that each backend has allocated are those of the
buffers of the placements on it, and `accel_used` is their sum (`DeviceLedger`). Every move keeps
the two in step, also one that fails.
-/

namespace TensorCache

open Codec EStateM TensorCache.Runtime

/-- The bytes of the device buffer of a placement. -/
def accelBytes (_blocks : List BlockRef) : Placement → ℕ
  | .accelerator dev => dev.bytes
  | _ => 0

/-- The bytes that a placement occupies on a backend. -/
def backendBytes (id : BackendId) (_blocks : List BlockRef) : Placement → ℕ
  | .accelerator dev => if dev.backend = id then dev.bytes else 0
  | _ => 0

/-- The device placements of an entry are CPU buffers on backends with the given ids, at most one
on each. -/
structure DevicePlaced (ids : List BackendId) (e : Entry) : Prop where
  buffer : ∀ dev, .accelerator dev ∈ e.placements →
    dev.backend ∈ ids ∧ ∃ v, dev.handle = .cpu v ∧ v.length = dev.bytes
  single : ∀ id, e.placementTiers.count (.accelerator id) ≤ 1

/-- The backends and the counter agree with the device placements. -/
structure DeviceLedger (entries : HashMap Str Entry) (d : Devices) : Prop where
  cpu : ∀ b ∈ d.backends, b.kind = .cpu
  ids : (d.backends.map Backend.id).Nodup
  allocated : ∀ b ∈ d.backends, b.allocated.toNat = demand (backendBytes b.id) entries
  capacity : ∀ b ∈ d.backends, b.allocated.toNat ≤ b.byteCapacity.toNat
  used : d.used = demand accelBytes entries
  entry : ∀ k e, entries.lookup k = some e → DevicePlaced (d.backends.map Backend.id) e

/-! ### Backends of distinct ids -/

namespace BackendRegistry

variable {bs : BackendRegistry} {be be' b : Backend} {id : BackendId}

lemma get_of_mem (hids : (bs.map Backend.id).Nodup) (hb : b ∈ bs) : bs.get b.id = some b := by
  obtain ⟨c, hc⟩ : ∃ c, bs.get b.id = some c := by
    rw [← Option.isSome_iff_exists, get, List.find?_isSome]
    exact ⟨b, hb, by simp⟩
  have hid := id_of_get hc
  rw [hc, List.inj_on_of_nodup_map hids (List.mem_of_find?_eq_some hc) hb hid]

lemma mem_of_get (h : bs.get id = some be) : be ∈ bs ∧ be.id = id :=
  ⟨List.mem_of_find?_eq_some h, id_of_get h⟩

lemma map_id_put (bs : BackendRegistry) (be : Backend) :
    (bs.put be).map Backend.id = bs.map Backend.id := by
  induction bs with
  | nil => rfl
  | cons c cs ih =>
    rw [put]
    split_ifs with hc
    · simp [hc]
    · simp [ih]

lemma put_self (hids : (bs.map Backend.id).Nodup) (hb : b ∈ bs) : bs.put b = bs := by
  induction bs with
  | nil => rfl
  | cons c cs ih =>
    rw [put]
    have hnodup := List.nodup_cons.mp hids
    split_ifs with hc
    · have heq : c = b := List.inj_on_of_nodup_map hids (by simp) hb hc
      rw [heq]
    · rcases List.mem_cons.mp hb with rfl | hb
      · exact absurd rfl hc
      · rw [ih hnodup.2 hb]

/-- Replacing a backend by one with its id. -/
lemma mem_put (hids : (bs.map Backend.id).Nodup) (hb : be ∈ bs) (hid : be'.id = be.id) :
    b ∈ bs.put be' ↔ b = be' ∨ b ∈ bs ∧ b.id ≠ be.id := by
  induction bs with
  | nil => simp at hb
  | cons c cs ih =>
    rw [put, hid]
    obtain ⟨hc, hcs⟩ := List.nodup_cons.mp hids
    split_ifs with hce
    · rw [List.mem_cons, List.mem_cons]
      refine or_congr_right ⟨fun h => ⟨Or.inr h, fun heq => hc ?_⟩, fun h => ?_⟩
      · rw [hce, ← heq]
        exact List.mem_map_of_mem h
      · rcases h.1 with rfl | h'
        · exact absurd hce h.2
        · exact h'
    · have hb' : be ∈ cs := by
        rcases List.mem_cons.mp hb with rfl | hb
        · exact absurd rfl hce
        · exact hb
      rw [List.mem_cons, List.mem_cons, ih hcs hb']
      constructor
      · rintro (rfl | rfl | ⟨h, hne⟩)
        · exact Or.inr ⟨Or.inl rfl, hce⟩
        · exact Or.inl rfl
        · exact Or.inr ⟨Or.inr h, hne⟩
      · rintro (rfl | ⟨rfl | h, hne⟩)
        · exact Or.inr (Or.inl rfl)
        · exact Or.inl rfl
        · exact Or.inr (Or.inr ⟨h, hne⟩)

end BackendRegistry

/-! ### CPU backends -/

namespace Devices

variable {d d' : Devices} {dev : DeviceBuffer} {driver : Driver} {id : BackendId} {p : Bytes}

lemma put_get_self {be : Backend} (be' : Backend) (hids : (d.backends.map Backend.id).Nodup)
    (hbe : be ∈ d.backends) (hid : be'.id = be.id) :
    (d.backends.put be').get be'.id = some be' ∧
      (d.backends.put be').put be' = d.backends.put be' := by
  have hids' : ((d.backends.put be').map Backend.id).Nodup := by
    rw [BackendRegistry.map_id_put]
    exact hids
  have hmem : be' ∈ d.backends.put be' := (BackendRegistry.mem_put hids hbe hid).mpr (Or.inl rfl)
  exact ⟨BackendRegistry.get_of_mem hids' hmem, BackendRegistry.put_self hids' hmem⟩

/-- What a CPU backend has allocated after `n` more bytes. -/
def grown (be : Backend) (n : ℕ) : Backend :=
  { be with allocated := UInt64.ofNat (be.allocated.toNat + n) }

/-- An upload to a CPU backend adds the bytes to what it has allocated, if they fit, and otherwise
does nothing. -/
lemma upload_cpu (driver : Driver) (id : BackendId) (p : Bytes)
    (hcpu : ∀ b ∈ d.backends, b.kind = .cpu) (hids : (d.backends.map Backend.id).Nodup) :
    (∃ e, upload driver id p d = .error e d) ∨
      ∃ be ∈ d.backends, be.id = id ∧ be.allocated.toNat + p.length < 2 ^ 64 ∧
        be.allocated.toNat + p.length ≤ be.byteCapacity.toNat ∧
        upload driver id p d = .ok ⟨id, p.length, .cpu p⟩
          ⟨d.backends.put (grown be p.length), d.used + p.length⟩ := by
  have hbind : ∀ {e : Error} {d' : Devices},
      onBackend id (Backend.allocate driver p.length) d = .error e d' →
      upload driver id p d = .error e d' := by
    intro e d' h
    unfold upload
    change EStateM.bind _ _ d = _
    simp only [EStateM.bind, h]
  cases hget : d.backends.get id with
  | none =>
    refine Or.inl ⟨_, hbind (e := .backend s!"backend {id.display} not registered") ?_⟩
    simp only [onBackend, hget]
  | some be =>
    obtain ⟨hbe, rfl⟩ := BackendRegistry.mem_of_get hget
    have hput := BackendRegistry.put_self hids hbe
    have hkind := hcpu be hbe
    by_cases hover : be.allocated.toNat + p.length ≥ 2 ^ 64
    · refine Or.inl ⟨_, hbind (e := .backend "CPU device byte accounting overflow") ?_⟩
      simp only [onBackend, hget, Backend.allocate, hkind, if_pos hover, hput]
    by_cases hcap : be.allocated.toNat + p.length > be.byteCapacity.toNat
    · have hrefused : ∃ e, onBackend be.id (Backend.allocate driver p.length) d = .error e d := by
        simp only [onBackend, hget, Backend.allocate, hkind, if_neg hover, if_pos hcap, hput]
        exact ⟨_, rfl⟩
      obtain ⟨e, hrefused⟩ := hrefused
      exact Or.inl ⟨e, hbind hrefused⟩
    · refine Or.inr ⟨be, hbe, rfl, not_le.mp hover, not_lt.mp hcap, ?_⟩
      have halloc : onBackend be.id (Backend.allocate driver p.length) d
          = .ok ⟨be.id, p.length, .cpu (List.replicate p.length 0)⟩
            { d with backends := d.backends.put (grown be p.length) } := by
        simp only [onBackend, hget, Backend.allocate, hkind, if_neg hover, if_neg hcap, grown]
      obtain ⟨hget', hput'⟩ := put_get_self (grown be p.length) hids hbe rfl
      have hcopy : onBackend be.id
          (Backend.toDevice driver p ⟨be.id, p.length, .cpu (List.replicate p.length 0)⟩)
          { d with backends := d.backends.put (grown be p.length) }
          = .ok ⟨be.id, p.length, .cpu p⟩
            { d with backends := d.backends.put (grown be p.length) } := by
        have hkind' : (grown be p.length).kind = .cpu := hkind
        have hid' : (grown be p.length).id = be.id := rfl
        rw [hid'] at hget'
        simp only [onBackend, hget', Backend.toDevice, hkind', ne_eq, not_true_eq_false, if_false,
          hput']
      unfold upload
      change EStateM.bind _ _ d = _
      simp only [EStateM.bind, halloc]
      change EStateM.bind _ _ _ = _
      simp only [EStateM.bind, hcopy]
      rfl

/-- Releasing a buffer of a CPU backend. -/
lemma release_cpu (hcpu : ∀ b ∈ d.backends, b.kind = .cpu)
    (hids : (d.backends.map Backend.id).Nodup) {be : Backend} (hbe : be ∈ d.backends)
    (hid : be.id = dev.backend) {v : Bytes} (hv : dev.handle = .cpu v) :
    release driver dev d = .ok ⟨⟩ ⟨d.backends.put
      { be with allocated := be.allocated - UInt64.ofNat v.length }, d.used - dev.bytes⟩ := by
  have hget : d.backends.get dev.backend = some be := by
    rw [← hid]
    exact BackendRegistry.get_of_mem hids hbe
  have hfree : Backend.free driver dev be
      = .ok ⟨⟩ { be with allocated := be.allocated - UInt64.ofNat v.length } := by
    simp only [Backend.free, hcpu be hbe, hv]
  unfold release
  change EStateM.bind _ _ d = _
  simp only [EStateM.bind, onBackend, hget, hfree]
  rfl

end Devices

/-! ### One entry -/

namespace DevicePlaced

variable {ids : List BackendId} {e : Entry} {t : Tier} {p : Placement}

lemma touch (h : DevicePlaced ids e) {f : Entry → Entry} (hf : Entry.Touches f) :
    DevicePlaced ids (f e) := by
  obtain ⟨reuse, lastUse, durable, he⟩ := hf e
  rw [he]
  exact ⟨h.buffer, h.single⟩

lemma without (h : DevicePlaced ids e) (t : Tier) : DevicePlaced ids (e.without t) := by
  refine ⟨fun dev hdev => h.buffer dev (Entry.mem_of_mem_without hdev), fun id => ?_⟩
  rw [Entry.placementTiers_without]
  exact (List.erase_sublist.count_le _).trans (h.single id)

lemma push (h : DevicePlaced ids e) (hp : p.tier ∉ e.placementTiers)
    (hbuffer : ∀ dev, p = .accelerator dev →
      dev.backend ∈ ids ∧ ∃ v, dev.handle = .cpu v ∧ v.length = dev.bytes) :
    DevicePlaced ids (e.push p) := by
  refine ⟨fun dev hdev => ?_, fun id => ?_⟩
  · rcases List.mem_append.mp hdev with hdev | hdev
    · exact h.buffer dev hdev
    · exact hbuffer dev (List.mem_singleton.mp hdev).symm
  · rw [Entry.placementTiers_push, List.count_append]
    by_cases hid : p.tier = .accelerator id
    · rw [hid] at hp
      rw [hid, List.count_eq_zero_of_not_mem hp]
      simp
    · rw [List.count_eq_zero_of_not_mem (l := [p.tier]) (by simpa using Ne.symm hid)]
      exact h.single id

/-- An entry without device placements. -/
lemma of_forall_ne (h : ∀ dev, .accelerator dev ∉ e.placements) : DevicePlaced ids e := by
  refine ⟨fun dev hdev => absurd hdev (h dev), fun id => ?_⟩
  rw [List.count_eq_zero_of_not_mem]
  · exact Nat.zero_le 1
  · intro hmem
    obtain ⟨p, hp, htier⟩ := Entry.mem_placementTiers.mp hmem
    cases p with
    | accelerator dev => exact h dev hp
    | host refs => cases htier
    | persistent => cases htier

end DevicePlaced

/-! ### The moves -/

namespace DeviceLedger

variable {entries entries' : HashMap Str Entry} {d : Devices} {k : Str} {e : Entry} {p : Placement}
  {t : Tier} {be be' : Backend} {used : ℕ}

/-- A change of the entries that moves no device bytes. -/
lemma of_demand (h : DeviceLedger entries d)
    (hbytes : ∀ id, demand (backendBytes id) entries' = demand (backendBytes id) entries)
    (hused : demand accelBytes entries' = demand accelBytes entries)
    (hentry : ∀ k e, entries'.lookup k = some e → DevicePlaced (d.backends.map Backend.id) e) :
    DeviceLedger entries' d :=
  ⟨h.cpu, h.ids, fun b hb => (h.allocated b hb).trans (hbytes b.id).symm, h.capacity,
    h.used.trans hused.symm, hentry⟩

/-- A change of the entries and of one backend with them. -/
lemma put (h : DeviceLedger entries d) (hbe : be ∈ d.backends) (hid : be'.id = be.id)
    (hkind : be'.kind = be.kind)
    (halloc : be'.allocated.toNat = demand (backendBytes be.id) entries')
    (hfits : be'.allocated.toNat ≤ be'.byteCapacity.toNat)
    (hothers : ∀ id, id ≠ be.id →
      demand (backendBytes id) entries' = demand (backendBytes id) entries)
    (hused : used = demand accelBytes entries')
    (hentry : ∀ k e, entries'.lookup k = some e → DevicePlaced (d.backends.map Backend.id) e) :
    DeviceLedger entries' ⟨d.backends.put be', used⟩ := by
  have hmem : ∀ b, b ∈ d.backends.put be' → b = be' ∨ b ∈ d.backends ∧ b.id ≠ be.id :=
    fun b hb => (BackendRegistry.mem_put h.ids hbe hid).mp hb
  refine ⟨fun b hb => ?_, ?_, fun b hb => ?_, fun b hb => ?_, hused, ?_⟩
  · rcases hmem b hb with rfl | ⟨hb, -⟩
    · exact hkind.trans (h.cpu be hbe)
    · exact h.cpu b hb
  · rw [BackendRegistry.map_id_put]
    exact h.ids
  · rcases hmem b hb with rfl | ⟨hb, hne⟩
    · rw [hid]
      exact halloc
    · rw [hothers b.id hne]
      exact h.allocated b hb
  · rcases hmem b hb with rfl | ⟨hb, -⟩
    · exact hfits
    · exact h.capacity b hb
  · rw [BackendRegistry.map_id_put]
    exact hentry

lemma touch (h : DeviceLedger entries d) {f : Entry → Entry} (hf : Entry.Touches f) (k : Str) :
    DeviceLedger (entries.modify k f) d :=
  h.of_demand (fun _ => demand_touch hf) (demand_touch hf)
    (AList.forall_modify h.entry fun _ _ he => he.touch hf)

/-- A new placement that is not on a device. -/
lemma push (h : DeviceLedger entries d) (he : entries.lookup k = some e)
    (hp : p.tier ∉ e.placementTiers) (hne : ∀ dev, p ≠ .accelerator dev) :
    DeviceLedger (entries.modify k (Entry.push p)) d := by
  have hzero : ∀ id, backendBytes id e.blocks p = 0 ∧ accelBytes e.blocks p = 0 := by
    intro id
    cases p with
    | accelerator dev => exact absurd rfl (hne dev)
    | host refs => exact ⟨rfl, rfl⟩
    | persistent => exact ⟨rfl, rfl⟩
  refine h.of_demand (fun id => ?_) ?_ (AList.forall_modify h.entry fun e' he' hplaced => ?_)
  · rw [demand_push he, (hzero id).1, Nat.add_zero]
  · rw [demand_push he, (hzero (BackendId.cpu 0)).2, Nat.add_zero]
  · rw [he] at he'
    cases he'
    exact hplaced.push hp fun dev hdev => absurd hdev (hne dev)

/-- A new placement on a CPU backend. -/
lemma upload (h : DeviceLedger entries d) (he : entries.lookup k = some e) (hbe : be ∈ d.backends)
    (hp : .accelerator be.id ∉ e.placementTiers) {v : Bytes}
    (hsmall : be.allocated.toNat + v.length < 2 ^ 64)
    (hfits : be.allocated.toNat + v.length ≤ be.byteCapacity.toNat) :
    DeviceLedger (entries.modify k (Entry.push (.accelerator ⟨be.id, v.length, .cpu v⟩)))
      ⟨d.backends.put (Devices.grown be v.length), d.used + v.length⟩ := by
  have hgrown : (Devices.grown be v.length).allocated.toNat = be.allocated.toNat + v.length :=
    UInt64.toNat_ofNat_of_lt' hsmall
  refine h.put hbe rfl rfl ?_ ?_ (fun id hid => ?_) ?_
    (AList.forall_modify h.entry fun e' he' hplaced => ?_)
  · rw [hgrown, h.allocated be hbe, demand_push he, backendBytes, if_pos rfl]
  · rw [hgrown]
    exact hfits
  · rw [demand_push he, backendBytes, if_neg (Ne.symm hid), Nat.add_zero]
  · rw [demand_push he, h.used, accelBytes]
  · rw [he] at he'
    cases he'
    refine hplaced.push hp ?_
    rintro dev ⟨⟩
    exact ⟨List.mem_map_of_mem hbe, v, rfl, rfl⟩

/-- One placement less that is not on a device. -/
lemma without (h : DeviceLedger entries d) (he : entries.lookup k = some e)
    (hp : e.tier? t = some p) (hne : ∀ dev, p ≠ .accelerator dev) :
    DeviceLedger (entries.modify k (Entry.without t)) d := by
  refine h.of_demand (fun id => ?_) ?_ (AList.forall_modify h.entry fun _ _ hplaced =>
    hplaced.without t)
  · rw [← demand_without he hp]
    cases p with
    | accelerator dev => exact absurd rfl (hne dev)
    | host refs => rfl
    | persistent => rfl
  · rw [← demand_without he hp]
    cases p with
    | accelerator dev => exact absurd rfl (hne dev)
    | host refs => rfl
    | persistent => rfl

/-- One placement on a CPU backend less. -/
lemma release (h : DeviceLedger entries d) (he : entries.lookup k = some e) {dev : DeviceBuffer}
    (hp : e.tier? t = some (.accelerator dev)) (driver : Driver) :
    DeviceLedger (entries.modify k (Entry.without t)) (Devices.release driver dev d).state := by
  obtain ⟨hmem, v, hv, hlen⟩ := (h.entry k e he).buffer dev (Entry.tier_of_tier? hp).1
  obtain ⟨be, hbe, hid⟩ := List.mem_map.mp hmem
  rw [Devices.release_cpu h.cpu h.ids hbe hid hv]
  have hbytes : demand (backendBytes be.id) (entries.modify k (Entry.without t)) + v.length
      = be.allocated.toNat := by
    rw [h.allocated be hbe, ← demand_without he hp, backendBytes, if_pos hid.symm, hlen]
  have hsmall : (UInt64.ofNat v.length).toNat = v.length := by
    have hlt : v.length < 2 ^ 64 := by
      have := be.allocated.toNat_lt
      omega
    exact UInt64.toNat_ofNat_of_lt' hlt
  have halloc : (be.allocated - UInt64.ofNat v.length).toNat = be.allocated.toNat - v.length := by
    rw [UInt64.toNat_sub_of_le _ _ (by rw [UInt64.le_iff_toNat_le, hsmall]; omega), hsmall]
  refine h.put hbe rfl rfl ?_ ?_ (fun id hne => ?_) ?_
    (AList.forall_modify h.entry fun _ _ hplaced => hplaced.without t)
  · change (be.allocated - UInt64.ofNat v.length).toNat = _
    omega
  · change (be.allocated - UInt64.ofNat v.length).toNat ≤ be.byteCapacity.toNat
    have := h.capacity be hbe
    omega
  · rw [← demand_without (w := backendBytes id) he hp, backendBytes,
      if_neg fun heq => hne (heq.symm.trans hid.symm), Nat.add_zero]
  · rw [h.used, ← demand_without he hp, accelBytes, Nat.add_sub_cancel]

/-- The runtime with the devices as they were. -/
def SameDevices (s s' : Runtime) : Prop := s'.entries = s.entries ∧ s'.devices = s.devices

variable {s : Runtime} {oid : ObjectId}

/-- Adding a placement that is not on a device. -/
lemma push_triple {α : Type} {m : M α} {f : α → Placement} (h : DeviceLedger s.entries s.devices)
    (he : s.entries.lookup oid.toHex = some e)
    (hm : Triple (· = s) m (fun _ => SameDevices s) (SameDevices s))
    (hf : ∀ a, (f a).tier ∉ e.placementTiers) (hne : ∀ a dev, f a ≠ .accelerator dev) :
    Triple (· = s) (m >>= fun a => modify (updateEntry oid (Entry.push (f a))))
      (fun _ s' => DeviceLedger s'.entries s'.devices)
      (fun s' => DeviceLedger s'.entries s'.devices) := by
  refine Triple.bind (Q := fun _ => SameDevices s) ?_ fun a => Triple.modify fun s' hs' => ?_
  · refine hm.conseq (fun _ hs => hs) (fun _ _ hs => hs) fun s' hs' => ?_
    rw [hs'.1, hs'.2]
    exact h
  · change DeviceLedger (s'.entries.modify oid.toHex _) s'.devices
    rw [hs'.1, hs'.2]
    exact h.push he (hf a) (hne a)

/-- Adding a placement, in a tier where the object is not resident yet. -/
lemma addPlacement (h : DeviceLedger s.entries s.devices)
    (hres : s.entryHasTier oid t = .ok false) (env : Env) (bytes : Bytes) :
    DeviceLedger (addPlacement env oid t bytes s).state.entries
      (addPlacement env oid t bytes s).state.devices := by
  obtain ⟨e, he, htier⟩ := entryHasTier_eq_ok.mp hres
  have ht : t ∉ e.placementTiers := by
    rw [← Entry.hasTier_iff, htier]
    simp
  refine Triple.state (P := (· = s)) (I := fun s => DeviceLedger s.entries s.devices) ?_ rfl
  have hstop : ∀ s', s' = s → DeviceLedger s'.entries s'.devices := by
    rintro s rfl
    exact h
  refine Triple.get_bind ?_
  rintro s rfl
  rw [getMeta_eq_ok.mpr he, ofExcept_ok_bind]
  refine Triple.ite (fun _ => Triple.throw hstop) fun _ => ?_
  cases t with
  | host =>
    cases s.hostPlan e.byteLen bytes with
    | error err => exact Triple.throw hstop
    | ok plan =>
      rw [ofExcept_ok_bind]
      exact h.push_triple he (zoom_triple fun _ => ⟨rfl, rfl⟩) (fun _ => ht) (by simp)
  | persistent =>
    exact h.push_triple he (zoom_triple fun _ => ⟨rfl, rfl⟩) (fun _ => ht) (by simp)
  | accelerator id =>
    refine Triple.bind (Q := fun dev s' => DeviceLedger
      (s'.entries.modify oid.toHex (Entry.push (.accelerator dev))) s'.devices) ?_ fun dev =>
        Triple.modify fun s' hs' => hs'
    rintro s rfl
    rcases Devices.upload_cpu env.driver id bytes h.cpu h.ids with
      ⟨err, hrun⟩ | ⟨be, hbe, rfl, hsmall, hfits, hrun⟩
    · rw [onDevices, zoom_of_error hrun]
      exact h
    · rw [onDevices, zoom_of_ok hrun]
      exact h.upload he hbe ht hsmall hfits

/-- Removing a placement, also when there is none. -/
lemma removePlacement (h : DeviceLedger s.entries s.devices) (env : Env) (oid : ObjectId)
    (t : Tier) :
    DeviceLedger (removePlacement env oid t s).state.entries
      (removePlacement env oid t s).state.devices := by
  by_cases hp : ∀ e, s.entries.lookup oid.toHex = some e → e.tier? t = none
  · obtain ⟨err, herr⟩ := removePlacement_of_none env hp
    rw [herr]
    exact h
  · push Not at hp
    obtain ⟨e, he, hp⟩ := hp
    obtain ⟨p, hp⟩ := Option.ne_none_iff_exists'.mp hp
    rw [removePlacement_of_some he hp, entries_freePlacement]
    cases p with
    | host refs =>
      rw [freePlacement, onHost, zoom_state]
      exact h.without he hp (by simp)
    | persistent =>
      rw [freePlacement, onDurable, zoom_state]
      exact h.without he hp (by simp)
    | accelerator dev =>
      rw [freePlacement, onDevices, zoom_state]
      exact h.release he hp env.driver

/-- An entry without device placements comes in. -/
lemma insert (h : DeviceLedger entries d) (hnone : entries.lookup k = none)
    (hp : ∀ dev, .accelerator dev ∉ e.placements) : DeviceLedger (entries.insert k e) d := by
  have hweight : ∀ w : List BlockRef → Placement → ℕ,
      (∀ p, (∀ dev, p ≠ .accelerator dev) → w e.blocks p = 0) → e.weight w = 0 := by
    intro w hw
    refine Entry.weight_eq_zero fun p hmem => hw p ?_
    rintro dev rfl
    exact hp dev hmem
  refine h.of_demand (fun id => ?_) ?_ (AList.forall_insert h.entry (.of_forall_ne hp))
  · rw [demand_insert hnone, hweight, Nat.zero_add]
    intro p hne
    cases p <;> simp_all [backendBytes]
  · rw [demand_insert hnone, hweight, Nat.zero_add]
    intro p hne
    cases p <;> simp_all [accelBytes]

/-- An entry without placements goes. -/
lemma erase (h : DeviceLedger entries d) (he : entries.lookup k = some e)
    (hempty : e.placements = []) : DeviceLedger (entries.erase k) d := by
  have hdemand : ∀ w, demand w (entries.erase k) = demand w entries := by
    intro w
    have := demand_erase (w := w) he
    rw [Entry.weight, hempty] at this
    simpa using this
  exact h.of_demand (fun _ => hdemand _) (hdemand _) (AList.forall_erase h.entry k)

/-- Every move keeps the devices and the entries in step. -/
lemma moves {env : Env} {c : Call} (h : DeviceLedger s.entries s.devices) :
    Moves env c s fun s => DeviceLedger s.entries s.devices where
  start := h
  touch s oid f hf hs := hs.touch hf oid.toHex
  add oid t bytes _ hres := h.addPlacement hres env bytes
  remove s oid t _ hs := hs.removePlacement env oid t
  enter r byteLen numel blocks acquired host s _ hnone hs := hs.insert hnone (by simp [newEntry])
  forget s oid e _ hs he hempty := by
    rw [removeEntry, he]
    exact hs.erase he hempty
  clean d s hs := hs

end DeviceLedger

/-! ### The sum over the backends -/

lemma demand_add (w w' : List BlockRef → Placement → ℕ) (entries : HashMap Str Entry) :
    demand (fun blocks p => w blocks p + w' blocks p) entries
      = demand w entries + demand w' entries := by
  simp only [demand, AList.total, Entry.weight, List.sum_map_add]

lemma sum_backendBytes {ids : List BackendId} (hids : ids.Nodup) {dev : DeviceBuffer}
    (hdev : dev.backend ∈ ids) (blocks : List BlockRef) :
    (ids.map fun id => backendBytes id blocks (.accelerator dev)).sum = dev.bytes := by
  induction ids with
  | nil => cases hdev
  | cons id ids ih =>
    obtain ⟨hid, hids⟩ := List.nodup_cons.mp hids
    rw [List.map_cons, List.sum_cons, backendBytes]
    rcases List.mem_cons.mp hdev with rfl | hmem
    · rw [if_pos rfl, List.sum_eq_zero, Nat.add_zero]
      intro n hn
      obtain ⟨id', hid', rfl⟩ := List.mem_map.mp hn
      rw [backendBytes, if_neg]
      rintro rfl
      exact hid hid'
    · rw [if_neg, Nat.zero_add, ih hids hmem]
      rintro rfl
      exact hid hmem

/-- The demands on all backends add up to the one on the tier. -/
lemma sum_demand_backendBytes {ids : List BackendId} (hids : ids.Nodup)
    {entries : HashMap Str Entry}
    (hentry : ∀ k e, entries.lookup k = some e → DevicePlaced ids e) :
    (ids.map fun id => demand (backendBytes id) entries).sum = demand accelBytes entries := by
  have hsum : ∀ ids : List BackendId, (ids.map fun id => demand (backendBytes id) entries).sum
      = demand (fun blocks p => (ids.map fun id => backendBytes id blocks p).sum) entries := by
    intro ids
    induction ids with
    | nil => simp [demand, AList.total, Entry.weight]
    | cons id ids ih =>
      simp only [List.map_cons, List.sum_cons]
      rw [demand_add, ih]
  rw [hsum]
  refine AList.total_congr fun k e he => congrArg List.sum (List.map_congr_left fun p hp => ?_)
  cases p with
  | host refs => simp [backendBytes, accelBytes]
  | persistent => simp [backendBytes, accelBytes]
  | accelerator dev => exact sum_backendBytes hids ((hentry k e he).buffer dev hp).1 _

/-! ### Whole runs -/

section Runs

variable {env : Env} {config : RuntimeConfig} {extra : List Backend} {disk : Disk} {pid : ℕ}
  {s : Runtime}

/-- A runtime that has just been opened has nothing on its devices. -/
lemma DeviceLedger.new (hnew : Runtime.new env config extra disk pid = .ok s)
    (hcpu : ∀ b ∈ extra, ∃ device capacity, b = Backend.newCpu device capacity)
    (hids : ((Backend.newCpu 0 config.hostCapacity :: extra).map Backend.id).Nodup) :
    DeviceLedger s.entries s.devices := by
  obtain ⟨hplaced, hdevices⟩ := new_keeps
    (P := fun s => (∀ k e, s.entries.lookup k = some e → e.placements = [.persistent]) ∧
      s.devices = ⟨Backend.newCpu 0 config.hostCapacity :: extra, 0⟩)
    (fun _ _ _ hs => ⟨AList.forall_insert hs.1 rfl, hs.2⟩) (fun _ _ hs => hs)
    (fun _ => ⟨by simp [initial], rfl⟩) hnew
  have hbackend : ∀ b ∈ Backend.newCpu 0 config.hostCapacity :: extra,
      b.kind = .cpu ∧ b.allocated = 0 := by
    intro b hb
    rcases List.mem_cons.mp hb with rfl | hb
    · exact ⟨rfl, rfl⟩
    · obtain ⟨device, capacity, rfl⟩ := hcpu b hb
      exact ⟨rfl, rfl⟩
  have hzero : ∀ w : List BlockRef → Placement → ℕ, (∀ blocks, w blocks .persistent = 0) →
      demand w s.entries = 0 := by
    intro w hw
    refine AList.total_eq_zero fun k e he => Entry.weight_eq_zero fun p hp => ?_
    rw [hplaced k e he] at hp
    rw [List.mem_singleton.mp hp, hw]
  rw [hdevices]
  refine ⟨fun b hb => (hbackend b hb).1, hids, fun b hb => ?_, fun b hb => ?_,
    (hzero _ fun _ => rfl).symm, fun k e he => .of_forall_ne ?_⟩
  · rw [(hbackend b hb).2, hzero _ fun _ => rfl]
    rfl
  · rw [(hbackend b hb).2]
    exact Nat.zero_le _
  · rw [hplaced k e he]
    simp

lemma DeviceLedger.run (h : DeviceLedger s.entries s.devices) (hledger : Ledger s)
    (events : List Event) :
    DeviceLedger (s.run events).entries (s.run events).devices := by
  induction events generalizing s with
  | nil => exact h
  | cons ev events ih =>
    have hbegin : DeviceLedger s.beginCall.entries s.beginCall.devices := h
    obtain ⟨hledger', h'⟩ := hledger.exec hbegin.moves
    exact ih h' hledger'

/-- With CPU backends of distinct ids, opened on any files and after any calls: `accel_used` is the
bytes of all device placements and the sum of what the backends have allocated, no entry has two
placements on one backend, and no backend is over its capacity. -/
theorem accelerator_accounting (hnew : Runtime.new env config extra disk pid = .ok s)
    (hcpu : ∀ b ∈ extra, ∃ device capacity, b = Backend.newCpu device capacity)
    (hids : ((Backend.newCpu 0 config.hostCapacity :: extra).map Backend.id).Nodup)
    (events : List Event) :
    (s.run events).accelUsed = demand accelBytes (s.run events).entries ∧
      ((s.run events).backends.map fun b => b.allocated.toNat).sum = (s.run events).accelUsed ∧
      (∀ k e, (s.run events).entries.lookup k = some e →
        ∀ id, e.placementTiers.count (.accelerator id) ≤ 1) ∧
      ∀ b ∈ (s.run events).backends, b.allocated.toNat ≤ b.byteCapacity.toNat := by
  have h := (DeviceLedger.new hnew hcpu hids).run (Reachable.new hnew).ledger events
  refine ⟨h.used, ?_, fun k e he => (h.entry k e he).single, h.capacity⟩
  have hsum := sum_demand_backendBytes h.ids h.entry
  rw [List.map_map] at hsum
  rw [show (s.run events).accelUsed = _ from h.used, ← hsum]
  exact congrArg List.sum (List.map_congr_left fun b hb => h.allocated b hb)

/-- A pair of bytes is registered and promoted to a second CPU device. -/
theorem accelerator_accounting_bytePair :
    ∃ s, Runtime.new {} smallConfig [Backend.newCpu 1 16] ∅ 0 = .ok s ∧
      let s' := s.run [⟨{}, .register (bytePair 0 1 2)⟩,
        ⟨{}, .promote (bytePair 0 1 2).address.objectId (.accelerator (BackendId.cpu 1))⟩]
      s'.accelUsed = 2 ∧ demand accelBytes s'.entries = 2 ∧
        (s'.backends.map fun b => b.allocated.toNat).sum = 2 := by
  have hnew : Runtime.new {} smallConfig [Backend.newCpu 1 16] ∅ 0 = .ok _ := rfl
  have hused : ((initial smallConfig [Backend.newCpu 1 16] none).run
      [⟨{}, .register (bytePair 0 1 2)⟩, ⟨{}, .promote (bytePair 0 1 2).address.objectId
        (.accelerator (BackendId.cpu 1))⟩]).accelUsed = 2 := by
    decide +kernel
  obtain ⟨hexact, hsum, -⟩ := accelerator_accounting hnew
    (by simp) (by decide)
    [⟨{}, .register (bytePair 0 1 2)⟩, ⟨{}, .promote (bytePair 0 1 2).address.objectId
        (.accelerator (BackendId.cpu 1))⟩]
  exact ⟨_, hnew, hused, hexact.symm.trans hused, hsum.trans hused⟩

end Runs

end TensorCache
