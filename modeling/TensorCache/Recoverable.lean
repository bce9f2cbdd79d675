import TensorCache.Runtime.Readable

/-!
# Durable objects are recovered

The manifest of every durable object is on the disk, as long as no removal of a manifest fails, and
no other manifests are. Recovery reads a manifest back if the decoder accepts it; the decoder checks
that the layout of the tensor is valid for its shape, which registering does not. If only tensors
with valid layouts are made durable, a new runtime on the same directory recovers exactly the
durable objects.
-/

namespace TensorCache

open Codec EStateM TensorCache.Runtime

variable {sc : Scope} {config : RuntimeConfig} {o : Origin} {s s' s₀ : Runtime} {env : Env}
  {c : Call} {oid : ObjectId} {t : Tier} {e : Entry} {r : Registration}

/-- The manifest that describes an entry. -/
def Entry.manifest (oid : ObjectId) (e : Entry) : PersistEntryMeta :=
  Durable.metaOf oid e.address e.compat e.byteLen e.numel e.createdNs e.blocks

/-- The contents of the manifest file of an object with the given entry. -/
def Entry.recorded (oid : ObjectId) (e : Entry) : Option Bytes :=
  if .persistent ∈ e.placementTiers then some (encodeManifest (e.manifest oid)) else none

/-- The manifests on the disk are those of the durable objects, which have valid layouts. -/
structure Recorded (config : RuntimeConfig) (s : Runtime) : Prop where
  store : s.persistent.isSome = config.persistentPath.isSome
  manifests : ∀ oid, s.durable.file (manifestFile oid)
    = (s.entries.lookup oid.toHex).bind (Entry.recorded oid)
  layouts : ∀ k e, s.entries.lookup k = some e → .persistent ∈ e.placementTiers →
    e.compat.layout.validate e.compat.shape = .ok ()

/-- A call that makes no tensor with an invalid layout durable, and during which no removal of a
file fails if it deletes an object. -/
structure KeepsRecoverable (s : Runtime) (ev : Event) : Prop where
  layout : ∀ oid e, ev.call.adds = some (oid, .persistent) → s.entries.lookup oid.toHex = some e →
    .persistent ∉ e.placementTiers → e.compat.layout.validate e.compat.shape = .ok ()
  removal : ∀ oid, ev.call = .delete oid → Durable.NoRemoveFault ev.env.io

/-! ### One call -/

/-- A change of one entry that its manifest does not show. -/
structure Entry.Unrecorded (f : Entry → Entry) : Prop where
  recorded : ∀ oid e, (f e).recorded oid = e.recorded oid
  compat : ∀ e, (f e).compat = e.compat
  tier : ∀ e, .persistent ∈ (f e).placementTiers → .persistent ∈ e.placementTiers

lemma Recorded.modify (h : Recorded config s) {k : Str} {f : Entry → Entry}
    (hf : Entry.Unrecorded f) (hentries : s'.entries = s.entries.modify k f)
    (hstore : s'.persistent.isSome = s.persistent.isSome)
    (hfiles : ∀ oid, s'.durable.file (manifestFile oid) = s.durable.file (manifestFile oid)) :
    Recorded config s' := by
  refine ⟨hstore.trans h.store, fun oid => ?_, ?_⟩
  · rw [hfiles, h.manifests, hentries]
    by_cases hk : oid.toHex = k
    · subst hk
      rw [AList.lookup_modify_self]
      cases s.entries.lookup oid.toHex with
      | none => rfl
      | some e => exact (hf.recorded oid e).symm
    · rw [AList.lookup_modify_ne hk]
  · rw [hentries]
    refine AList.forall_modify h.layouts fun e _ hold ht => ?_
    rw [hf.compat]
    exact hold (hf.tier e ht)

lemma unrecorded_touch {f : Entry → Entry} (hf : Entry.Touches f) : Entry.Unrecorded f := by
  refine ⟨fun oid e => ?_, fun e => ?_, fun e => ?_⟩ <;>
    obtain ⟨reuse, lastUse, durable, he⟩ := hf e <;> rw [he]
  · rfl
  · exact id

lemma unrecorded_push {p : Placement} (hp : p.tier ≠ .persistent) :
    Entry.Unrecorded (Entry.push p) := by
  have htier : ∀ e : Entry, .persistent ∈ (e.push p).placementTiers ↔
      .persistent ∈ e.placementTiers := by
    intro e
    rw [Entry.placementTiers_push, List.mem_append, List.mem_singleton]
    exact or_iff_left hp.symm
  refine ⟨fun oid e => ?_, fun e => rfl, fun e => (htier e).mp⟩
  unfold Entry.recorded
  simp only [htier]
  rfl

lemma unrecorded_without (ht : t ≠ .persistent) : Entry.Unrecorded (Entry.without t) := by
  have htier : ∀ e : Entry, .persistent ∈ (e.without t).placementTiers ↔
      .persistent ∈ e.placementTiers := by
    intro e
    rw [Entry.placementTiers_without]
    exact List.mem_erase_of_ne ht.symm
  refine ⟨fun oid e => ?_, fun e => rfl, fun e => (htier e).mp⟩
  unfold Entry.recorded
  simp only [htier]
  rfl

/-- The manifest of one object changes along with its entry. -/
lemma Recorded.change (h : Recorded config s) {f : Entry → Entry}
    (he : s.entries.lookup oid.toHex = some e)
    (hentries : s'.entries = s.entries.modify oid.toHex f)
    (hstore : s'.persistent.isSome = s.persistent.isSome)
    (hfile : s'.durable.file (manifestFile oid) = (f e).recorded oid)
    (hothers : Durable.OtherManifests oid s.durable s'.durable)
    (hlayout : .persistent ∈ (f e).placementTiers →
      (f e).compat.layout.validate (f e).compat.shape = .ok ()) : Recorded config s' := by
  refine ⟨hstore.trans h.store, fun oid' => ?_, ?_⟩
  · rw [hentries]
    by_cases hk : oid' = oid
    · subst hk
      rw [AList.lookup_modify_self, he]
      exact hfile
    · have hfile' : manifestFile oid' ≠ manifestFile oid := fun h => hk (manifestFile_injective h)
      rw [AList.lookup_modify_ne fun h => hk (ObjectId.toHex_injective h),
        hothers _ (isManifest_manifestFile oid') hfile']
      exact h.manifests oid'
  · rw [hentries]
    refine AList.forall_modify h.layouts fun e' he' _ ht => ?_
    rw [he] at he'
    cases he'
    exact hlayout ht

lemma Recorded.absent (h : Recorded config s) (he : s.entries.lookup oid.toHex = some e)
    (ht : .persistent ∉ e.placementTiers) : s.durable.file (manifestFile oid) = none := by
  rw [h.manifests, he]
  exact if_neg ht

/-- With one block size on a store, a payload is cut as its entry lists it. -/
lemma Safe.chunk_blocks (h : Safe sc config o s) (hsizes : sc.sizes = {config.blockSize.toNat})
    (he : s.entries.lookup oid.toHex = some e) (ho : o oid.toHex = some r) :
    chunk r.payload config.blockSize.toNat = .ok e.blocks := by
  obtain ⟨n, hn, hchunk⟩ := (h.entryOk he ho).blocks
  rw [hsizes] at hn
  rw [← show n = _ from hn]
  exact hchunk

lemma Recorded.addEffect (h₀ : Safe sc config o s₀) (hsizes : sc.sizes = {config.blockSize.toNat})
    (h : Recorded config s₀) (he : s₀.entries.lookup oid.toHex = some e)
    (ho : o oid.toHex = some r) (ht : t ∉ e.placementTiers)
    (hlayout : t = .persistent → e.compat.layout.validate e.compat.shape = .ok ())
    (heff : AddEffect s₀ oid r e t s') : Recorded config s' := by
  cases heff with
  | refused => exact h
  | host => exact h.modify (unrecorded_push (by simp [Placement.tier])) rfl rfl fun _ => rfl
  | uploadFailed => exact ⟨h.store, h.manifests, h.layouts⟩
  | uploaded => exact h.modify (unrecorded_push (by simp [Placement.tier])) rfl rfl fun _ => rfl
  | @keepFailed d hkeep =>
    refine ⟨hkeep.store.trans h.store, fun oid' => ?_, h.layouts⟩
    change d.file _ = (s₀.entries.lookup _).bind _
    rw [← h.manifests]
    by_cases hk : oid' = oid
    · -- there was no manifest, and there is none
      subst hk
      have hnone := h.absent he ht
      rcases hkeep.manifest with hsame | hgone
      · exact hsame
      · rw [hgone, hnone]
    · exact hkeep.others _ (isManifest_manifestFile oid') fun h => hk (manifestFile_injective h)
  | @kept d numel blocks hchunk hnumel hkeep =>
    have hok := h₀.entryOk he ho
    rw [h₀.config_eq, h₀.chunk_blocks hsizes he ho] at hchunk
    cases hchunk
    have hnumel' : e.compat.shape.numel = .ok e.numel := by
      rw [hok.compat]
      exact hok.numel
    rw [hnumel'] at hnumel
    cases hnumel
    refine h.change he rfl (hkeep.store.trans hkeep.stored.symm) ?_ hkeep.others fun _ => hlayout rfl
    have hmem : .persistent ∈ (e.push .persistent).placementTiers := by
      rw [Entry.placementTiers_push]
      exact List.mem_append_right _ (List.mem_singleton_self _)
    rw [Entry.recorded, if_pos hmem]
    exact hkeep.manifest

lemma Recorded.removeEffect (hsafe : Safe sc config o s) (h : Recorded config s)
    (hremoved : t = .persistent → Durable.NoRemoveFault env.io)
    (heff : RemoveEffect env s oid t s') : Recorded config s' := by
  cases heff with
  | absent => exact h
  | host => exact h.modify (unrecorded_without (by simp)) rfl rfl fun _ => rfl
  | device => exact h.modify (unrecorded_without (by simp)) rfl rfl fun _ => rfl
  | @persistent e d he hp hdrop =>
    obtain ⟨r, -, hok⟩ := hsafe.entry _ e he
    have hnot : .persistent ∉ (e.without .persistent).placementTiers := by
      rw [Entry.placementTiers_without]
      exact List.Nodup.not_mem_erase hok.tiers
    refine h.change he rfl hdrop.store ?_ hdrop.others fun ht => absurd ht hnot
    rw [Entry.recorded, if_neg hnot]
    rcases hdrop.manifest with hnone | ⟨-, hfault⟩
    · exact hnone
    · exact absurd (hremoved rfl) hfault

/-- Calls that meet the condition keep the manifests up to date. -/
lemma recorded_extension (h₀ : Safe sc config o s₀) (hsizes : sc.sizes = {config.blockSize.toNat})
    (h : Recorded config s₀)
    (hlayout : ∀ oid e, c.adds = some (oid, .persistent) → s₀.entries.lookup oid.toHex = some e →
      .persistent ∉ e.placementTiers → e.compat.layout.validate e.compat.shape = .ok ())
    (hremoval : ∀ oid, c = .delete oid → Durable.NoRemoveFault env.io) :
    Extension sc config o env c s₀ (Recorded config) (Recorded config) where
  start := h
  touch s oid f hf _ hs := hs.modify (unrecorded_touch hf) rfl rfl fun _ => rfl
  add oid t e r s' hc he ho ht _ heff _ := by
    refine h.addEffect h₀ hsizes he ho ht ?_ heff
    rintro rfl
    exact hlayout oid e hc he ht
  remove s s' oid t hrem hsafe hs heff := by
    refine hs.removeEffect hsafe ?_ heff
    rintro rfl
    exact hremoval oid hrem.eq_delete
  enter r byteLen numel ps n s _ _ hs _ _ _ _ _ hnone _ _ := by
    refine ⟨hs.store, fun oid => ?_, AList.forall_insert hs.layouts ?_⟩
    · change s.durable.file _ = ((s.entries.insert _ _).lookup _).bind _
      rw [hs.manifests, AList.lookup_insert_eq_ite]
      split_ifs with hk
      · rw [hk, hnone]
        rfl
      · rfl
    · intro ht
      cases List.mem_singleton.mp ht
  forget s oid e _ _ hs he hempty := by
    have hstate : removeEntry oid s
        = { s with entries := s.entries.erase oid.toHex, objectCount := s.objectCount - 1 } := by
      rw [removeEntry, he]
    rw [hstate]
    refine ⟨hs.store, fun oid' => ?_, AList.forall_erase hs.layouts _⟩
    change s.durable.file _ = ((s.entries.erase _).lookup _).bind _
    rw [hs.manifests, AList.lookup_erase_eq_ite]
    split_ifs with hk
    · rw [hk, he]
      simp [Entry.recorded, Entry.placementTiers, hempty]
    · rfl
  clean s oid _ hsafe hs hnone := by
    obtain ⟨-, hstore, -, -, -, hothers, hman⟩ := Durable.removeManifest_tier env.io hsafe.durable oid
    have hgone : s.durable.file (manifestFile oid) = none := by
      rw [hs.manifests, hnone]
      rfl
    refine ⟨hstore.trans hs.store, fun oid' => ?_, hs.layouts⟩
    change (cleaned env oid s).file _ = (s.entries.lookup _).bind _
    rw [← hs.manifests]
    by_cases hk : oid' = oid
    · subst hk
      rcases hman with hnone' | ⟨hsame, -⟩
      · exact hnone'.trans hgone.symm
      · exact hsame
    · exact hothers _ (isManifest_manifestFile oid') fun h => hk (manifestFile_injective h)
  weaken s hs := hs

/-! ### Reading the manifests back -/

/-- The manifest of an entry with a valid layout is read back. -/
lemma EntryOk.decodeManifest {n : ℕ} {d : Devices} {k : Str} (h : EntryOk sc n d r k e)
    (hlayout : e.compat.layout.validate e.compat.shape = .ok ()) (oid : ObjectId) :
    TensorCache.decodeManifest (encodeManifest (e.manifest oid)) = .ok (e.manifest oid) := by
  obtain ⟨ps, htiles, hblocks, -⟩ := h.tiles
  have hlen : e.byteLen = UInt64.ofNat r.payload.length := h.byteLen
  refine decodeManifest_encode ?_ hlayout ?_ ?_
  · change e.compat.encode.length < _
    rw [h.compat]
    exact r.compat_small
  · change e.blocks.length ≤ _
    rw [hblocks, length_refsFrom]
    exact htiles.few
  · rw [checkManifest_eq_ok]
    refine ⟨?_, ?_, ?_⟩
    · change e.compat.shape.byteLen e.compat.dtype.byteSize = .ok e.byteLen
      rw [h.compat]
      exact h.shape
    · change e.compat.shape.numel = .ok e.numel
      rw [h.compat]
      exact h.numel
    · change validateBlockList e.blocks e.byteLen = .ok ()
      rw [hblocks, hlen]
      exact validateBlockList_tiles htiles r.payload_small

/-- A recovered entry stems from the registration of the entry it was recorded for. -/
lemma EntryOk.recovered {n : ℕ} {d d' : Devices} {k : Str} (h : EntryOk sc n d r k e)
    (oid : ObjectId) : EntryOk sc n d' r k (recoveredEntry env k (e.manifest oid)) where
  registered := h.registered
  key := h.key
  address := h.address
  compat := h.compat
  compatId := congrArg CompatKey.compatId h.compat
  byteLen := h.byteLen
  shape := h.shape
  numel := h.numel
  flags := rfl
  blocks := h.blocks
  tiers := List.nodup_singleton _
  host refs hrefs := by cases List.mem_singleton.mp hrefs
  device dev hdev := by cases List.mem_singleton.mp hdev

/-- The durable entries, with their manifests and their blocks, are on the disk. -/
structure OnFiles (sc : Scope) (config : RuntimeConfig) (o : Origin) (entries : HashMap Str Entry)
    (disk : Disk) : Prop where
  manifests : ∀ oid, disk.lookup (manifestFile oid)
    = (entries.lookup oid.toHex).bind (Entry.recorded oid)
  layouts : ∀ k e, entries.lookup k = some e → .persistent ∈ e.placementTiers →
    e.compat.layout.validate e.compat.shape = .ok ()
  blocks : ∀ k e, entries.lookup k = some e → .persistent ∈ e.placementTiers → ∀ b ∈ e.blocks,
    (disk.lookup (blockFile b.contentHash)).isSome
  entry : ∀ k e, entries.lookup k = some e →
    ∃ r d, o k = some r ∧ EntryOk sc config.blockSize.toNat d r k e

section Reopen

variable {entries : HashMap Str Entry} {disk : Disk} {extra : List Backend} {pid : ℕ}

lemma recorded_eq_some {content : Bytes} (h : e.recorded oid = some content) :
    .persistent ∈ e.placementTiers ∧ content = encodeManifest (e.manifest oid) := by
  unfold Entry.recorded at h
  split_ifs at h with ht
  cases h
  exact ⟨ht, rfl⟩

/-- A new runtime on such files recovers the durable entries. -/
theorem OnFiles.recovers (hS : CollisionFree sc.blocks)
    (hfiles : AllFiles (FileOk sc.blocks (ManifestOk sc)) disk) (h : OnFiles sc config o entries disk)
    (hpath : config.persistentPath.isSome) (hnew : new env config extra disk pid = .ok s')
    {e' : Entry} : s'.entries.lookup oid.toHex = some e' ↔
      ∃ e, entries.lookup oid.toHex = some e ∧ .persistent ∈ e.placementTiers ∧
        e' = recoveredEntry env oid.toHex (e.manifest oid) := by
  have hrec := recovering_new hS hfiles hpath hnew
  obtain ⟨halways, hkept, -⟩ := PersistentStore.openOn_spec hfiles env.io pid
  rw [hrec.entries]
  constructor
  · rintro ⟨m, hm, hoid, -, rfl⟩
    obtain ⟨path, c, hc, hmanifest, hdecode⟩ := PersistentStore.mem_recover.mp hm
    obtain ⟨oid', hoid', rfl⟩ := ((halways.disk path c hc).2 hmanifest m hdecode).objectId
    cases ObjectId.toHex_injective (hoid'.symm.trans hoid)
    rw [hkept _ (isLeftover_manifestFile oid), h.manifests] at hc
    obtain ⟨e, he, hrecorded⟩ := Option.bind_eq_some_iff.mp hc
    obtain ⟨ht, rfl⟩ := recorded_eq_some hrecorded
    obtain ⟨r, d, -, hok⟩ := h.entry _ e he
    rw [hok.decodeManifest (h.layouts _ e he ht) oid] at hdecode
    cases hdecode
    exact ⟨e, he, ht, rfl⟩
  · rintro ⟨e, he, ht, rfl⟩
    obtain ⟨r, d, -, hok⟩ := h.entry _ e he
    refine ⟨e.manifest oid, ?_, rfl, ?_, rfl⟩
    · refine PersistentStore.mem_recover.mpr ⟨manifestFile oid, encodeManifest (e.manifest oid), ?_,
        isManifest_manifestFile oid, hok.decodeManifest (h.layouts _ e he ht) oid⟩
      rw [hkept _ (isLeftover_manifestFile oid), h.manifests, he]
      exact if_pos ht
    · rw [PersistentStore.blocksExist_iff]
      intro b hb
      rw [hkept _ (isLeftover_blockFile b.contentHash)]
      exact h.blocks _ e he ht b hb

end Reopen

/-! ### One life after another -/

/-- The object has a persistent placement. -/
def Runtime.Durably (s : Runtime) (oid : ObjectId) : Prop :=
  ∃ e, s.entries.lookup oid.toHex = some e ∧ .persistent ∈ e.placementTiers

/-- The objects that have been persisted and not been deleted since, after one more call. -/
def Runtime.persisted (s : Runtime) (ev : Event) (kept : Set ObjectId) : Set ObjectId :=
  match ev.call with
  | .persist oid => { x | x ∈ kept ∨ x = oid ∧ Returns ev.env ev.call s.beginCall }
  | .delete oid => kept \ {oid}
  | _ => kept

/-- The lives of a store under one configuration, one after the other, each from the files that the
one before it left between two calls: the files the running one was opened on, its state, the
registrations so far and the objects that were persisted. All calls meet the condition `C`. -/
inductive Lives (C : Runtime → Event → Prop) (config : RuntimeConfig) :
    Disk → Runtime → List Registration → Set ObjectId → Prop
  | first {env : Env} {extra : List Backend} {pid : ℕ} {s : Runtime}
      (hnew : new env config extra ∅ pid = .ok s) : Lives C config ∅ s [] ∅
  | call {disk : Disk} {s : Runtime} {log : List Registration} {kept : Set ObjectId}
      (h : Lives C config disk s log kept) (ev : Event) (hev : C s ev) :
      Lives C config disk (s.exec ev) (log ++ s.registration ev) (s.persisted ev kept)
  | next {disk : Disk} {s s' : Runtime} {log : List Registration} {kept : Set ObjectId}
      {env : Env} {extra : List Backend} {pid : ℕ} (h : Lives C config disk s log kept)
      (hnew : new env config extra (s.files disk) pid = .ok s') :
      Lives C config (s.files disk) s' log kept

/-- Two entries for the same tensor. -/
structure Entry.SameTensor (e e' : Entry) : Prop where
  address : e'.address = e.address
  compat : e'.compat = e.compat
  byteLen : e'.byteLen = e.byteLen
  numel : e'.numel = e.numel
  createdNs : e'.createdNs = e.createdNs
  blocks : e'.blocks = e.blocks

/-- From `s` to `s'` exactly the durable objects are recovered, with what they are and with their
payloads. -/
structure Recovered (o : Origin) (s s' : Runtime) : Prop where
  exactly : ∀ oid : ObjectId, (s'.entries.lookup oid.toHex).isSome ↔ s.Durably oid
  same : ∀ (oid : ObjectId) e e', s.entries.lookup oid.toHex = some e →
    s'.entries.lookup oid.toHex = some e' →
    e.SameTensor e'
  placed : ∀ (oid : ObjectId) e', s'.entries.lookup oid.toHex = some e' →
    .persistent ∈ e'.placementTiers
  payload : ∀ (oid : ObjectId) e', s'.entries.lookup oid.toHex = some e' →
    ∃ r, o oid.toHex = some r ∧ s'.materializeFrom oid .persistent = .ok r.payload

/-- What holds as long as all calls meet the condition. -/
structure Kept (sc : Scope) (config : RuntimeConfig) (o : Origin) (disk : Disk) (s : Runtime) :
    Prop where
  safe : Safe sc config o s
  readable : Readable s
  recorded : Recorded config s
  files : AllFiles (FileOk sc.blocks (ManifestOk sc)) disk

section Lives

variable {disk : Disk} {extra : List Backend} {pid : ℕ} {log : List Registration}
  {kept : Set ObjectId}

lemma Kept.leaves (h : Kept sc config o disk s) :
    AllFiles (FileOk sc.blocks (ManifestOk sc)) (s.files disk) :=
  h.safe.leaves h.files (leaves_files s disk)

/-- The files of a runtime with a store are those of its durable tier. -/
lemma files_eq (hstore : s.persistent.isSome) (path : Path) :
    (s.files disk).lookup path = s.durable.file path := by
  obtain ⟨st, hst⟩ := Option.isSome_iff_exists.mp hstore
  simp only [Runtime.files, Durable.file, Runtime.durable, hst]

lemma Kept.onFiles (h : Kept sc config o disk s) (hpath : config.persistentPath.isSome) :
    OnFiles sc config o s.entries (s.files disk) := by
  have hstore : s.persistent.isSome := h.recorded.store.trans hpath
  refine ⟨fun oid => ?_, h.recorded.layouts, fun k e he ht b hb => ?_, fun k e he => ?_⟩
  · rw [files_eq hstore]
    exact h.recorded.manifests oid
  · obtain ⟨p, hp, htier⟩ := Entry.mem_placementTiers.mp ht
    have hp' : p = .persistent := by
      cases p with
      | persistent => rfl
      | host refs => cases htier
      | accelerator dev => cases htier
    subst hp'
    have hcount : 0 < s.durable.count b.contentHash :=
      (countRef_pos.mpr ⟨b, hb, rfl⟩).trans_le
        ((le_demand (w := durableWeight b.contentHash) he hp).trans (h.readable.durable _))
    rw [files_eq hstore]
    cases hrefs : s.durable.refs.lookup b.contentHash with
    | none =>
      rw [Durable.count, hrefs] at hcount
      cases hcount
    | some n => exact h.safe.durable.file _ n hrefs
  · obtain ⟨r, ho, hok⟩ := h.safe.entry k e he
    exact ⟨r, _, ho, hok⟩

/-- A new runtime on the files of durable entries. -/
lemma OnFiles.keeps {entries : HashMap Str Entry} (hS : CollisionFree sc.blocks)
    (hfiles : AllFiles (FileOk sc.blocks (ManifestOk sc)) disk) (h : OnFiles sc config o entries disk)
    (hsize : config.blockSize.toNat ∈ sc.sizes) (hpath : config.persistentPath.isSome)
    (hnew : new env config extra disk pid = .ok s') : Kept sc config o disk s' := by
  obtain ⟨hfresh, o', hsafe⟩ := new_spec hS hfiles hsize hnew
  have hrec := recovering_new hS hfiles hpath hnew
  obtain ⟨-, hkept, -⟩ := PersistentStore.openOn_spec hfiles env.io pid
  have hentry : ∀ k e', s'.entries.lookup k = some e' → ∃ (oid : ObjectId) (e : Entry), k = oid.toHex ∧
      entries.lookup k = some e ∧ .persistent ∈ e.placementTiers ∧
      e' = recoveredEntry env k (e.manifest oid) := by
    intro k e' he'
    obtain ⟨r, -, hok⟩ := hsafe.entry k e' he'
    rw [hok.key] at he' ⊢
    obtain ⟨e, he, ht, heq⟩ := (h.recovers hS hfiles hpath hnew).mp he'
    exact ⟨_, e, rfl, he, ht, heq⟩
  refine ⟨{ hsafe with entry := fun k e' he' => ?_ }, hfresh.readable, ⟨?_, fun oid => ?_, ?_⟩,
    hfiles⟩
  · obtain ⟨oid, e, rfl, he, -, rfl⟩ := hentry k e' he'
    obtain ⟨r, d, ho, hok⟩ := h.entry _ e he
    exact ⟨r, ho, hok.recovered oid⟩
  · rw [hrec.store, hpath]
    rfl
  · have hfile : s'.durable.file (manifestFile oid) = disk.lookup (manifestFile oid) := by
      rw [← hkept _ (isLeftover_manifestFile oid)]
      simp only [Durable.file, Runtime.durable, hrec.store]
    rw [hfile, h.manifests]
    cases he' : s'.entries.lookup oid.toHex with
    | some e' =>
      obtain ⟨e, he, ht, rfl⟩ := (h.recovers hS hfiles hpath hnew).mp he'
      have hold : e.recorded oid = some (encodeManifest (e.manifest oid)) := if_pos ht
      have hnew : (recoveredEntry env oid.toHex (e.manifest oid)).recorded oid
          = some (encodeManifest (e.manifest oid)) := if_pos (List.mem_singleton_self _)
      rw [he, Option.bind_some, Option.bind_some, hold, hnew]
    | none =>
      cases he : entries.lookup oid.toHex with
      | none => rfl
      | some e =>
        refine if_neg fun ht => ?_
        have hsome := (h.recovers hS hfiles hpath hnew).mpr ⟨e, he, ht, rfl⟩
        rw [he'] at hsome
        cases hsome
  · intro k e' he' _
    obtain ⟨oid, e, rfl, he, ht, rfl⟩ := hentry k e' he'
    exact h.layouts _ e he ht

/-- A runtime without a store starts empty. -/
lemma entries_of_new (hpath : config.persistentPath = none)
    (hnew : new env config extra disk pid = .ok s') :
    s'.entries = ∅ ∧ s'.persistent = none := by
  unfold new at hnew
  split_ifs at hnew
  rw [hpath] at hnew
  cases hnew
  exact ⟨rfl, rfl⟩

lemma kept_of_new (hS : CollisionFree sc.blocks)
    (hfiles : AllFiles (FileOk sc.blocks (ManifestOk sc)) disk)
    (hsize : config.blockSize.toNat ∈ sc.sizes) (hpath : config.persistentPath = none)
    (hnew : new env config extra disk pid = .ok s') : Kept sc config o disk s' := by
  obtain ⟨hfresh, o', hsafe⟩ := new_spec hS hfiles hsize hnew
  obtain ⟨hentries, hstore⟩ := entries_of_new hpath hnew
  have hnone : ∀ k e, s'.entries.lookup k ≠ some e := by
    intro k e he
    rw [hentries] at he
    cases he
  refine ⟨{ hsafe with entry := fun k e he => absurd he (hnone k e) }, hfresh.readable,
    ⟨?_, fun oid => ?_, fun k e he => absurd he (hnone k e)⟩, hfiles⟩
  · rw [hstore, hpath]
    rfl
  · rw [hentries]
    simp only [Durable.file, Runtime.durable, hstore]
    rfl

/-- The files of a durable object are as they were when a call begins. -/
lemma Recorded.beginCall (h : Recorded config s) : Recorded config s.beginCall := by
  refine ⟨?_, fun oid => ?_, h.layouts⟩
  · rw [← h.store]
    simp [Runtime.beginCall]
  · refine Eq.trans ?_ (h.manifests oid)
    simp only [Durable.file, Runtime.durable, Runtime.beginCall]
    cases s.persistent <;> rfl

/-- One call that meets the condition. -/
lemma Kept.exec (hS : CollisionFree sc.blocks) (hsizes : sc.sizes = {config.blockSize.toNat})
    (h : Kept sc config o disk s) {ev : Event} (hreg : ∀ r ∈ s.registration ev, r ∈ sc.registered)
    (hev : KeepsRecoverable s ev) :
    Kept sc config (o.record (s.registration ev)) disk (s.exec ev) := by
  have hbegin := h.safe.beginCall
  have hadds : AddsAsListed config o ev.call s.beginCall :=
    fun oid t e r _ he ho _ _ => hbegin.chunk_blocks hsizes he ho
  obtain ⟨hsafe, hreadable, hrecorded⟩ := h.safe.exec_rule hS hreg
    ((Readable.extension hbegin h.readable.beginCall hadds).and
      (recorded_extension hbegin hsizes h.recorded.beginCall hev.layout hev.removal))
  exact ⟨hsafe, hreadable, hrecorded, h.files⟩

/-! ### Objects that have been persisted -/

/-- A change of an entry that keeps a persistent placement. -/
lemma Durably.modify {k : Str} {f : Entry → Entry} (h : s.Durably oid)
    (hf : ∀ e, s.entries.lookup k = some e → k = oid.toHex → .persistent ∈ e.placementTiers →
      .persistent ∈ (f e).placementTiers)
    (hentries : s'.entries = s.entries.modify k f) : s'.Durably oid := by
  obtain ⟨e, he, ht⟩ := h
  by_cases hk : oid.toHex = k
  · subst hk
    refine ⟨f e, ?_, hf e he rfl ht⟩
    rw [hentries, AList.lookup_modify_self, he]
    rfl
  · refine ⟨e, ?_, ht⟩
    rw [hentries, AList.lookup_modify_ne hk]
    exact he

/-- Only deleting an object takes its persistent placement away. -/
lemma durably_extension (hc : c ≠ .delete oid) (h : s₀.Durably oid) :
    Extension sc config o env c s₀ (fun s => s.Durably oid) (fun s => s.Durably oid) where
  start := h
  touch s oid' f hf _ hs := by
    refine Durably.modify hs (fun e _ _ ht => ?_) rfl
    obtain ⟨reuse, lastUse, durable, he⟩ := hf e
    rw [he]
    exact ht
  add oid' t e r s' _ _ _ _ _ heff _ := by
    rcases heff.entries with hsame | ⟨p, -, hpushed⟩
    · obtain ⟨e', he', ht'⟩ := h
      exact ⟨e', by rw [hsame]; exact he', ht'⟩
    · refine Durably.modify h (fun e _ _ ht => ?_) hpushed
      rw [Entry.placementTiers_push]
      exact List.mem_append_left _ ht
  remove s s' oid' t hrem _ hs heff := by
    rcases heff.entries with hsame | hremoved
    · obtain ⟨e', he', ht'⟩ := hs
      exact ⟨e', by rw [hsame]; exact he', ht'⟩
    · refine Durably.modify hs (fun e _ hoid ht => ?_) hremoved
      have hne : t ≠ .persistent := by
        rintro rfl
        rw [ObjectId.toHex_injective hoid] at hrem
        exact hc hrem.eq_delete
      rw [Entry.placementTiers_without]
      exact (List.mem_erase_of_ne hne.symm).mpr ht
  enter r byteLen numel ps n s _ _ hs _ _ _ _ _ hnone _ _ := by
    obtain ⟨e, he, ht⟩ := hs
    refine ⟨e, ?_, ht⟩
    change (s.entries.insert _ _).lookup oid.toHex = some e
    rw [AList.lookup_insert_eq_ite, if_neg]
    · exact he
    · intro hk
      rw [hk, hnone] at he
      cases he
  forget s oid' e hdelete _ hs he _ := by
    have hne : oid.toHex ≠ oid'.toHex := fun heq =>
      hc (by rw [hdelete, ObjectId.toHex_injective heq])
    obtain ⟨e', he', ht'⟩ := hs
    refine ⟨e', ?_, ht'⟩
    rw [removeEntry, he]
    change (s.entries.erase oid'.toHex).lookup oid.toHex = some e'
    rw [AList.lookup_erase_ne hne]
    exact he'
  clean s oid' _ _ hs _ := hs
  weaken s hs := hs

/-- Persisting an object that returns leaves a persistent placement. -/
lemma durably_of_persist (h : Runtime.persist env oid s = .ok ⟨⟩ s') : s'.Durably oid := by
  have htier : ∀ {s : Runtime}, s.entryHasTier oid .persistent = .ok true → s.Durably oid := by
    intro s hs
    obtain ⟨e, he, ht⟩ := entryHasTier_eq_ok.mp hs
    exact ⟨e, he, Entry.hasTier_iff.mp ht⟩
  obtain ⟨_, s₁, hensure, hmodify⟩ := EStateM.bind_eq_ok h
  cases hmodify
  refine Durably.modify (f := fun e => { e with durable := true }) (htier ?_)
    (fun e _ _ ht => ht) rfl
  unfold Runtime.ensurePlacement at hensure
  rw [get_bind_apply] at hensure
  cases hres : s.entryHasTier oid .persistent with
  | error err =>
    rw [hres, ofExcept_error_bind] at hensure
    cases hensure
  | ok resident =>
    rw [hres, ofExcept_ok_bind] at hensure
    cases resident with
    | true =>
      cases hensure
      exact hres
    | false =>
      change (EStateM.ofExcept (s.materializePayload oid) >>= _) s = _ at hensure
      cases hbytes : s.materializePayload oid with
      | error err =>
        rw [hbytes, ofExcept_error_bind] at hensure
        cases hensure
      | ok bytes =>
        rw [hbytes, ofExcept_ok_bind] at hensure
        exact resident_of_addPlacement hensure

/-- Only a deletion takes an object out of the persistent tier. -/
lemma durably_exec (hS : CollisionFree sc.blocks) (h : Safe sc config o s) {ev : Event}
    (hreg : ∀ r ∈ s.registration ev, r ∈ sc.registered) (hev : ev.call ≠ .delete oid)
    (hd : s.Durably oid) : (s.exec ev).Durably oid :=
  have hd' : s.beginCall.Durably oid := hd
  (h.exec_rule hS hreg (durably_extension hev hd')).2

/-- The objects that count as persisted have a persistent placement. -/
lemma durably_of_persisted (hS : CollisionFree sc.blocks) (h : Safe sc config o s) {ev : Event}
    (hreg : ∀ r ∈ s.registration ev, r ∈ sc.registered) (hkept : ∀ oid ∈ kept, s.Durably oid)
    (hmem : oid ∈ s.persisted ev kept) : (s.exec ev).Durably oid := by
  obtain ⟨env, c⟩ := ev
  cases c with
  | persist oid' =>
    rcases hmem with hmem | ⟨rfl, a, s', hrun⟩
    · exact durably_exec hS h hreg (by simp) (hkept oid hmem)
    · obtain ⟨_, s₁, hpersist, hreply⟩ := EStateM.bind_eq_ok hrun
      cases hreply
      rw [Runtime.exec, hrun]
      exact durably_of_persist hpersist
  | delete oid' =>
    refine durably_exec hS h hreg (fun heq => hmem.2 ?_) (hkept oid hmem.1)
    cases heq
    rfl
  | _ => exact durably_exec hS h hreg (by simp) (hkept oid hmem)

/-- A new runtime after a life. -/
theorem Kept.recovered (hS : CollisionFree sc.blocks) (hsizes : sc.sizes = {config.blockSize.toNat})
    (h : Kept sc config o disk s) (hnew : new env config extra (s.files disk) pid = .ok s') :
    Kept sc config o (s.files disk) s' ∧ Recovered o s s' := by
  have hsize : config.blockSize.toNat ∈ sc.sizes := by
    rw [hsizes]
    rfl
  cases hpath : config.persistentPath with
  | none =>
    obtain ⟨hentries, -⟩ := entries_of_new hpath hnew
    have hnone : ∀ k e, s'.entries.lookup k ≠ some e := by
      intro k e he
      rw [hentries] at he
      cases he
    refine ⟨kept_of_new hS h.leaves hsize hpath hnew, fun oid => ?_,
      fun oid e e' _ he' => absurd he' (hnone _ e'), fun oid e' he' => absurd he' (hnone _ e'),
      fun oid e' he' => absurd he' (hnone _ e')⟩
    rw [hentries]
    refine iff_of_false (by simp) ?_
    rintro ⟨e, he, ht⟩
    obtain ⟨p, hp, htier⟩ := Entry.mem_placementTiers.mp ht
    have hstore := h.recorded.store
    rw [hpath] at hstore
    cases p with
    | persistent =>
      rw [h.readable.store _ e he hp] at hstore
      cases hstore
    | host refs => cases htier
    | accelerator dev => cases htier
  | some path =>
    have hpath' : config.persistentPath.isSome := by
      rw [hpath]
      rfl
    have hfiles := h.onFiles hpath'
    have hkept := hfiles.keeps hS h.leaves hsize hpath' hnew
    have hiff : ∀ (oid : ObjectId) (e' : Entry), s'.entries.lookup oid.toHex = some e' ↔
        ∃ e, s.entries.lookup oid.toHex = some e ∧ .persistent ∈ e.placementTiers ∧
          e' = recoveredEntry env oid.toHex (e.manifest oid) :=
      fun _ _ => hfiles.recovers hS h.leaves hpath' hnew
    refine ⟨hkept, fun oid => ?_, fun oid e e' he he' => ?_, fun oid e' he' => ?_,
      fun oid e' he' => ?_⟩
    · rw [Option.isSome_iff_exists]
      constructor
      · rintro ⟨e', he'⟩
        obtain ⟨e, he, ht, -⟩ := (hiff oid e').mp he'
        exact ⟨e, he, ht⟩
      · rintro ⟨e, he, ht⟩
        exact ⟨_, (hiff oid _).mpr ⟨e, he, ht, rfl⟩⟩
    · obtain ⟨e₀, he₀, -, rfl⟩ := (hiff oid e').mp he'
      rw [he] at he₀
      cases he₀
      exact ⟨rfl, rfl, rfl, rfl, rfl, rfl⟩
    · obtain ⟨e₀, -, -, rfl⟩ := (hiff oid e').mp he'
      exact List.mem_singleton_self _
    · obtain ⟨r, ho, -⟩ := hkept.safe.entry _ e' he'
      obtain ⟨e₀, -, -, rfl⟩ := (hiff oid e').mp he'
      exact ⟨r, ho, hkept.safe.materializeFrom hS hkept.readable he' ho
        (List.mem_singleton_self _)⟩

/-- The run lemma, over all lives. -/
theorem Lives.keeps (hS : CollisionFree sc.blocks) (hsizes : sc.sizes = {config.blockSize.toNat})
    (h : Lives KeepsRecoverable config disk s log kept) (hlog : ∀ r ∈ log, r ∈ sc.registered) :
    Kept sc config (Origin.record (fun _ => none) log) disk s ∧ ∀ oid ∈ kept, s.Durably oid := by
  induction h with
  | @first env extra pid s hnew =>
    have hfiles : AllFiles (FileOk sc.blocks (ManifestOk sc)) ∅ := by
      intro path c hc
      simp at hc
    have hsize : config.blockSize.toNat ∈ sc.sizes := by
      rw [hsizes]
      rfl
    refine ⟨?_, fun oid hmem => hmem.elim⟩
    cases hpath : config.persistentPath with
    | none => exact kept_of_new hS hfiles hsize hpath hnew
    | some path =>
      have hempty : OnFiles sc config (Origin.record (fun _ => none) []) ∅ ∅ := by
        refine ⟨fun _ => rfl, fun _ _ he => ?_, fun _ _ he => ?_, fun _ _ he => ?_⟩ <;> cases he
      exact hempty.keeps hS hfiles hsize (by rw [hpath]; rfl) hnew
  | call h ev hev ih =>
    obtain ⟨hkept, hdurable⟩ := ih fun r hr => hlog r (List.mem_append_left _ hr)
    have hreg := fun r hr => hlog r (List.mem_append_right _ hr)
    rw [Origin.record_append]
    exact ⟨hkept.exec hS hsizes hreg hev,
      fun oid hmem => durably_of_persisted hS hkept.safe hreg hdurable hmem⟩
  | next h hnew ih =>
    obtain ⟨hkept, hdurable⟩ := ih hlog
    obtain ⟨hkept', hrec⟩ := hkept.recovered hS hsizes hnew
    refine ⟨hkept', fun oid hmem => ?_⟩
    obtain ⟨e', he'⟩ := Option.isSome_iff_exists.mp ((hrec.exactly oid).mpr (hdurable oid hmem))
    exact ⟨e', he', hrec.placed oid e' he'⟩

lemma Lives.blockSize_ne {C : Runtime → Event → Prop} (h : Lives C config disk s log kept) :
    config.blockSize ≠ 0 := by
  induction h with
  | first hnew =>
    intro hzero
    have hpos := blockSize_pos_of_new hnew
    rw [hzero] at hpos
    cases hpos
  | call _ _ _ ih => exact ih
  | next _ _ ih => exact ih

/-- Durable means recoverable, as long as no tensor with an invalid layout is made durable and no
removal of a file fails: a new runtime on the files recovers exactly the durable objects, with what
they are and with the payloads they were registered with. Whatever was persisted and not deleted
is durable. -/
theorem durable_recovered
    (hS : CollisionFree (scopeOf {config.blockSize.toNat} log).blocks)
    (h : Lives KeepsRecoverable config disk s log kept) (env : Env) (extra : List Backend)
    (pid : ℕ) :
    (∃ s', new env config extra (s.files disk) pid = .ok s' ∧
      Recovered (Origin.record (fun _ => none) log) s s') ∧ ∀ oid ∈ kept, s.Durably oid := by
  obtain ⟨hkept, hdurable⟩ := h.keeps hS rfl fun _ hr => hr
  refine ⟨?_, hdurable⟩
  obtain ⟨s', hnew⟩ : ∃ s', new env config extra (s.files disk) pid = .ok s' :=
    ⟨_, if_neg h.blockSize_ne⟩
  exact ⟨s', hnew, (hkept.recovered hS rfl hnew).2⟩

end Lives

/-- Registering a tensor and persisting it, and opening a new runtime afterwards. -/
theorem durable_recovered_bytePair :
    ∃ disk s log kept s', Lives KeepsRecoverable (storeConfig 2) disk s log kept ∧
      new {} (storeConfig 2) [] (s.files disk) 0 = .ok s' ∧
      (s'.entries.lookup (bytePair 0 1 2).address.objectId.toHex).isSome = true ∧
      Recovered (Origin.record (fun _ => none) log) s s' := by
  obtain ⟨s₀, hnew, hlayout, hsome⟩ : ∃ s₀, new {} (storeConfig 2) [] ∅ 0 = .ok s₀ ∧
      ((s₀.exec ⟨{}, .register (bytePair 0 1 2)⟩).entries.lookup
        (bytePair 0 1 2).address.objectId.toHex).all
          (fun e => decide (e.compat.layout = .rowMajor)) = true ∧
      (new {} (storeConfig 2) [] (((s₀.exec ⟨{}, .register (bytePair 0 1 2)⟩).exec
        ⟨{}, .persist (bytePair 0 1 2).address.objectId⟩).files ∅) 0).toOption.any
          (fun s' => (s'.entries.lookup (bytePair 0 1 2).address.objectId.toHex).isSome) = true :=
    ⟨_, rfl, by decide +kernel, by decide +kernel⟩
  have hregister : KeepsRecoverable s₀ ⟨{}, .register (bytePair 0 1 2)⟩ := by
    constructor
    · rintro _ _ ⟨⟩
    · rintro _ ⟨⟩
  have hpersist : KeepsRecoverable (s₀.exec ⟨{}, .register (bytePair 0 1 2)⟩)
      ⟨{}, .persist (bytePair 0 1 2).address.objectId⟩ := by
    constructor
    · rintro _ e ⟨⟩ he _
      rw [he] at hlayout
      rw [of_decide_eq_true hlayout]
      rfl
    · rintro _ ⟨⟩
  have hlives := ((Lives.first hnew).call _ hregister).call _ hpersist
  have hlog : ∀ {log : List Registration}, log = [] ++ s₀.registration
      ⟨{}, .register (bytePair 0 1 2)⟩ ++ (s₀.exec ⟨{}, .register (bytePair 0 1 2)⟩).registration
        ⟨{}, .persist (bytePair 0 1 2).address.objectId⟩ → log ⊆ [bytePair 0 1 2] := by
    rintro _ rfl
    simpa [Runtime.registrations, Call.registration] using registrations_subset s₀
      [⟨{}, .register (bytePair 0 1 2)⟩, ⟨{}, .persist (bytePair 0 1 2).address.objectId⟩]
  obtain ⟨⟨s', hs', hrec⟩, -⟩ := durable_recovered (collisionFree_scopeOf [2] [bytePair 0 1 2]
    (hlog rfl) (by simp [storeConfig]) (by decide +kernel)) hlives {} [] 0
  rw [hs'] at hsome
  exact ⟨_, _, _, _, s', hlives, hs', hsome, hrec⟩

/-- Three bytes with a stride vector that is too short. -/
def badStrides : Registration where
  address := ⟨.lit "", .lit "", 0⟩
  compat := { dtype := .u8, shape := ⟨[3], by decide, by simp [maxDim]⟩,
              layout := .strided ⟨[], by decide⟩ }
  payload := [1, 2, 3]
  payload_small := by simp
  compat_small := by decide

/-- It is registered and persisted, and a new runtime on the files does not have it. -/
theorem durable_lost :
    ∃ disk s log kept s', Lives (fun _ _ => True) (storeConfig 2) disk s log kept ∧
      s.Durably badStrides.address.objectId ∧
      new {} (storeConfig 2) [] (s.files disk) 0 = .ok s' ∧
      s'.entries.lookup badStrides.address.objectId.toHex = none ∧
      ∀ o, ¬Recovered o s s' := by
  obtain ⟨s₀, s', hnew, hkept, hnew', hlost⟩ : ∃ s₀ s', new {} (storeConfig 2) [] ∅ 0 = .ok s₀ ∧
      ((((s₀.exec ⟨{}, .register badStrides⟩).exec
        ⟨{}, .persist badStrides.address.objectId⟩).entries.lookup
          badStrides.address.objectId.toHex).any
            fun e => decide (.persistent ∈ e.placementTiers)) = true ∧
      new {} (storeConfig 2) [] (((s₀.exec ⟨{}, .register badStrides⟩).exec
        ⟨{}, .persist badStrides.address.objectId⟩).files ∅) 0 = .ok s' ∧
      (s'.entries.lookup badStrides.address.objectId.toHex).isNone = true :=
    ⟨_, _, rfl, by decide +kernel, rfl, by decide +kernel⟩
  have hlives := ((Lives.first (C := fun _ _ => True) hnew).call ⟨{}, .register badStrides⟩
    trivial).call ⟨{}, .persist badStrides.address.objectId⟩ trivial
  obtain ⟨e, he, ht⟩ := (Option.any_eq_true _ _).mp hkept
  have hdurable : ((s₀.exec ⟨{}, .register badStrides⟩).exec
      ⟨{}, .persist badStrides.address.objectId⟩).Durably badStrides.address.objectId :=
    ⟨e, he, of_decide_eq_true ht⟩
  have hnone := Option.isNone_iff_eq_none.mp hlost
  refine ⟨_, _, _, _, s', hlives, hdurable, hnew', hnone, fun o hrec => ?_⟩
  have hsome := (hrec.exactly _).mpr hdurable
  rw [hnone] at hsome
  cases hsome

end TensorCache
