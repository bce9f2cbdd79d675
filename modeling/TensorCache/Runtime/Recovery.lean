import TensorCache.Runtime.Runs

/-!
# Recovery

Opening a runtime on files that are in order (`FileOk`): every manifest whose blocks exist gives
one entry with a persistent placement, and the references of the durable blocks are exactly those
of the recovered entries.
-/

namespace TensorCache

open Codec EStateM TensorCache.Runtime

section References

variable {S : Set Bytes} {M : Path → PersistEntryMeta → Prop} {cap : ℕ} {d : Durable}

/-- Referencing blocks whose files are there. -/
lemma Durable.addRefs_spec (hS : CollisionFree S) {blocks : List BlockRef}
    (hb : ∀ b ∈ blocks, RefTo S b) (h : d.Wf S M cap)
    (hfile : ∀ b ∈ blocks, (d.file (blockFile b.contentHash)).isSome) :
    let d' := blocks.foldl (fun d b => d.addRef b) d
    d'.Wf S M cap ∧ d'.store = d.store ∧ d'.budget = d.budget ∧
      ∀ x, d'.count x = d.count x + countRef x blocks := by
  induction blocks generalizing d with
  | nil => exact ⟨h, Eq.refl _, Eq.refl _, fun x => by simp⟩
  | cons b blocks ih =>
    obtain ⟨block, hblock, offset, hsmall, rfl⟩ := hb b (by simp)
    have hhere := hfile (blockRef block offset) (by simp)
    have hwf := h.addRef hS hblock hsmall hhere offset
    obtain ⟨hwf', hstore, hbudget, hcount⟩ := ih (fun c hc => hb c (by simp [hc])) hwf
      fun c hc => by
        rw [Durable.addRef_file]
        exact hfile c (by simp [hc])
    refine ⟨hwf', hstore.trans (Durable.addRef_store _ d),
      hbudget.trans (Durable.addRef_budget _ d), fun x => ?_⟩
    rw [List.foldl_cons, hcount, Durable.count_addRef, countRef_cons]
    omega

end References

namespace PersistentStore

variable {st : PersistentStore} {m : PersistEntryMeta}

lemma mem_recover : m ∈ st.recover ↔
    ∃ path c, st.disk.lookup path = some c ∧ IsManifest path ∧ decodeManifest c = .ok m := by
  unfold recover
  rw [List.mem_filterMap]
  constructor
  · rintro ⟨⟨path, c⟩, hfile, hm⟩
    dsimp only at hm
    split_ifs at hm with hpath
    refine ⟨path, c, AList.mem_entries_iff.mp hfile, hpath, ?_⟩
    cases hd : decodeManifest c with
    | error e => rw [hd] at hm; cases hm
    | ok m' => rw [hd] at hm; cases hm; rfl
  · rintro ⟨path, c, hfile, hpath, hm⟩
    refine ⟨⟨path, c⟩, AList.mem_entries_iff.mpr hfile, ?_⟩
    dsimp only
    rw [if_pos (show _ ∧ _ from hpath), hm]
    rfl

/-- A manifest in the place of its object id: no two manifests are about one object. -/
lemma nodup_recover {S : Set Bytes} {M : Path → PersistEntryMeta → Prop}
    (hfiles : AllFiles (FileOk S M) st.disk)
    (hM : ∀ path path' m m', M path m → M path' m' → m.objectId = m'.objectId → path = path') :
    (st.recover.map PersistEntryMeta.objectId).Nodup := by
  have hdecoded : ∀ file ∈ st.disk.entries, ∀ m ∈ (if file.1.dir = .manifests ∧
      extension file.1.name = some (ascii "manifest") then (decodeManifest file.2).toOption
      else none), M file.1 m := by
    rintro ⟨path, c⟩ hfile m hm
    dsimp only at hm
    split_ifs at hm with hpath
    · refine (hfiles path c (AList.mem_entries_iff.mp hfile)).2 hpath m ?_
      cases hd : decodeManifest c with
      | error e => rw [hd] at hm; cases hm
      | ok m' => rw [hd] at hm; cases hm; rfl
    · cases hm
  have hkeys : st.disk.entries.Pairwise fun a b => a ∈ st.disk.entries ∧ b ∈ st.disk.entries ∧
      a.1 ≠ b.1 := List.Pairwise.and_mem.mp (List.nodupKeys_iff_pairwise.mp st.disk.nodupKeys)
  unfold recover
  rw [List.nodup_iff_pairwise_ne, List.pairwise_map]
  refine hkeys.filterMap _ fun a b ⟨ha, hb, hne⟩ m hm m' hm' heq => ?_
  exact hne (hM _ _ m m' (hdecoded a ha m hm) (hdecoded b hb m' hm') heq)

end PersistentStore

lemma PersistentStore.blocksExist_iff {st : PersistentStore} {blocks : List BlockRef} :
    st.blocksExist blocks = true
      ↔ ∀ b ∈ blocks, (st.disk.lookup (blockFile b.contentHash)).isSome = true := by
  simp [blocksExist, blockExists, blockPath_eq]

variable {sc : Scope} {config : RuntimeConfig} {env : Env} {st : PersistentStore}
  {m : PersistEntryMeta} {path : Path}

namespace ManifestOk

/-- A manifest names the object it is about. -/
lemma objectId (h : ManifestOk sc path m) :
    ∃ oid, m.objectId = ObjectId.toHex oid ∧ path = manifestFile oid := by
  obtain ⟨r, -, -, -, -, -, -, hpath, -, -, -, rfl⟩ := h
  exact ⟨r.address.objectId, rfl, hpath⟩

lemma refTo (h : ManifestOk sc path m) : ∀ b ∈ m.blocks, RefTo sc.blocks b := by
  obtain ⟨r, hr, n, hn, -, -, blocks, -, hchunk, -, -, rfl⟩ := h
  obtain ⟨hrefs, htiles⟩ := chunk_spec hchunk
  have hsmall : (pieces r.payload n).flatten.length < 2 ^ 64 := by
    rw [htiles.flatten]
    exact r.payload_small
  intro b hb
  change b ∈ blocks at hb
  rw [hrefs] at hb
  exact refTo_refsFrom (Scope.pieces_mem hr hn) hsmall 0 b hb

/-- The entry recovered from a manifest stems from the registration. -/
lemma entryOk (h : ManifestOk sc path m) (blockSize : ℕ) (d : Devices) :
    ∃ r, EntryOk sc blockSize d r m.objectId (recoveredEntry env m.objectId m) := by
  obtain ⟨r, hr, n, hn, numel, createdNs, blocks, -, hchunk, hshape, hnumel, rfl⟩ := h
  refine ⟨r, hr, rfl, rfl, rfl, rfl, rfl, hshape, hnumel, rfl, ⟨n, hn, hchunk⟩,
    List.nodup_singleton _, ?_, ?_⟩
  · intro refs hrefs
    cases List.mem_singleton.mp hrefs
  · intro dev hdev
    cases List.mem_singleton.mp hdev

end ManifestOk

/-- The state of recovery after the manifests `done`: one entry for each of them whose blocks
exist, and the references they need. -/
structure Recovering (sc : Scope) (env : Env) (st : PersistentStore) (cap : ℕ) (s₁ : Runtime)
    (done : List PersistEntryMeta) (s : Runtime) : Prop where
  host : s.hostTier = s₁.hostTier
  devices : s.devices = s₁.devices
  config : s.config = s₁.config
  store : s.persistent = some st
  budget : s.accounting.storage = s₁.accounting.storage
  entries : ∀ k e, s.entries.lookup k = some e ↔ ∃ m ∈ done, m.objectId = k ∧
    st.blocksExist m.blocks = true ∧ e = recoveredEntry env k m
  durable : s.durable.Wf sc.blocks (ManifestOk sc) cap
  count : ∀ x, s.durable.count x = demand (durableWeight x) s.entries

variable {cap : ℕ} {s₁ : Runtime} {done : List PersistEntryMeta} {acc : Runtime × RecoveryReport}

lemma Recovering.skip {s : Runtime} (h : Recovering sc env st cap s₁ done s)
    (hmissing : st.blocksExist m.blocks = false) :
    Recovering sc env st cap s₁ (done ++ [m]) s := by
  refine { h with entries := fun k e => (h.entries k e).trans ⟨?_, ?_⟩ }
  · rintro ⟨m', hm', hk, hexist, he⟩
    exact ⟨m', List.mem_append_left _ hm', hk, hexist, he⟩
  · rintro ⟨m', hm', hk, hexist, he⟩
    rcases List.mem_append.mp hm' with hm' | hm'
    · exact ⟨m', hm', hk, hexist, he⟩
    · rw [List.mem_singleton.mp hm', hmissing] at hexist
      cases hexist

/-- One turn of the loop, on a manifest of an object that has not been recovered yet. -/
lemma Recovering.turn (hS : CollisionFree sc.blocks)
    (h : Recovering sc env st cap s₁ done acc.1) (hm : ManifestOk sc path m)
    (hnew : ∀ m' ∈ done, m'.objectId ≠ m.objectId) :
    Recovering sc env st cap s₁ (done ++ [m]) (recoverOne env st acc m).1 := by
  obtain ⟨oid, hoid, -⟩ := hm.objectId
  have hfrom : ObjectId.fromHex m.objectId = .ok oid := by rw [hoid, ObjectId.fromHex_toHex]
  unfold recoverOne
  simp only [hfrom]
  cases hexist : st.blocksExist m.blocks with
  | false => exact h.skip hexist
  | true =>
    have hfile : ∀ b ∈ m.blocks, (acc.1.durable.file (blockFile b.contentHash)).isSome = true := by
      intro b hb
      rw [Durable.file, show acc.1.durable.store = some st from h.store]
      exact PersistentStore.blocksExist_iff.mp hexist b hb
    obtain ⟨hwf, hstore, hbudget, hcount⟩ := Durable.addRefs_spec hS hm.refTo h.durable hfile
    have hnone : acc.1.entries.lookup oid.toHex = none := by
      rw [← hoid]
      by_contra hsome
      obtain ⟨e, he⟩ := Option.ne_none_iff_exists'.mp hsome
      obtain ⟨m', hm', hk, -⟩ := (h.entries _ e).mp he
      exact hnew m' hm' hk
    refine ⟨h.host, h.devices, h.config, hstore.trans h.store, hbudget.trans h.budget,
      fun k e => ?_, hwf, fun x => ?_⟩
    · change (acc.1.entries.insert oid.toHex _).lookup k = some e ↔ _
      rw [AList.lookup_insert_eq_ite, ← hoid]
      split_ifs with hk
      · constructor
        · rintro ⟨⟩
          exact ⟨m, by simp, hk.symm, hexist, by rw [hk]⟩
        · rintro ⟨m', hm', hk', -, rfl⟩
          rcases List.mem_append.mp hm' with hm' | hm'
          · exact absurd (hk'.trans hk) (hnew m' hm')
          · rw [List.mem_singleton.mp hm', hk]
      · rw [h.entries k e]
        constructor
        · rintro ⟨m', hm', rest⟩
          exact ⟨m', List.mem_append_left _ hm', rest⟩
        · rintro ⟨m', hm', hk', rest⟩
          rcases List.mem_append.mp hm' with hm' | hm'
          · exact ⟨m', hm', hk', rest⟩
          · exact absurd ((List.mem_singleton.mp hm') ▸ hk').symm hk
    · refine (hcount x).trans ?_
      rw [h.count x]
      change _ = demand _ (acc.1.entries.insert oid.toHex _)
      rw [demand_insert hnone]
      simp only [Entry.weight, recoveredEntry, List.map_cons, List.map_nil, List.sum_cons,
        List.sum_nil, durableWeight]
      omega

/-- The whole loop. -/
theorem Recovering.loop (hS : CollisionFree sc.blocks) {ms : List PersistEntryMeta}
    (hm : ∀ m ∈ ms, ∃ path, ManifestOk sc path m)
    (hnodup : ((done ++ ms).map PersistEntryMeta.objectId).Nodup)
    (h : Recovering sc env st cap s₁ done acc.1) :
    Recovering sc env st cap s₁ (done ++ ms) (ms.foldl (recoverOne env st) acc).1 := by
  induction ms generalizing done acc with
  | nil => simpa using h
  | cons m ms ih =>
    obtain ⟨path, hpath⟩ := hm m (by simp)
    rw [List.append_cons] at hnodup ⊢
    refine ih (fun m' hm' => hm m' (by simp [hm'])) hnodup (h.turn hS hpath fun m' hm' heq => ?_)
    simp only [List.map_append, List.append_assoc, List.nodup_append] at hnodup
    exact hnodup.2.2 m'.objectId (List.mem_map_of_mem hm') m.objectId (by simp) heq

/-! ### Opening a runtime -/

/-- Opening a store removes leftovers, and nothing but leftovers. -/
lemma PersistentStore.openOn_spec {Q : Path → Bytes → Prop} {disk : Disk} (h : AllFiles Q disk)
    (io : IoFaults) (pid : ℕ) :
    (openOn io disk pid).Always Q ∧
      (∀ q, isLeftover q.name = false → (openOn io disk pid).disk.lookup q = disk.lookup q) ∧
      ∀ q, (openOn io disk pid).disk.lookup q = disk.lookup q ∨
        (openOn io disk pid).disk.lookup q = none := by
  have halways : PersistentStore.Always Q { base := disk, pid := pid } := by
    intro d hd
    cases hd
    exact h
  have hspec := cleanupIncomplete_spec io disk pid (Q := Q)
  have hrun := hspec { base := disk, pid := pid } ⟨rfl, halways, rfl⟩
  unfold openOn
  cases hclean : cleanupIncomplete io { base := disk, pid := pid } with
  | error e st => rw [hclean] at hrun; exact hrun.elim
  | ok u st => rw [hclean] at hrun; exact hrun.2

/-- A runtime that has just been opened: all entries are recovered ones, the host tier is empty,
and the durable blocks have exactly the references of the entries. -/
structure Fresh (s : Runtime) : Prop where
  placements : ∀ k e, s.entries.lookup k = some e → e.placements = [.persistent]
  store : ∀ k e, s.entries.lookup k = some e → s.persistent.isSome
  count : ∀ x, s.durable.count x = demand (durableWeight x) s.entries
  host : s.host = BlockArena.new
  hostUsed : s.accounting.host.used = 0
  storageUsed : s.accounting.storage.used = 0
  storageReserved : s.accounting.storage.reserved = 0

lemma Fresh.demand_eq_zero {s : Runtime} (h : Fresh s) {w : List BlockRef → Placement → ℕ}
    (hw : ∀ blocks, w blocks .persistent = 0) : demand w s.entries = 0 := by
  refine AList.total_eq_zero fun k e he => Entry.weight_eq_zero fun p hp => ?_
  rw [h.placements k e he] at hp
  rw [List.mem_singleton.mp hp, hw]

/-- Origins can be chosen for entries that stem from registrations. -/
lemma exists_origin {blockSize : ℕ} {d : Devices} {entries : HashMap Str Entry}
    (h : ∀ k e, entries.lookup k = some e → ∃ r, EntryOk sc blockSize d r k e) :
    ∃ o : Origin, ∀ k e, entries.lookup k = some e →
      ∃ r, o k = some r ∧ EntryOk sc blockSize d r k e := by
  have hone : ∀ k, ∃ v : Option Registration, ∀ e, entries.lookup k = some e →
      ∃ r, v = some r ∧ EntryOk sc blockSize d r k e := by
    intro k
    cases he : entries.lookup k with
    | none => exact ⟨none, by simp⟩
    | some e =>
      obtain ⟨r, hr⟩ := h k e he
      refine ⟨some r, ?_⟩
      rintro _ ⟨⟩
      exact ⟨r, rfl, hr⟩
  choose o ho using hone
  exact ⟨o, ho⟩

/-- A fresh runtime on files that are in order is safe. -/
lemma Fresh.safe {s : Runtime} (h : Fresh s) (hconfig : s.config = config)
    (hsize : config.blockSize.toNat ∈ sc.sizes)
    (hhost : s.hostTier.Wf sc.blocks config.hostCapacity.toNat)
    (hentry : ∀ k e, s.entries.lookup k = some e →
      ∃ r, EntryOk sc config.blockSize.toNat s.devices r k e)
    (hdurable : s.durable.Wf sc.blocks (ManifestOk sc) config.persistentCapacity.toNat) :
    ∃ o, Safe sc config o s := by
  obtain ⟨o, ho⟩ := exists_origin hentry
  refine ⟨o, hconfig, hsize, ho, hhost, fun x => ?_, fun x => ?_, hdurable⟩
  · rw [h.demand_eq_zero fun _ => rfl]
    exact Nat.zero_le _
  · rw [h.demand_eq_zero fun _ => rfl]
    exact Nat.zero_le _

section New

variable {extra : List Backend} {disk : Disk} {pid : ℕ} {s : Runtime}

lemma hostTier_initial (S : Set Bytes) (config : RuntimeConfig) (extra : List Backend)
    (persistent : Option PersistentStore) :
    (initial config extra persistent).hostTier.Wf S config.hostCapacity.toNat :=
  ⟨BlockArena.wf_new S, ⟨config.hostCapacity.toNat_lt, Nat.zero_le _⟩, rfl, rfl⟩

lemma durable_initial {S : Set Bytes} {M : Path → PersistEntryMeta → Prop}
    {persistent : Option PersistentStore}
    (hfiles : ∀ st, persistent = some st → st.Always (FileOk S M)) :
    (initial config extra persistent).durable.Wf S M config.persistentCapacity.toNat := by
  refine ⟨hfiles, fun h n hn => ?_, fun h n hn => ?_, rfl,
    ⟨config.persistentCapacity.toNat_lt, Nat.zero_le _⟩, rfl⟩
  · simp [initial, Runtime.durable] at hn
  · simp [initial, Runtime.durable] at hn

lemma fresh_initial (config : RuntimeConfig) (extra : List Backend)
    (persistent : Option PersistentStore) : Fresh (initial config extra persistent) := by
  refine ⟨fun k e he => ?_, fun k e he => ?_, fun x => rfl, rfl, rfl, rfl, rfl⟩
  · simp [initial] at he
  · simp [initial] at he

lemma blockSize_pos_of_new (hnew : new env config extra disk pid = .ok s) :
    0 < config.blockSize.toNat := by
  unfold new at hnew
  split_ifs at hnew with hzero
  refine Nat.pos_of_ne_zero fun h => hzero ?_
  exact UInt64.toNat_inj.mp h

/-- Recovery inserts entries and counts their blocks, and does nothing else. -/
lemma recover_keeps {P : Runtime → Prop}
    (hinsert : ∀ (oid : ObjectId) m s, P s →
      P (insertEntry oid.toHex (recoveredEntry env oid.toHex m) s))
    (hdurable : ∀ d s, P s → P (setDurable d s)) (h : P s) : P (recover env s).1 := by
  have hone : ∀ (st : PersistentStore) acc m, P acc.1 → P (recoverOne env st acc m).1 := by
    intro st acc m hacc
    unfold recoverOne
    split
    · exact hacc
    · split_ifs
      · exact hinsert _ _ _ (hdurable _ _ hacc)
      · exact hacc
  have hloop : ∀ (st : PersistentStore) ms acc, P acc.1 →
      P (List.foldl (recoverOne env st) acc ms).1 := by
    intro st ms
    induction ms with
    | nil => exact fun acc hacc => hacc
    | cons m ms ih => exact fun acc hacc => ih _ (hone st acc m hacc)
  unfold recover
  split
  · exact h
  · exact hloop _ _ _ h

lemma new_keeps {P : Runtime → Prop}
    (hinsert : ∀ (oid : ObjectId) m s, P s →
      P (insertEntry oid.toHex (recoveredEntry env oid.toHex m) s))
    (hdurable : ∀ d s, P s → P (setDurable d s)) (hinitial : ∀ st, P (initial config extra st))
    (hnew : new env config extra disk pid = .ok s) : P s := by
  unfold new at hnew
  split_ifs at hnew
  cases hnew
  exact recover_keeps hinsert hdurable (hinitial _)

/-- Recovery leaves the configuration alone. -/
lemma config_of_new (hnew : new env config extra disk pid = .ok s) : s.config = config :=
  new_keeps (P := fun s => s.config = config) (fun _ _ _ hs => hs) (fun _ _ hs => hs)
    (fun _ => rfl) hnew

/-- Opening a runtime with a store runs the recovery loop over the manifests. -/
theorem recovering_new (hS : CollisionFree sc.blocks)
    (hfiles : AllFiles (FileOk sc.blocks (ManifestOk sc)) disk)
    (hpath : config.persistentPath.isSome) (hnew : new env config extra disk pid = .ok s) :
    Recovering sc env (PersistentStore.openOn env.io disk pid) config.persistentCapacity.toNat
      (initial config extra (some (PersistentStore.openOn env.io disk pid)))
      (PersistentStore.openOn env.io disk pid).recover s := by
  obtain ⟨path, hpath⟩ := Option.isSome_iff_exists.mp hpath
  obtain ⟨halways, -, -⟩ := PersistentStore.openOn_spec hfiles env.io pid
  unfold new at hnew
  split_ifs at hnew
  rw [hpath] at hnew
  cases hnew
  generalize PersistentStore.openOn env.io disk pid = st at halways
  have hstart : Recovering sc env st config.persistentCapacity.toNat
      (initial config extra (some st)) [] (initial config extra (some st)) := by
    refine ⟨rfl, rfl, rfl, rfl, rfl, fun k e => by simp [initial], durable_initial ?_,
      (fresh_initial config extra _).count⟩
    rintro _ ⟨⟩
    exact halways
  change Recovering sc env st _ _ ([] ++ st.recover)
    (st.recover.foldl (recoverOne env st) (initial config extra (some st), {})).1
  refine Recovering.loop hS (fun m hm => ?_) ?_ hstart
  · obtain ⟨path, c, hc, hmanifest, hdecode⟩ := PersistentStore.mem_recover.mp hm
    exact ⟨path, (halways.disk path c hc).2 hmanifest m hdecode⟩
  · refine PersistentStore.nodup_recover halways.disk fun path path' m m' hm hm' heq => ?_
    obtain ⟨oid, hoid, rfl⟩ := hm.objectId
    obtain ⟨oid', hoid', rfl⟩ := hm'.objectId
    rw [hoid, hoid'] at heq
    rw [ObjectId.toHex_injective heq]

/-- A runtime opened on files that are in order is fresh and safe. -/
theorem new_spec (hS : CollisionFree sc.blocks)
    (hfiles : AllFiles (FileOk sc.blocks (ManifestOk sc)) disk)
    (hsize : config.blockSize.toNat ∈ sc.sizes) (hnew : new env config extra disk pid = .ok s) :
    Fresh s ∧ ∃ o, Safe sc config o s := by
  cases hpath : config.persistentPath with
  | none =>
    unfold new at hnew
    split_ifs at hnew
    rw [hpath] at hnew
    cases hnew
    have hfresh := fresh_initial config extra none
    refine ⟨hfresh, hfresh.safe rfl hsize (hostTier_initial _ _ _ _) (fun k e he => ?_)
      (durable_initial (by simp))⟩
    change (∅ : HashMap Str Entry).lookup k = some e at he
    simp at he
  | some path =>
    have hrec := recovering_new hS hfiles (by rw [hpath]; rfl) hnew
    have hmanifest : ∀ m ∈ (PersistentStore.openOn env.io disk pid).recover,
        ∃ path, ManifestOk sc path m := by
      intro m hm
      obtain ⟨path, c, hc, hpath, hdecode⟩ := PersistentStore.mem_recover.mp hm
      obtain ⟨halways, -, -⟩ := PersistentStore.openOn_spec hfiles env.io pid
      exact ⟨path, (halways.disk path c hc).2 hpath m hdecode⟩
    have hfresh : Fresh s := by
      refine ⟨fun k e he => ?_, fun k e he => by simp [hrec.store], hrec.count,
        congrArg HostTier.arena hrec.host, congrArg (fun t => t.budget.used) hrec.host,
        congrArg Budget.used hrec.budget, congrArg Budget.reserved hrec.budget⟩
      obtain ⟨m, -, -, -, rfl⟩ := (hrec.entries k e).mp he
      rfl
    refine ⟨hfresh, hfresh.safe (hrec.config.trans rfl) hsize ?_ (fun k e he => ?_) hrec.durable⟩
    · rw [hrec.host]
      exact hostTier_initial _ _ _ _
    · obtain ⟨m, hm, rfl, -, rfl⟩ := (hrec.entries k e).mp he
      obtain ⟨path, hpath⟩ := hmanifest m hm
      exact hpath.entryOk _ _

/-- A recovered entry comes from a manifest that was there. -/
lemma manifest_of_new (hS : CollisionFree sc.blocks)
    (hfiles : AllFiles (FileOk sc.blocks (ManifestOk sc)) disk)
    (hnew : new env config extra disk pid = .ok s) {k : Str} {e : Entry}
    (he : s.entries.lookup k = some e) :
    ∃ path c m, disk.lookup path = some c ∧ IsManifest path ∧ decodeManifest c = .ok m ∧
      e = recoveredEntry env k m := by
  cases hpath : config.persistentPath with
  | none =>
    unfold new at hnew
    split_ifs at hnew
    rw [hpath] at hnew
    cases hnew
    change (∅ : HashMap Str Entry).lookup k = some e at he
    simp at he
  | some path =>
    have hrec := recovering_new hS hfiles (by rw [hpath]; rfl) hnew
    obtain ⟨-, -, hkeep⟩ := PersistentStore.openOn_spec hfiles env.io pid
    obtain ⟨m, hm, -, -, rfl⟩ := (hrec.entries k e).mp he
    obtain ⟨path, c, hc, hmanifest, hdecode⟩ := PersistentStore.mem_recover.mp hm
    refine ⟨path, c, m, ?_, hmanifest, hdecode, rfl⟩
    rcases hkeep path with hsame | hnone
    · rw [← hsame, hc]
    · rw [hnone] at hc
      cases hc

end New

end TensorCache
