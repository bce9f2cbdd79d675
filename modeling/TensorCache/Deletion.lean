import TensorCache.Runtime.Frame
import TensorCache.Runtime.Sessions

/-!
# Objects that were deleted

A deletion removes the blocks of an object before its manifest, and recovery passes over a
manifest whose blocks are not all there without removing it. If a crash falls in between, the
manifest is left behind, and blocks that other objects bring back make it valid again. As long as
recovery finds no such manifest, an object that is absent after a restart stays absent until it is
registered again and made durable.
-/

namespace TensorCache

open Codec EStateM DurableStep TensorCache.Runtime

/-! ### What calls write -/

/-- A property of files that calls respect, as long as only the objects of `A` are made durable:
it is a property of manifests, and it holds of the manifests that are written. -/
structure Written (A : ObjectId → Prop) (Q : Path → Bytes → Prop) : Prop where
  other : ∀ path c, ¬IsManifest path → Q path c
  manifest : ∀ oid m, A oid → m.objectId = ObjectId.toHex oid →
    Q (manifestFile oid) (encodeManifest m)

section Written

variable {A : ObjectId → Prop} {Q : Path → Bytes → Prop} {io : IoFaults}

lemma blockFile_name_ne_nil (d : Digest) : (blockFile d).name ≠ [] := by
  intro h
  have hlen : (blockFile d).name.length = 64 := d.length_bytes_toHex
  rw [h] at hlen
  cases hlen

/-- A property of manifests. -/
abbrev OfManifests (Q : Path → Bytes → Prop) : Prop := ∀ path c, ¬IsManifest path → Q path c

lemma OfManifests.tmp (h : OfManifests Q) {path : Path} (hpath : path.name ≠ []) (pid : ℕ)
    (c : Bytes) : Q (tmpPath path pid) c :=
  h _ c (not_isManifest_tmp path hpath pid)

namespace PersistentStore

lemma keeps_putBlock (h : OfManifests Q) (bytes : Bytes) :
    Keeps (Always Q) (putBlock io bytes) := by
  refine Triple.of_state fun st hst => ?_
  refine (putBlock_spec io st.disk (h _ _ (not_isManifest_blockFile _))
    (h.tmp (blockFile_name_ne_nil _) st.pid)).conseq ?_ (fun _ _ hs => hs.2.1) fun _ hs => hs.2.1
  rintro _ rfl
  exact ⟨rfl, hst, rfl⟩

lemma keeps_removeBlock (d : Digest) : Keeps (Always Q) (removeBlock io d) := by
  refine Triple.of_state fun st hst => ?_
  refine (removeBlock_spec io st.disk st.pid d).conseq ?_ (fun _ _ hs => hs.2.1) fun _ hs => hs.2.1
  rintro _ rfl
  exact ⟨rfl, hst, rfl⟩

lemma keeps_removeManifest (oid : ObjectId) : Keeps (Always Q) (removeManifest io oid.toHex) := by
  refine Triple.of_state fun st hst => ?_
  refine (removeManifest_spec io st.disk st.pid oid).conseq ?_ (fun _ _ hs => hs.2.1)
    fun _ hs => hs.2.1
  rintro _ rfl
  exact ⟨rfl, hst, rfl⟩

lemma keeps_writeManifest (h : OfManifests Q) {oid : ObjectId} {m : PersistEntryMeta}
    (hoid : m.objectId = oid.toHex) (hm : Q (manifestFile oid) (encodeManifest m)) :
    Keeps (Always Q) (writeManifest io m) := by
  refine Triple.of_state fun st hst => ?_
  refine (writeManifest_spec io st.disk hoid hm
    (h.tmp (manifestFile_name_ne_nil oid) st.pid)).conseq ?_ (fun _ _ hs => hs.2.1)
    fun _ hs => hs.always
  rintro _ rfl
  exact ⟨rfl, hst, rfl⟩

end PersistentStore

/-- All files of the store satisfy `Q`, also after a crash. -/
def Durable.OnDisk (Q : Path → Bytes → Prop) (d : Durable) : Prop :=
  ∀ st, d.store = some st → st.Always Q

namespace Durable

lemma keeps_onStore {α : Type} {m : EStateM Error PersistentStore α}
    (hm : Keeps (PersistentStore.Always Q) m) : Keeps (OnDisk Q) (onStore m) := by
  refine keeps_iff.mpr fun d hd => ?_
  unfold onStore
  cases hst : d.store with
  | none => exact hd
  | some st =>
    have hstate := hm.state (hd st hst)
    dsimp only
    cases hrun : m st with
    | ok a st' =>
      rw [hrun] at hstate
      rintro _ ⟨⟩
      exact hstate
    | error e st' =>
      rw [hrun] at hstate
      rintro _ ⟨⟩
      exact hstate

lemma keeps_onBudget {α : Type} (m : EStateM Error Budget α) : Keeps (OnDisk Q) (onBudget m) :=
  Keeps.zoom fun _ _ hd => hd

lemma OnDisk.addRef {d : Durable} (h : OnDisk Q d) (b : BlockRef) : OnDisk Q (d.addRef b) := by
  intro st hst
  rw [addRef_store] at hst
  exact h st hst

lemma keeps_persistBlock (h : OfManifests Q) (payload : Bytes) (b : BlockRef) :
    Keeps (OnDisk Q) (persistBlock io payload b) := by
  refine keeps_iff.mpr fun d hd => ?_
  unfold persistBlock
  cases d.refs.lookup b.contentHash with
  | none =>
    refine Keeps.state (Keeps.bind (keeps_onStore (PersistentStore.keeps_putBlock h _)) fun _ => ?_) hd
    exact Keeps.modify fun _ hd' => hd'.addRef b
  | some n => exact hd.addRef b

/-- Keeping a payload durably. -/
lemma keeps_keep (h : OfManifests Q) {oid : ObjectId} (blockSize : ℕ) {address : Address}
    {compat : CompatKey} {byteLen createdNs : UInt64} (bytes : Bytes)
    (hm : ∀ numel blocks, Q (manifestFile oid)
      (encodeManifest (metaOf oid address compat byteLen numel createdNs blocks))) :
    Keeps (OnDisk Q) (keep io blockSize oid address compat byteLen createdNs bytes) := by
  refine Keeps.get_bind fun d => Keeps.bind Keeps.ofExcept fun plan => ?_
  refine Keeps.bind (keeps_onBudget _) fun _ => ?_
  refine Keeps.bind (Keeps.forM fun b _ => keeps_persistBlock h bytes b) fun _ => ?_
  refine Keeps.bind (keeps_onBudget _) fun _ => Keeps.bind Keeps.ofExcept fun numel => ?_
  exact keeps_onStore (PersistentStore.keeps_writeManifest h rfl (hm _ _))

lemma keeps_dropBlock (b : BlockRef) : Keeps (OnDisk Q) (dropBlock io b) := by
  refine keeps_iff.mpr fun d hd => ?_
  unfold dropBlock
  cases d.refs.lookup b.contentHash with
  | none => exact hd
  | some n =>
    dsimp only
    split_ifs
    · refine Keeps.state (Keeps.bind
        (Keeps.ignoring (keeps_onStore (PersistentStore.keeps_removeBlock _))) fun _ => ?_) hd
      exact Keeps.modify fun _ hd' => hd'
    · exact hd

lemma keeps_drop (blocks : List BlockRef) (oid : ObjectId) :
    Keeps (OnDisk Q) (drop io blocks oid) :=
  Keeps.bind (Keeps.forM fun b _ => keeps_dropBlock b) fun _ =>
    Keeps.ignoring (keeps_onStore (PersistentStore.keeps_removeManifest oid))

end Durable

/-- All files of the store of a runtime satisfy `Q`, also after a crash. -/
def Runtime.OnDisk (Q : Path → Bytes → Prop) (s : Runtime) : Prop := s.durable.OnDisk Q

lemma keeps_onDurable {α : Type} {m : EStateM Error Durable α} (hm : Keeps (Durable.OnDisk Q) m) :
    Keeps (Runtime.OnDisk Q) (onDurable m) :=
  Keeps.zoom_part hm (fun _ hs => hs) fun _ _ hd _ => hd

lemma Written.guarded (h : Written A Q) : Guarded A (Runtime.OnDisk Q) where
  update _ _ _ hs := hs
  host _ _ hs := hs
  devices _ _ hs := hs
  keep _ _ oid _ _ _ _ _ hA :=
    keeps_onDurable (Durable.keeps_keep h.other _ _ fun _ _ => h.manifest oid _ hA rfl)
  drop _ _ _ := keeps_onDurable (Durable.keeps_drop _ _)
  clean _ _ := keeps_onDurable (Durable.keeps_onStore (PersistentStore.keeps_removeManifest _))

lemma OnDisk.beginCall {s : Runtime} (hs : s.OnDisk Q) : s.beginCall.OnDisk Q := by
  intro st hst
  obtain ⟨st₀, hst₀, rfl⟩ := Option.map_eq_some_iff.mp hst
  exact PersistentStore.always_beginCall (hs st₀ hst₀).disk

/-- A call respects the property if it makes no object durable but those of `A`. -/
lemma Written.exec (h : Written A Q) {s : Runtime} {ev : Event} (hs : s.OnDisk Q)
    (hadds : ∀ oid, ev.call.adds = some (oid, .persistent) → A oid) : (s.exec ev).OnDisk Q := by
  refine h.guarded.exec (OnDisk.beginCall hs) (fun _ _ _ _ hs => hs) ?_ ?_
  · intro oid s hs
    unfold removeEntry
    split <;> exact hs
  · rintro oid _ hc rfl
    exact .inl (hadds oid hc)

lemma Written.run (h : Written A Q) {s : Runtime} {events : List Event} (hs : s.OnDisk Q)
    (hadds : ∀ ev ∈ events, ∀ oid, ev.call.adds = some (oid, .persistent) → A oid) :
    (s.run events).OnDisk Q := by
  induction events generalizing s with
  | nil => exact hs
  | cons ev events ih =>
    exact ih (h.exec hs (hadds ev List.mem_cons_self)) fun ev' hev' =>
      hadds ev' (List.mem_cons_of_mem _ hev')

/-- What a session leaves behind. -/
lemma OnDisk.leaves {s : Runtime} {disk disk' : Disk} (hs : s.OnDisk Q) (hdisk : AllFiles Q disk)
    (h : Leaves s disk disk') : AllFiles Q disk' := by
  unfold Leaves at h
  cases hst : s.persistent with
  | none =>
    rw [hst] at h
    rw [show disk' = disk from h]
    exact hdisk
  | some st =>
    rw [hst] at h
    exact hs st hst disk' h

end Written

/-! ### Recovery -/

section Recover

variable {env : Env} {st : PersistentStore}

lemma foldl_addRef_store (bs : List BlockRef) (d : Durable) :
    (bs.foldl (fun d b => d.addRef b) d).store = d.store := by
  induction bs generalizing d with
  | nil => rfl
  | cons b bs ih => exact (ih _).trans (Durable.addRef_store b d)

lemma persistent_recover (s : Runtime) : (recover env s).1.persistent = s.persistent := by
  have hone : ∀ (st : PersistentStore) acc m,
      (recoverOne env st acc m).1.persistent = acc.1.persistent := by
    intro st acc m
    unfold recoverOne
    split
    · rfl
    · split_ifs
      · exact foldl_addRef_store m.blocks acc.1.durable
      · rfl
  have hloop : ∀ (st : PersistentStore) ms acc,
      (List.foldl (recoverOne env st) acc ms).1.persistent = acc.1.persistent := by
    intro st ms
    induction ms with
    | nil => exact fun acc => rfl
    | cons m ms ih => exact fun acc => (ih _).trans (hone st acc m)
  unfold recover
  split
  · rfl
  · exact hloop _ _ _

/-- Recovery admits the objects that have a manifest with all its blocks. -/
lemma isSome_recoverLoop (oid : ObjectId) (ms : List PersistEntryMeta)
    (acc : Runtime × RecoveryReport) :
    ((ms.foldl (recoverOne env st) acc).1.entries.lookup oid.toHex).isSome ↔
      (acc.1.entries.lookup oid.toHex).isSome ∨
        ∃ m ∈ ms, ObjectId.fromHex m.objectId = .ok oid ∧ st.blocksExist m.blocks := by
  induction ms generalizing acc with
  | nil => simp
  | cons m ms ih =>
    have hone : ((recoverOne env st acc m).1.entries.lookup oid.toHex).isSome ↔
        (acc.1.entries.lookup oid.toHex).isSome ∨
          ObjectId.fromHex m.objectId = .ok oid ∧ st.blocksExist m.blocks := by
      unfold recoverOne
      cases hhex : ObjectId.fromHex m.objectId with
      | error e => simp
      | ok oid' =>
        by_cases hexist : st.blocksExist m.blocks = true
        · simp only [hexist, if_true, insertEntry]
          by_cases heq : oid' = oid
          · subst heq
            simp
          · have hne : oid.toHex ≠ oid'.toHex := fun h => heq (ObjectId.toHex_injective h).symm
            have hsame : (acc.1.setDurable
                (m.blocks.foldl (fun d b => d.addRef b) acc.1.durable)).entries = acc.1.entries := rfl
            simp [AList.lookup_insert_ne hne, heq, hsame]
        · simp [hexist]
    rw [List.foldl_cons, ih, hone]
    simp only [List.mem_cons, exists_eq_or_imp]
    tauto

variable {config : RuntimeConfig} {extra : List Backend} {disk : Disk} {pid : ℕ} {s : Runtime}

lemma onDisk_new {Q : Path → Bytes → Prop} (hdisk : AllFiles Q disk)
    (hnew : new env config extra disk pid = .ok s) : s.OnDisk Q := by
  unfold new at hnew
  split_ifs at hnew
  cases hnew
  intro st hst
  rw [show (durable _).store = _ from persistent_recover _] at hst
  obtain ⟨_, -, rfl⟩ := Option.map_eq_some_iff.mp hst
  exact (PersistentStore.openOn_spec hdisk env.io pid).1

/-- A runtime with a store begins with the objects that recovery admits. -/
lemma isSome_new (hstore : config.persistentPath.isSome)
    (hnew : new env config extra disk pid = .ok s) (oid : ObjectId) :
    (s.entries.lookup oid.toHex).isSome ↔
      ∃ m ∈ (PersistentStore.openOn env.io disk pid).recover, ObjectId.fromHex m.objectId = .ok oid ∧
        (PersistentStore.openOn env.io disk pid).blocksExist m.blocks := by
  obtain ⟨path, hpath⟩ := Option.isSome_iff_exists.mp hstore
  unfold new at hnew
  split_ifs at hnew
  rw [hpath] at hnew
  cases hnew
  exact (isSome_recoverLoop oid _ _).trans (by simp [initial])

end Recover

/-! ### Manifests that are left behind -/

/-- A manifest that is written is read back with its object id, if at all. -/
lemma objectId_of_decode {m m' : PersistEntryMeta}
    (h : decodeManifest (encodeManifest m) = .ok m') : m'.objectId = m.objectId := by
  obtain ⟨body, hdata, hread, -⟩ := decodeManifest_eq_ok h
  obtain ⟨rfl, -⟩ := canonical_manifest hread
  rw [List.append_nil, encodeManifest] at hdata
  simp only [manifestBody, List.append_assoc, List.append_cancel_left_eq] at hdata
  have hstr := congrArg Reader.str hdata
  rw [reads_str, reads_str] at hstr
  exact (congrArg Prod.fst (Except.ok.inj hstr)).symm

/-- A manifest is in the file of its object. -/
def Named (path : Path) (c : Bytes) : Prop :=
  IsManifest path → ∀ m, decodeManifest c = .ok m →
    ∃ oid, path = manifestFile oid ∧ m.objectId = oid.toHex

/-- No manifest of the object. -/
def Gone (oid : ObjectId) (path : Path) (c : Bytes) : Prop :=
  IsManifest path → ∀ m, decodeManifest c = .ok m → ObjectId.fromHex m.objectId ≠ .ok oid

lemma written_named : Written (fun _ => True) Named where
  other _ _ hpath h := absurd h hpath
  manifest oid _ _ hoid _ _ hm' := ⟨oid, rfl, (objectId_of_decode hm').trans hoid⟩

lemma written_gone (oid : ObjectId) : Written (· ≠ oid) (Gone oid) where
  other _ _ hpath h := absurd h hpath
  manifest _ _ hne hoid' _ _ hm' heq := by
    rw [objectId_of_decode hm', hoid', ObjectId.fromHex_toHex] at heq
    exact hne (Except.ok.inj heq)

lemma History.named {sizes : Set ℕ} {disk : Disk} {log : List Registration}
    (h : History sizes disk log) : AllFiles Named disk := by
  induction h with
  | empty =>
    intro path c hc
    simp at hc
  | session ss _ _ hstart hleaves ih =>
    exact OnDisk.leaves (written_named.run (onDisk_new ih hstart) fun _ _ _ _ => trivial) ih hleaves

/-- The manifest of the object, if there is one, has all its blocks. -/
def Whole (oid : ObjectId) (disk : Disk) : Prop :=
  ∀ c m, disk.lookup (manifestFile oid) = some c → decodeManifest c = .ok m →
    ∀ b ∈ m.blocks, (disk.lookup (blockFile b.contentHash)).isSome

section Absent

variable {oid : ObjectId} {disk : Disk} {env : Env} {config : RuntimeConfig}
  {extra : List Backend} {pid : ℕ} {s : Runtime}

/-- An object without a manifest is absent after a restart. -/
lemma absent_of_gone (hgone : AllFiles (Gone oid) disk)
    (hnew : new env config extra disk pid = .ok s) : s.entries.lookup oid.toHex = none := by
  by_contra hsome
  rw [← ne_eq, Option.ne_none_iff_isSome] at hsome
  cases hpath : config.persistentPath with
  | none =>
    unfold new at hnew
    split_ifs at hnew
    rw [hpath] at hnew
    cases hnew
    simp [recover, initial] at hsome
  | some path =>
    obtain ⟨m, hm, hhex, -⟩ := (isSome_new (by rw [hpath]; rfl) hnew oid).mp hsome
    obtain ⟨path, c, hc, hmanifest, hdecode⟩ := PersistentStore.mem_recover.mp hm
    have halways := (PersistentStore.openOn_spec hgone env.io pid).1
    exact halways.disk path c hc hmanifest m hdecode hhex

/-- An object that is absent after a restart has no manifest, unless one was passed over. -/
lemma gone_of_absent (hnamed : AllFiles Named disk) (hstore : config.persistentPath.isSome)
    (hnew : new env config extra disk pid = .ok s)
    (habsent : s.entries.lookup oid.toHex = none) (hwhole : Whole oid disk) :
    AllFiles (Gone oid) disk := by
  intro path c hc hmanifest m hdecode hhex
  obtain ⟨oid', rfl, hoid'⟩ := hnamed path c hc hmanifest m hdecode
  rw [hoid', ObjectId.fromHex_toHex] at hhex
  cases hhex
  obtain ⟨-, hkept, -⟩ := PersistentStore.openOn_spec hnamed env.io pid
  have hsome : (s.entries.lookup oid.toHex).isSome := by
    refine (isSome_new hstore hnew oid).mpr ⟨m, ?_, by rw [hoid', ObjectId.fromHex_toHex], ?_⟩
    · refine PersistentStore.mem_recover.mpr ⟨manifestFile oid, c, ?_, hmanifest, hdecode⟩
      rw [hkept _ (isLeftover_manifestFile oid), hc]
    · refine List.all_eq_true.mpr fun b hb => ?_
      simp only [PersistentStore.blockExists, blockPath_eq]
      rw [hkept _ (isLeftover_blockFile _)]
      exact hwhole c m hc hdecode b hb
  rw [habsent] at hsome
  cases hsome

end Absent

/-! ### Sessions -/

/-- The object is registered again and made durable. -/
def Revives (oid : ObjectId) (events : List Event) : Prop :=
  ∃ ev ev', [ev, ev'].Sublist events ∧
    (∃ r, ev.call = .register r ∧ r.address.objectId = oid) ∧
    ev'.call.adds = some (oid, .persistent)

section Runs

variable {oid : ObjectId} {s : Runtime} {ev : Event} {events : List Event}

lemma stable_missing (oid : ObjectId) : Stable fun s => s.entries.lookup oid.toHex = none where
  update s oid' f hs := by
    change (s.entries.modify _ _).lookup _ = none
    by_cases heq : oid.toHex = oid'.toHex
    · rw [heq, AList.lookup_modify_self, ← heq, hs, Option.map_none]
    · rw [AList.lookup_modify_ne heq, hs]
  host _ _ hs := hs
  devices _ _ hs := hs
  durable _ _ hs := hs

/-- A missing object stays missing, with no manifest, until it is registered. -/
lemma missing_exec (hgone : s.OnDisk (Gone oid)) (hnone : s.entries.lookup oid.toHex = none)
    (hother : ∀ r, ev.call = .register r → r.address.objectId ≠ oid) :
    (s.exec ev).OnDisk (Gone oid) ∧ (s.exec ev).entries.lookup oid.toHex = none := by
  refine ((written_gone oid).guarded.and (stable_missing oid)).exec
    ⟨OnDisk.beginCall hgone, hnone⟩ ?_ ?_ ?_
  · intro r e s hr hs
    have hne : oid.toHex ≠ r.address.objectId.toHex := fun h =>
      hother r hr (ObjectId.toHex_injective h).symm
    exact ⟨hs.1, (AList.lookup_insert_ne hne).trans hs.2⟩
  · intro oid' s hs
    unfold removeEntry
    split
    · refine ⟨hs.1, ?_⟩
      change (s.entries.erase _).lookup _ = none
      rw [AList.lookup_erase_eq_ite]
      split_ifs
      · rfl
      · exact hs.2
    · exact hs
  · rintro oid' _ - rfl
    by_cases heq : oid' = oid
    · subst heq
      exact .inr fun s hs => hs.2
    · exact .inl heq

/-- A run that does not register the object and make it durable writes no manifest of it. -/
lemma gone_run (hgone : s.OnDisk (Gone oid)) (hnone : s.entries.lookup oid.toHex = none)
    (hnot : ¬Revives oid events) : (s.run events).OnDisk (Gone oid) := by
  induction events generalizing s with
  | nil => exact hgone
  | cons ev events ih =>
    by_cases hregister : ∃ r, ev.call = .register r ∧ r.address.objectId = oid
    · -- from here on nothing makes the object durable
      refine (written_gone oid).run hgone ?_
      rintro ev' hev' oid' hadds rfl
      rcases List.mem_cons.mp hev' with rfl | hev'
      · obtain ⟨r, hr, -⟩ := hregister
        rw [hr] at hadds
        cases hadds
      · exact hnot ⟨ev, ev', List.cons_sublist_cons.mpr (List.singleton_sublist.mpr hev'),
          hregister, hadds⟩
    · have hother : ∀ r, ev.call = .register r → r.address.objectId ≠ oid :=
        fun r hr heq => hregister ⟨r, hr, heq⟩
      obtain ⟨hgone', hnone'⟩ := missing_exec hgone hnone hother
      refine ih hgone' hnone' ?_
      rintro ⟨ev₁, ev₂, hsub, h⟩
      exact hnot ⟨ev₁, ev₂, hsub.cons ev, h⟩

end Runs

/-- The files after more sessions, in none of which the object is registered again and made
durable. A session ends between two calls or at any filesystem step of its last call. -/
inductive Meanwhile (oid : ObjectId) (disk : Disk) : Disk → Prop where
  | now : Meanwhile oid disk disk
  | session {disk₁ disk₂ : Disk} {s : Runtime} (ss : Session) (h : Meanwhile oid disk disk₁)
      (hstart : ss.start disk₁ = .ok s) (hnot : ¬Revives oid ss.events)
      (hleaves : Leaves (s.run ss.events) disk₁ disk₂) : Meanwhile oid disk disk₂

lemma Meanwhile.gone {oid : ObjectId} {disk disk' : Disk} (h : Meanwhile oid disk disk')
    (hgone : AllFiles (Gone oid) disk) : AllFiles (Gone oid) disk' := by
  induction h with
  | now => exact hgone
  | session ss _ hstart hnot hleaves ih =>
    exact OnDisk.leaves (gone_run (onDisk_new ih hstart) (absent_of_gone ih hstart) hnot) ih hleaves

/-- Deleted objects do not come back. An object that is absent after a restart stays absent after
every later restart until it is registered again and made durable, whatever else happens to the
store, if the restart did not pass over a manifest of the object for want of its blocks. -/
theorem deleted_stays_absent {sizes : Set ℕ} {disk disk' : Disk} {log : List Registration}
    {env env' : Env} {config config' : RuntimeConfig} {extra extra' : List Backend} {pid pid' : ℕ}
    {s s' : Runtime} {oid : ObjectId} (hist : History sizes disk log)
    (hstore : config.persistentPath.isSome) (hnew : new env config extra disk pid = .ok s)
    (habsent : s.entries.lookup oid.toHex = none) (hwhole : Whole oid disk)
    (hlater : Meanwhile oid disk disk') (hnew' : new env' config' extra' disk' pid' = .ok s') :
    s'.entries.lookup oid.toHex = none :=
  absent_of_gone (hlater.gone (gone_of_absent hist.named hstore hnew habsent hwhole)) hnew'

/-! ### A crash in a deletion -/

/-- A runtime with blocks of two bytes on the files of a directory. -/
def openStore (disk : Disk) : Runtime :=
  (recover {} (initial (storeConfig 2) [] (some (PersistentStore.openOn ({} : Env).io disk 0)))).1

lemma new_openStore (disk : Disk) : new {} (storeConfig 2) [] disk 0 = .ok (openStore disk) := rfl

/-- A session that makes a tensor durable and deletes it. -/
def deletingSession (r : Registration) : Session :=
  { persistSession 2 r with
    events := (persistSession 2 r).events ++ [⟨{}, .delete r.address.objectId⟩] }

/-- The files when a runtime ends after `k` filesystem steps of its last call. -/
def Runtime.filesAfter (k : ℕ) (s : Runtime) (disk : Disk) : Disk :=
  match s.persistent with
  | none => disk
  | some st => replay (st.journal.take k) st.base

lemma leaves_filesAfter (k : ℕ) (s : Runtime) (disk : Disk) :
    Leaves s disk (s.filesAfter k disk) := by
  unfold Leaves Runtime.filesAfter
  cases s.persistent with
  | none => rfl
  | some st => exact crashes_take _ _ _

lemma not_revives {oid : ObjectId} {events : List Event}
    (h : ∀ r ∈ events.flatMap fun ev => ev.call.registration, r.address.objectId ≠ oid) :
    ¬Revives oid events := by
  rintro ⟨ev, ev', hsub, ⟨r, hr, hoid⟩, -⟩
  refine h r (List.mem_flatMap.mpr ⟨ev, hsub.subset List.mem_cons_self, ?_⟩) hoid
  rw [hr]
  exact List.mem_singleton_self r

/-- The deletion is completed, and another tensor with the same bytes is made durable. -/
theorem deleted_stays_absent_bytePair :
    ∃ disk disk', disk = ((openStore ∅).run (deletingSession (bytePair 0 1 2)).events).files ∅ ∧
      disk' = ((openStore disk).run (persistSession 2 (bytePair 1 1 2)).events).files disk ∧
      (openStore disk').entries.lookup (bytePair 0 1 2).address.objectId.toHex = none := by
  have hstart : (deletingSession (bytePair 0 1 2)).start ∅ = .ok (openStore ∅) := new_openStore ∅
  have hist : History {2} _ _ :=
    History.session (deletingSession (bytePair 0 1 2)) History.empty rfl hstart (leaves_files _ _)
  have habsent : (openStore (((openStore ∅).run (deletingSession (bytePair 0 1 2)).events).files
      ∅)).entries.lookup (bytePair 0 1 2).address.objectId.toHex = none := by decide +kernel
  have hnone : (((openStore ∅).run (deletingSession (bytePair 0 1 2)).events).files ∅).lookup
      (manifestFile (bytePair 0 1 2).address.objectId) = none := by decide +kernel
  have hnot : ¬Revives (bytePair 0 1 2).address.objectId (persistSession 2 (bytePair 1 1 2)).events :=
    not_revives (by decide +kernel)
  generalize ((openStore ∅).run (deletingSession (bytePair 0 1 2)).events).files ∅ = disk
    at hist habsent hnone ⊢
  have hwhole : Whole (bytePair 0 1 2).address.objectId disk := fun c m hc => by
    rw [hnone] at hc
    cases hc
  have hlater := Meanwhile.session (persistSession 2 (bytePair 1 1 2)) .now (new_openStore disk) hnot
    (leaves_files _ disk)
  exact ⟨disk, _, rfl, rfl,
    deleted_stays_absent hist rfl (new_openStore disk) habsent hwhole hlater (new_openStore _)⟩

/-- A crash after the deletion has removed the block leaves the manifest. The object is absent
after the restart; once another tensor has brought the block back, it is there again. -/
theorem deleted_comes_back :
    ∃ disk log disk', History {2} disk log ∧
      new {} (storeConfig 2) [] disk 0 = .ok (openStore disk) ∧
      (openStore disk).entries.lookup (bytePair 0 1 2).address.objectId.toHex = none ∧
      Meanwhile (bytePair 0 1 2).address.objectId disk disk' ∧
      new {} (storeConfig 2) [] disk' 0 = .ok (openStore disk') ∧
      ((openStore disk').entries.lookup (bytePair 0 1 2).address.objectId.toHex).isSome = true := by
  have hstart : (deletingSession (bytePair 0 1 2)).start ∅ = .ok (openStore ∅) := new_openStore ∅
  have hist : History {2} _ _ :=
    History.session (deletingSession (bytePair 0 1 2)) History.empty rfl hstart (leaves_filesAfter 1 _ _)
  have hnot : ¬Revives (bytePair 0 1 2).address.objectId (persistSession 2 (bytePair 1 1 2)).events :=
    not_revives (by decide +kernel)
  refine ⟨_, _, _, hist, new_openStore _, ?_,
    .session (persistSession 2 (bytePair 1 1 2)) .now (new_openStore _) hnot (leaves_files _ _),
    new_openStore _, ?_⟩
  · decide +kernel
  · decide +kernel

end TensorCache
