import TensorCache.RecoveryCounts
import TensorCache.Runtime.Reachable

/-!
# Lookups

A lookup compares digests: the entry is found under the object id of the address, and its key is
accepted if it has the compatibility id of the one asked for. In a runtime that reads only what
runtimes have written (`Own`), every entry is under the object id of its own address and has the
id of its own key. Both encodings are injective, so as far as digests do not collide a lookup
answers for exactly the address and the key it is asked for.
-/

namespace TensorCache

open Codec EStateM TensorCache.Runtime

/-! ### Manifests that calls write -/

section Rule

variable {Q : Path → Bytes → Prop} {env : Env} {s : Runtime} {oid : ObjectId} {t : Tier}

/-- The manifests that could be written for the entries satisfy `Q`. -/
def Runtime.Describes (Q : Path → Bytes → Prop) (s : Runtime) : Prop :=
  ∀ (oid : ObjectId) e, s.entries.lookup oid.toHex = some e → ∀ numel blocks,
    Q (manifestFile oid) (encodeManifest
      (Durable.metaOf oid e.address e.compat e.byteLen numel e.createdNs blocks))

variable (hQ : OfManifests Q)
include hQ

/-- Whatever makes no object durable keeps a property of manifests. -/
lemma OfManifests.guarded : Guarded (fun _ => False) (Runtime.OnDisk Q) :=
  Written.guarded ⟨hQ, fun _ _ h => h.elim⟩

lemma OnDisk.addPlacement (hs : s.OnDisk Q) (hm : s.Describes Q) (bytes : Bytes) :
    (addPlacement env oid t bytes s).state.OnDisk Q := by
  by_cases ht : t = .persistent
  swap
  · exact (hQ.guarded.addPlacement (fun h => absurd h ht) bytes).state hs
  subst ht
  refine Triple.state (P := (· = s)) (I := Runtime.OnDisk Q) ?_ rfl
  have hstop : ∀ s', s' = s → s'.OnDisk Q := by
    rintro s rfl
    exact hs
  refine Triple.get_bind ?_
  rintro s rfl
  cases he : s.getMeta oid with
  | error err => exact Triple.throw hstop
  | ok e =>
    rw [ofExcept_ok_bind]
    refine Triple.ite (fun _ => Triple.throw hstop) fun _ => ?_
    refine Triple.bind (Q := fun _ => Runtime.OnDisk Q) ?_ fun _ => Triple.modify fun s' hs' => hs'
    refine (keeps_onDurable (Durable.keeps_keep hQ _ bytes ?_)).from_state hs
    exact hm oid e (getMeta_eq_ok.mp he)

/-- A property of manifests is kept by a call, if the manifests of the entries have it. -/
theorem OnDisk.exec (hledger : Ledger s) (hs : s.OnDisk Q) (hm : s.Describes Q) (ev : Event) :
    (s.exec ev).OnDisk Q := by
  have hledger₀ : Ledger s.beginCall := ⟨hledger.budget, hledger.reserved⟩
  have hs₀ : s.beginCall.OnDisk Q := OnDisk.beginCall hs
  have hrule : Obligations ev.env ev.call s.beginCall (fun s => Ledger s ∧ s.OnDisk Q)
      (fun s => s.OnDisk Q) := by
    refine ⟨⟨hledger₀, hs₀⟩, fun s hs => hs.1.fits, fun s oid f hf hs => ?_,
      fun oid t bytes hadds _ hres => ?_, fun s oid t hrem hs => ?_,
      fun r byteLen numel blocks s hc hcheck hs hkeys hfits => ?_,
      fun s oid e hc hs he hempty => ?_, fun s oid hc hs he => ?_, fun _ _ hs => hs.2⟩
    · exact ⟨⟨hs.1.budget, hs.1.reserved⟩, hs.2⟩
    · exact ⟨hledger₀.addPlacement ev.env oid t bytes, OnDisk.addPlacement hQ hs₀ hm bytes⟩
    · exact ⟨hs.1.removePlacement ev.env oid t, hQ.guarded.removePlacement.state hs.2⟩
    · obtain ⟨acquired, host, hrun, hledger⟩ := hs.1.takeIn hfits r.payload blocks
      refine ⟨insertEntry r.address.objectId.toHex (newEntry ev.env r byteLen numel blocks acquired)
        (s.setHostTier host), ?_, hledger.fits, fun _ => hs.2⟩
      change EStateM.bind _ _ s = _
      simp only [EStateM.bind, hrun]
      rfl
    · rw [removeEntry, he]
      exact ⟨⟨hs.1.budget, hs.1.reserved⟩, hs.2⟩
    · refine ⟨?_, (hQ.guarded.clean ev.env.io oid).state hs.2⟩
      rw [removeManifest_state]
      exact ⟨hs.1.budget, hs.1.reserved⟩
  have hrun := Runtime.call_rule hrule s.beginCall rfl
  unfold Runtime.exec
  cases hcall : Runtime.call ev.env ev.call s.beginCall with
  | ok a s' =>
    rw [hcall] at hrun
    exact hrun
  | error err s' =>
    rw [hcall] at hrun
    exact hrun.2

end Rule

/-! ### Runtimes that read only what runtimes have written -/

/-- The states of runtimes on a directory that was empty at first and that only they have changed.
The files are those the runtime was opened on; the one before it may have ended anywhere. -/
inductive Own : Disk → Runtime → Prop where
  | new {env : Env} {config : RuntimeConfig} {extra : List Backend} {pid : ℕ} {s : Runtime}
      (h : new env config extra ∅ pid = .ok s) : Own ∅ s
  | exec {disk : Disk} {s : Runtime} (h : Own disk s) (ev : Event) : Own disk (s.exec ev)
  | recover {disk : Disk} {s : Runtime} (h : Own disk s) (env : Env) : Own disk (recover env s).1
  | reopen {disk disk' : Disk} {s s' : Runtime} {env : Env} {config : RuntimeConfig}
      {extra : List Backend} {pid : ℕ} (h : Own disk s) (hleaves : Leaves s disk disk')
      (hnew : Runtime.new env config extra disk' pid = .ok s') : Own disk' s'

/-- An entry is under the object id of its address, and has the id of its key. -/
def OwnEntry (k : Str) (e : Entry) : Prop :=
  k = e.address.objectId.toHex ∧ e.compatId = e.compat.compatId

/-- A manifest names the object at its address. -/
def OwnManifest (path : Path) (c : Bytes) : Prop :=
  IsManifest path → ∀ m, decodeManifest c = .ok m →
    m.objectId = (Address.objectId ⟨m.nameSpace, m.key, m.generation⟩).toHex

lemma ofManifests_own : OfManifests OwnManifest := fun _ _ hpath h => absurd h hpath

/-- A manifest that is written is read back with its object id and its address, if at all. -/
lemma address_of_decode {m m' : PersistEntryMeta}
    (h : decodeManifest (encodeManifest m) = .ok m') :
    m'.objectId = m.objectId ∧ m'.nameSpace = m.nameSpace ∧ m'.key = m.key ∧
      m'.generation = m.generation := by
  obtain ⟨body, hdata, hread, -⟩ := decodeManifest_eq_ok h
  obtain ⟨rfl, -⟩ := canonical_manifest hread
  rw [List.append_nil, encodeManifest] at hdata
  simp only [manifestBody, List.append_assoc, List.append_cancel_left_eq] at hdata
  obtain ⟨hobject, hdata⟩ := reads_str.prefixFree _ _ _ _ hdata
  obtain ⟨hname, hdata⟩ := reads_str.prefixFree _ _ _ _ hdata
  obtain ⟨hkey, hdata⟩ := reads_str.prefixFree _ _ _ _ hdata
  obtain ⟨hgeneration, -⟩ := reads_u64.prefixFree _ _ _ _ hdata
  exact ⟨hobject.symm, hname.symm, hkey.symm, hgeneration.symm⟩

section Own

variable {disk : Disk} {s : Runtime} {env : Env}

/-- Entries under their own ids. -/
def Runtime.OwnEntries (s : Runtime) : Prop := ∀ k e, s.entries.lookup k = some e → OwnEntry k e

lemma Runtime.OwnEntries.describes (h : s.OwnEntries) : s.Describes OwnManifest := by
  intro oid e he numel blocks _ m hm
  obtain ⟨hobject, hname, hkey, hgeneration⟩ := address_of_decode hm
  rw [hobject, hname, hkey, hgeneration]
  exact (h _ e he).1

lemma Runtime.OwnEntries.recover (h : s.OwnEntries) (hs : s.OnDisk OwnManifest) (env : Env) :
    (recover env s).1.OwnEntries := by
  unfold OwnEntries
  rw [recover_eq]
  refine forall_takeBack h fun f hf => ⟨?_, rfl⟩
  obtain ⟨st, hst, hm, hhex⟩ := mem_found hf
  obtain ⟨path, c, hc, hmanifest, hdecode⟩ := PersistentStore.mem_recover.mp hm
  rw [(hs st hst).disk path c hc hmanifest f.2 hdecode, ObjectId.fromHex_toHex] at hhex
  rw [← Except.ok.inj hhex]
  rfl

lemma Runtime.OwnEntries.exec (h : s.OwnEntries) (hledger : Ledger s) (ev : Event) :
    (s.exec ev).OwnEntries := by
  refine (hledger.exec (Moves.forall_entries (P := OwnEntry) h ?_ ?_ ?_)).2
  · intro k e f hf he
    obtain ⟨reuse, lastUse, durable, hf⟩ := hf e
    rw [hf]
    exact he
  · exact fun k e placements he => he
  · exact fun r byteLen numel blocks acquired _ => ⟨rfl, rfl⟩

lemma ownEntries_new {config : RuntimeConfig} {extra : List Backend} {pid : ℕ}
    (hdisk : AllFiles OwnManifest disk) (hnew : new env config extra disk pid = .ok s) :
    s.OwnEntries := by
  unfold new at hnew
  split_ifs at hnew
  cases hnew
  refine OwnEntries.recover (fun k e he => ?_) (fun st hst => ?_) env
  · simp [initial] at he
  · obtain ⟨_, -, rfl⟩ := Option.map_eq_some_iff.mp hst
    exact (PersistentStore.openOn_spec hdisk env.io pid).1

lemma onDisk_recover {Q : Path → Bytes → Prop} (hs : s.OnDisk Q) (env : Env) :
    (recover env s).1.OnDisk Q := by
  intro st hst
  rw [show (durable _).store = _ from persistent_recover _] at hst
  exact hs st hst

/-- A runtime of this kind can be reached. -/
lemma Own.reachable (h : Own disk s) : Reachable s := by
  induction h with
  | new h => exact .new h
  | exec _ ev ih => exact ih.exec ev
  | recover _ env ih => exact ih.recover env
  | reopen _ _ hnew _ => exact .new hnew

/-- All manifests and all entries are own ones. -/
theorem Own.spec (h : Own disk s) :
    AllFiles OwnManifest disk ∧ s.OnDisk OwnManifest ∧ s.OwnEntries := by
  induction h with
  | new h =>
    have hnone : AllFiles OwnManifest ∅ := by
      intro path c hc
      simp at hc
    exact ⟨hnone, onDisk_new hnone h, ownEntries_new hnone h⟩
  | exec hown ev ih =>
    obtain ⟨hdisk, hs, hentries⟩ := ih
    have hledger := hown.reachable.ledger
    exact ⟨hdisk, OnDisk.exec ofManifests_own hledger hs hentries.describes ev,
      hentries.exec hledger ev⟩
  | recover _ env ih =>
    obtain ⟨hdisk, hs, hentries⟩ := ih
    exact ⟨hdisk, onDisk_recover hs env, hentries.recover hs env⟩
  | reopen _ hleaves hnew ih =>
    have hdisk := OnDisk.leaves ih.2.1 ih.1 hleaves
    exact ⟨hdisk, onDisk_new hdisk hnew, ownEntries_new hdisk hnew⟩

end Own

/-! ### The answer to a lookup -/

/-- The encodings of the address asked for and of the addresses in the table. -/
def addressesInvolved (s : Runtime) (address : Address) : Set Bytes :=
  insert address.encode { b | ∃ k e, s.entries.lookup k = some e ∧ b = e.address.encode }

/-- The encodings of the key asked for and of the keys in the table. -/
def keysInvolved (s : Runtime) (compat : CompatKey) : Set Bytes :=
  insert compat.encode { b | ∃ k e, s.entries.lookup k = some e ∧ b = e.compat.encode }

section Answer

variable {disk : Disk} {s : Runtime} {env : Env} {address : Address} {compat : CompatKey}
  {k : Str} {e : Entry}

/-- The entry under the object id of the address is the one with this address. -/
lemma lookup_iff_address (hown : s.OwnEntries)
    (haddresses : CollisionFree (addressesInvolved s address)) :
    s.entries.lookup address.objectId.toHex = some e ↔
      (∃ k, s.entries.lookup k = some e) ∧ e.address = address := by
  constructor
  · intro he
    refine ⟨⟨_, he⟩, Address.encode_injective ?_⟩
    have hid := ObjectId.toHex_injective (hown _ e he).1
    exact haddresses (Or.inr ⟨_, e, he, rfl⟩) (Or.inl rfl) (ObjectId.mk.inj hid.symm)
  · rintro ⟨⟨k, he⟩, rfl⟩
    rw [← (hown k e he).1]
    exact he

/-- An entry has the compatibility id of its own key only. -/
lemma compatId_iff (hown : s.OwnEntries) (hkeys : CollisionFree (keysInvolved s compat))
    (he : s.entries.lookup k = some e) : e.compatId = compat.compatId ↔ e.compat = compat := by
  rw [(hown k e he).2]
  constructor
  · intro hid
    exact CompatKey.encode_injective (hkeys (Or.inr ⟨k, e, he, rfl⟩) (Or.inl rfl) hid)
  · rintro rfl
    rfl

/-- What a lookup answers. -/
lemma lookup_cases (env : Env) (address : Address) (compat : CompatKey) (s : Runtime) :
    (s.entries.lookup address.objectId.toHex = none ∧
      ∃ msg, lookup env address compat s = .error (.notFound msg) s) ∨
    ∃ e, s.entries.lookup address.objectId.toHex = some e ∧
      ((e.compatId ≠ compat.compatId ∧
          ∃ msg, lookup env address compat s = .error (.compatibility msg) s) ∨
        (e.compatId = compat.compatId ∧ ∃ result s', lookup env address compat s = .ok result s')) := by
  unfold Runtime.lookup
  rw [get_bind_apply]
  cases he : s.entries.lookup address.objectId.toHex with
  | none => exact Or.inl ⟨rfl, _, rfl⟩
  | some e =>
    refine Or.inr ⟨e, rfl, ?_⟩
    dsimp only
    by_cases hid : e.compatId = compat.compatId
    · rw [if_neg (not_not.mpr hid)]
      exact Or.inr ⟨hid, _, _, rfl⟩
    · rw [if_pos hid]
      exact Or.inl ⟨hid, _, rfl⟩

/-- No false hits. A lookup succeeds exactly if there is an entry with this address and this key,
it reports an incompatible key exactly if there is one with this address and another key, and it
finds nothing exactly if there is none with this address. -/
theorem lookup_exact (h : Own disk s) (env : Env) (address : Address) (compat : CompatKey)
    (haddresses : CollisionFree (addressesInvolved s address))
    (hkeys : CollisionFree (keysInvolved s compat)) :
    ((∃ result s', lookup env address compat s = .ok result s') ↔
        ∃ k e, s.entries.lookup k = some e ∧ e.address = address ∧ e.compat = compat) ∧
      ((∃ msg s', lookup env address compat s = .error (.compatibility msg) s') ↔
        ∃ k e, s.entries.lookup k = some e ∧ e.address = address ∧ e.compat ≠ compat) ∧
      ((∃ msg s', lookup env address compat s = .error (.notFound msg) s') ↔
        ∀ k e, s.entries.lookup k = some e → e.address ≠ address) := by
  have hown := h.spec.2.2
  have hfound : ∀ k e, s.entries.lookup k = some e → e.address = address →
      s.entries.lookup address.objectId.toHex = some e :=
    fun k e he haddress => (lookup_iff_address hown haddresses).mpr ⟨⟨k, he⟩, haddress⟩
  rcases lookup_cases env address compat s with ⟨hnone, msg, hrun⟩ | ⟨e, he, hcase⟩
  · have hno : ∀ k e, s.entries.lookup k = some e → e.address ≠ address := by
      intro k e he haddress
      rw [hfound k e he haddress] at hnone
      cases hnone
    rw [hrun]
    refine ⟨⟨?_, ?_⟩, ⟨?_, ?_⟩, fun _ => hno, fun _ => ⟨msg, s, rfl⟩⟩
    · rintro ⟨_, _, ⟨⟩⟩
    · rintro ⟨k, e, he, haddress, -⟩
      exact absurd haddress (hno k e he)
    · rintro ⟨_, _, ⟨⟩⟩
    · rintro ⟨k, e, he, haddress, -⟩
      exact absurd haddress (hno k e he)
  · have haddress := ((lookup_iff_address hown haddresses).mp he).2
    have honly : ∀ k e', s.entries.lookup k = some e' → e'.address = address → e' = e := by
      intro k e' he' haddress'
      rw [hfound k e' he' haddress'] at he
      exact Option.some.inj he
    have hiff := compatId_iff hown hkeys he
    rcases hcase with ⟨hid, msg, hrun⟩ | ⟨hid, result, s', hrun⟩
    · rw [hrun]
      refine ⟨⟨?_, ?_⟩, ⟨fun _ => ⟨_, e, he, haddress, fun heq => hid (hiff.mpr heq)⟩,
        fun _ => ⟨msg, s, rfl⟩⟩, ?_, fun hno => absurd haddress (hno _ e he)⟩
      · rintro ⟨_, _, ⟨⟩⟩
      · rintro ⟨k, e', he', haddress', hcompat⟩
        rw [honly k e' he' haddress'] at hcompat
        exact absurd (hiff.mpr hcompat) hid
      · rintro ⟨_, _, ⟨⟩⟩
    · rw [hrun]
      refine ⟨⟨fun _ => ⟨_, e, he, haddress, hiff.mp hid⟩, fun _ => ⟨result, s', rfl⟩⟩,
        ⟨?_, ?_⟩, ?_, fun hno => absurd haddress (hno _ e he)⟩
      · rintro ⟨_, _, ⟨⟩⟩
      · rintro ⟨k, e', he', haddress', hcompat⟩
        rw [honly k e' he' haddress'] at hcompat
        exact absurd (hiff.mp hid) hcompat
      · rintro ⟨_, _, ⟨⟩⟩

end Answer

/-- A registered pair of bytes is found, with its key. -/
theorem lookup_exact_bytePair :
    ∃ s result s', Own ∅ s ∧ s.entries.keys ≠ [] ∧
      lookup {} (bytePair 0 1 2).address (bytePair 0 1 2).compat s = .ok result s' := by
  have hnew : new {} smallConfig [] ∅ 0 = .ok (initial smallConfig [] none) := rfl
  have hown := (Own.new hnew).exec ⟨{}, .register (bytePair 0 1 2)⟩
  have hone : (∀ x ∈ ((initial smallConfig [] none).exec
        ⟨{}, .register (bytePair 0 1 2)⟩).entries.entries,
        x.2.address = (bytePair 0 1 2).address ∧ x.2.compat = (bytePair 0 1 2).compat) ∧
      ((initial smallConfig [] none).exec ⟨{}, .register (bytePair 0 1 2)⟩).entries.keys ≠ [] := by
    decide +kernel
  generalize (initial smallConfig [] none).exec ⟨{}, .register (bytePair 0 1 2)⟩ = s at hown hone
  have hall : ∀ k e, s.entries.lookup k = some e →
      e.address = (bytePair 0 1 2).address ∧ e.compat = (bytePair 0 1 2).compat :=
    fun k e he => hone.1 ⟨k, e⟩ (AList.mem_entries_iff.mpr he)
  have haddresses : CollisionFree (addressesInvolved s (bytePair 0 1 2).address) := by
    rintro _ (rfl | ⟨k, e, he, rfl⟩) _ (rfl | ⟨k', e', he', rfl⟩) -
    · rfl
    · rw [(hall k' e' he').1]
    · rw [(hall k e he).1]
    · rw [(hall k e he).1, (hall k' e' he').1]
  have hkeys : CollisionFree (keysInvolved s (bytePair 0 1 2).compat) := by
    rintro _ (rfl | ⟨k, e, he, rfl⟩) _ (rfl | ⟨k', e', he', rfl⟩) -
    · rfl
    · rw [(hall k' e' he').2]
    · rw [(hall k e he).2]
    · rw [(hall k e he).2, (hall k' e' he').2]
  obtain ⟨k, hk⟩ := List.exists_mem_of_ne_nil _ hone.2
  obtain ⟨e, he⟩ := Option.isSome_iff_exists.mp (AList.lookup_isSome.mpr hk)
  obtain ⟨result, s', hrun⟩ := (lookup_exact hown {} _ _ haddresses hkeys).1.mpr
    ⟨k, e, he, hall k e he⟩
  exact ⟨s, result, s', hown, hone.2, hrun⟩

end TensorCache
