import TensorCache.Runtime.Rules

/-!
# What the moves leave alone

A property of the runtime that looks neither at the tiers nor at what entries hold is kept by
every call that neither adds nor forgets an entry. `Stable` names the changes such a property has
to survive. A property may also look at the files of the store: `Guarded` asks that it survives
what the calls do there, where only some objects may be made durable. One lemma for each operation
says that the property is kept.
-/

namespace TensorCache

open Codec EStateM

namespace Runtime

/-- A property that survives changes of single entries and of the tiers. -/
structure Stable (I : Runtime → Prop) : Prop where
  update : ∀ s oid f, I s → I (updateEntry oid f s)
  host : ∀ t s, I s → I (setHostTier t s)
  devices : ∀ d s, I s → I (setDevices d s)
  durable : ∀ d s, I s → I (setDurable d s)

/-- A property that survives changes of single entries, of the host tier and of the devices, and
what is done to the store, as long as only the objects of `A` are made durable. -/
structure Guarded (A : ObjectId → Prop) (I : Runtime → Prop) : Prop where
  update : ∀ s oid f, I s → I (updateEntry oid f s)
  host : ∀ t s, I s → I (setHostTier t s)
  devices : ∀ d s, I s → I (setDevices d s)
  keep : ∀ io blockSize oid address compat byteLen createdNs bytes, A oid →
    Keeps I (onDurable (Durable.keep io blockSize oid address compat byteLen createdNs bytes))
  drop : ∀ io blocks oid, Keeps I (onDurable (Durable.drop io blocks oid))
  clean : ∀ io (oid : ObjectId),
    Keeps I (onDurable (Durable.onStore (PersistentStore.removeManifest io oid.toHex)))

lemma Stable.guarded {I : Runtime → Prop} (h : Stable I) : Guarded (fun _ => True) I where
  update := h.update
  host := h.host
  devices := h.devices
  keep _ _ _ _ _ _ _ _ _ := Keeps.zoom h.durable
  drop _ _ _ := Keeps.zoom h.durable
  clean _ _ := Keeps.zoom h.durable

variable {A : ObjectId → Prop} {I J : Runtime → Prop} {env : Env} {oid : ObjectId} {t : Tier}

/-- The object may be placed in the tier, or there is no such object. -/
def MayPlace (A : ObjectId → Prop) (I : Runtime → Prop) (oid : ObjectId) (t : Tier) : Prop :=
  t = .persistent → A oid ∨ ∀ s, I s → s.entries.lookup oid.toHex = none

namespace Guarded

lemma freePlacement (h : Guarded A I) (blocks : List BlockRef) (p : Placement) :
    Keeps I (freePlacement env oid blocks p) := by
  cases p with
  | host refs => exact Keeps.zoom h.host
  | accelerator dev => exact Keeps.zoom h.devices
  | persistent => exact h.drop env.io blocks oid

lemma removePlacement (h : Guarded A I) : Keeps I (removePlacement env oid t) := by
  refine Keeps.get_bind fun s => ?_
  dsimp only
  cases s.entries.lookup oid.toHex with
  | none => exact Keeps.throw
  | some e =>
    dsimp only
    cases e.tier? t with
    | none => exact Keeps.throw
    | some p =>
      refine Keeps.bind (Keeps.modify fun s => h.update s oid (Entry.without t)) fun _ => ?_
      exact h.freePlacement e.blocks p

/-- Nothing is placed for an object that is not there. -/
lemma addPlacement_missing (bytes : Bytes)
    (hnone : ∀ s, I s → s.entries.lookup oid.toHex = none) :
    Keeps I (Runtime.addPlacement env oid t bytes) := by
  refine keeps_iff.mpr fun s hs => ?_
  unfold Runtime.addPlacement
  rw [get_bind_apply]
  simp only [getMeta, hnone s hs, ofExcept_error_bind]
  exact hs

lemma addPlacement (h : Guarded A I) (hmay : MayPlace A I oid t) (bytes : Bytes) :
    Keeps I (addPlacement env oid t bytes) := by
  by_cases hnone : ∀ s, I s → s.entries.lookup oid.toHex = none
  · exact addPlacement_missing bytes hnone
  refine Keeps.get_bind fun s => Keeps.bind Keeps.ofExcept fun e => Keeps.ite Keeps.throw ?_
  cases t with
  | host =>
    refine Keeps.bind Keeps.ofExcept fun plan => Keeps.bind (Keeps.zoom h.host) fun acquired => ?_
    exact Keeps.modify fun s => h.update s oid _
  | accelerator id =>
    exact Keeps.bind (Keeps.zoom h.devices) fun dev => Keeps.modify fun s => h.update s oid _
  | persistent =>
    have hA : A oid := (hmay rfl).resolve_right hnone
    exact Keeps.bind (h.keep _ _ _ _ _ _ _ _ hA) fun _ => Keeps.modify fun s => h.update s oid _

lemma stripWhile (h : Guarded A I) (need : Runtime → Bool) (order : List Evictable) :
    Keeps I (stripWhile env need order) :=
  stripWhile_keeps fun _ _ _ _ _ _ _ hs => h.removePlacement.state hs

lemma enforceCapacity (h : Guarded A I) : Keeps I (enforceCapacity env) :=
  Keeps.get_bind fun _ => h.stripWhile _ _

lemma makeRoom (h : Guarded A I) (newHost : ℕ) : Keeps I (makeRoom env newHost) := by
  refine Keeps.get_bind fun s => Keeps.ite (Keeps.bind ?_ fun _ => ?_) Keeps.pure
  · exact Keeps.get_bind fun s => Keeps.ite Keeps.pure (h.stripWhile _ _)
  · exact Keeps.get_bind fun s => Keeps.ite Keeps.throw Keeps.pure

lemma lookup (h : Guarded A I) (address : Address) (compat : CompatKey) :
    Keeps I (lookup env address compat) := by
  refine Keeps.get_bind fun s => ?_
  dsimp only
  cases s.entries.lookup address.objectId.toHex with
  | none => exact Keeps.throw
  | some e =>
    refine Keeps.ite Keeps.throw (Keeps.bind (Keeps.modify fun s => h.update s _ _) fun _ => ?_)
    exact Keeps.pure

lemma ensurePlacement (h : Guarded A I) (hmay : MayPlace A I oid t) :
    Keeps I (ensurePlacement env oid t) := by
  refine Keeps.get_bind fun s => Keeps.bind Keeps.ofExcept fun resident => Keeps.ite Keeps.pure ?_
  exact Keeps.bind Keeps.ofExcept fun bytes => h.addPlacement hmay bytes

lemma promote (h : Guarded A I) (hmay : MayPlace A I oid t) :
    Keeps I (promote env oid t) := by
  refine Keeps.get_bind fun s => Keeps.bind Keeps.ofExcept fun resident => Keeps.ite Keeps.pure ?_
  refine Keeps.bind Keeps.ofExcept fun quarantined => Keeps.ite Keeps.throw ?_
  refine Keeps.bind Keeps.ofExcept fun bytes => Keeps.bind (h.addPlacement hmay bytes) fun _ => ?_
  exact Keeps.ignoring h.enforceCapacity

lemma restore (h : Guarded A I) (hmay : MayPlace A I oid t) :
    Keeps I (restore env oid t) := by
  have hlast : ∀ bytes : Bytes,
      Keeps I (do EStateM.ignoring (Runtime.enforceCapacity env); pure bytes) :=
    fun bytes => Keeps.bind (Keeps.ignoring h.enforceCapacity) fun _ => Keeps.pure
  refine Keeps.get_bind fun s => Keeps.bind Keeps.ofExcept fun quarantined => ?_
  refine Keeps.ite Keeps.throw (Keeps.bind Keeps.ofExcept fun bytes => ?_)
  refine Keeps.bind Keeps.ofExcept fun resident => Keeps.ite (hlast bytes) ?_
  exact Keeps.bind (h.addPlacement hmay bytes) fun _ => hlast bytes

lemma demote (h : Guarded A I) (hmay : ∀ lower, nextLower t = .ok lower → MayPlace A I oid lower) :
    Keeps I (demote env oid t) := by
  refine Keeps.get_bind fun s => Keeps.bind Keeps.ofExcept fun resident => ?_
  refine Keeps.ite ?_ Keeps.throw
  cases hlower : nextLower t with
  | error e => exact Keeps.throw
  | ok lower =>
    rw [ofExcept_ok_bind]
    exact Keeps.bind (h.ensurePlacement (hmay lower hlower)) fun _ => h.removePlacement

lemma persist (h : Guarded A I) (hmay : MayPlace A I oid .persistent) :
    Keeps I (persist env oid) :=
  Keeps.bind (h.ensurePlacement hmay) fun _ => Keeps.modify fun s => h.update s oid _

lemma evict (h : Guarded A I) : Keeps I (evict env oid) := by
  refine Keeps.get_bind fun s => Keeps.bind Keeps.ofExcept fun e => Keeps.forM fun t _ => ?_
  exact Keeps.ite Keeps.pure h.removePlacement

/-- A deletion also forgets the entry. -/
lemma delete (h : Guarded A I) (hforget : ∀ s, I s → I (removeEntry oid s)) :
    Keeps I (delete env oid) := by
  refine Keeps.get_bind fun s => Keeps.bind Keeps.ofExcept fun e => ?_
  refine Keeps.bind (Keeps.forM fun t _ => h.removePlacement) fun _ => ?_
  refine Keeps.bind (Keeps.modify hforget) fun _ => ?_
  exact Keeps.ignoring (h.clean _ _)

/-- A registration that passes its checks adds one entry: `J` is what is left of `I` then. -/
lemma register {r : Registration} {s₀ : Runtime} {B : ObjectId → Prop} (hI : Guarded A I) (hJ : Guarded B J)
    (hIJ : ∀ s, I s → J s) (h₀ : I s₀)
    (henter : ∀ s byteLen numel blocks acquired,
      s₀.registerCheck r = .ok (byteLen, numel, blocks) → I s →
      J (insertEntry r.address.objectId.toHex (newEntry env r byteLen numel blocks acquired) s)) :
    Triple (· = s₀) (register env r) (fun _ => J) J := by
  refine Triple.get_bind ?_
  rintro s₀ rfl
  cases hcheck : s₀.registerCheck r with
  | error err =>
    refine Triple.throw ?_
    rintro s rfl
    exact hIJ s h₀
  | ok checked =>
    obtain ⟨byteLen, numel, blocks⟩ := checked
    rw [ofExcept_ok_bind]
    refine Triple.bind (((hI.makeRoom _).from_state h₀).conseq (fun _ hs => hs) (fun _ _ hs => hs) hIJ)
      fun _ => ?_
    refine Triple.bind (Q := fun _ => J) ?_ fun _ => Keeps.bind hJ.enforceCapacity fun _ =>
      Keeps.pure
    refine Triple.bind (Q := fun _ => I)
      ((Keeps.zoom hI.host).conseq (fun _ hs => hs) (fun _ _ hs => hs) hIJ) fun acquired => ?_
    exact Triple.modify fun s hs => henter s byteLen numel blocks acquired hcheck hs

/-- The rule for calls that are neither registrations nor deletions. -/
theorem call (h : Guarded A I) {c : Call} (hregister : ∀ r, c ≠ .register r)
    (hdelete : ∀ oid, c ≠ .delete oid)
    (hmay : ∀ oid t, c.adds = some (oid, t) → MayPlace A I oid t) : Keeps I (call env c) := by
  cases c with
  | register r => exact absurd rfl (hregister r)
  | lookup address compat => exact Keeps.bind (h.lookup address compat) fun _ => Keeps.pure
  | restore oid t => exact Keeps.bind (h.restore (hmay oid t rfl)) fun _ => Keeps.pure
  | promote oid t => exact Keeps.bind (h.promote (hmay oid t rfl)) fun _ => Keeps.pure
  | replicate oid t => exact Keeps.bind (h.promote (hmay oid t rfl)) fun _ => Keeps.pure
  | demote oid source =>
    refine Keeps.bind (h.demote fun lower hlower => hmay oid lower ?_) fun _ => Keeps.pure
    simp [Call.adds, hlower, Except.toOption]
  | persist oid => exact Keeps.bind (h.persist (hmay oid _ rfl)) fun _ => Keeps.pure
  | evict oid => exact Keeps.bind h.evict fun _ => Keeps.pure
  | delete oid => exact absurd rfl (hdelete oid)
  | verify oid => exact Keeps.get_bind fun s => Keeps.bind Keeps.ofExcept fun _ => Keeps.pure

/-- The rule for all calls, for a property that new and forgotten entries do not matter to. -/
theorem exec (h : Guarded A I) {s : Runtime} {ev : Event} (hs : I s.beginCall)
    (henter : ∀ r e s, ev.call = .register r → I s → I (insertEntry r.address.objectId.toHex e s))
    (hforget : ∀ oid s, I s → I (removeEntry oid s))
    (hmay : ∀ oid t, ev.call.adds = some (oid, t) → MayPlace A I oid t) : I (s.exec ev) := by
  obtain ⟨env, c⟩ := ev
  unfold Runtime.exec
  by_cases hregister : ∃ r, c = .register r
  · obtain ⟨r, rfl⟩ := hregister
    refine Triple.state (P := (· = s.beginCall)) (Triple.bind ?_ fun _ => Keeps.pure) rfl
    exact h.register h (fun _ hs => hs) hs fun s _ _ _ _ _ hs => henter r _ s rfl hs
  · push Not at hregister
    by_cases hdelete : ∃ oid, c = .delete oid
    · obtain ⟨oid, rfl⟩ := hdelete
      exact Keeps.state (Keeps.bind (h.delete (hforget oid)) fun _ => Keeps.pure) hs
    · push Not at hdelete
      exact (h.call hregister hdelete hmay).state hs

end Guarded

/-- A property that looks at the files together with one that does not. -/
lemma Guarded.and {K : Runtime → Prop} (h : Guarded A I) (hK : Stable K) :
    Guarded A (fun s => I s ∧ K s) where
  update s oid f hs := ⟨h.update s oid f hs.1, hK.update s oid f hs.2⟩
  host t s hs := ⟨h.host t s hs.1, hK.host t s hs.2⟩
  devices d s hs := ⟨h.devices d s hs.1, hK.devices d s hs.2⟩
  keep _ _ _ _ _ _ _ _ hA := (h.keep _ _ _ _ _ _ _ _ hA).and (Keeps.zoom hK.durable)
  drop _ _ _ := (h.drop _ _ _).and (Keeps.zoom hK.durable)
  clean _ _ := (h.clean _ _).and (Keeps.zoom hK.durable)

/-! ### Entries that stay -/

/-- There is an entry of the object. -/
def Present (oid : ObjectId) (s : Runtime) : Prop := (s.entries.lookup oid.toHex).isSome

lemma isSome_lookup_modify {entries : HashMap Str Entry} {k : Str} (k' : Str) (f : Entry → Entry)
    (h : (entries.lookup k).isSome) : ((entries.modify k' f).lookup k).isSome := by
  by_cases hk : k = k'
  · rw [hk, AList.lookup_modify_self, ← hk, Option.isSome_map]
    exact h
  · rw [AList.lookup_modify_ne hk]
    exact h

namespace Present

variable {s : Runtime} {ev : Event} {r : Registration}

lemma stable (oid : ObjectId) : Stable (Present oid) where
  update _ oid' f hs := isSome_lookup_modify oid'.toHex f hs
  host _ _ hs := hs
  devices _ _ hs := hs
  durable _ _ hs := hs

lemma guarded (oid : ObjectId) : Guarded (fun _ => True) (Present oid) := (stable oid).guarded

lemma insert_self (r : Registration) (e : Entry) (s : Runtime) :
    Present r.address.objectId (insertEntry r.address.objectId.toHex e s) := by
  change ((s.entries.insert _ _).lookup _).isSome
  rw [AList.lookup_insert]
  rfl

lemma insert {e : Entry} (h : Present oid s) :
    Present oid (insertEntry r.address.objectId.toHex e s) := by
  change ((s.entries.insert _ _).lookup _).isSome
  rw [AList.lookup_insert_eq_ite]
  split_ifs
  · rfl
  · exact h

lemma removeEntry {oid' : ObjectId} (h : Present oid s) (hne : oid' ≠ oid) :
    Present oid (removeEntry oid' s) := by
  have hhex : oid.toHex ≠ oid'.toHex := fun heq => hne (ObjectId.toHex_injective heq).symm
  unfold Runtime.removeEntry
  split
  · change ((s.entries.erase _).lookup _).isSome
    rw [AList.lookup_erase_ne hhex]
    exact h
  · exact h

/-- Only the deletion of an object removes its entry. -/
lemma exec (h : Present oid s) (hkeep : ev.call ≠ .delete oid) : Present oid (s.exec ev) := by
  obtain ⟨env, c⟩ := ev
  have hbegin : Present oid s.beginCall := h
  unfold Runtime.exec
  by_cases hregister : ∃ r, c = .register r
  · obtain ⟨r, rfl⟩ := hregister
    refine Triple.state (P := (· = s.beginCall)) (Triple.bind ?_ fun _ => Keeps.pure) rfl
    exact (guarded oid).register (guarded oid) (fun _ hs => hs) hbegin
      fun _ _ _ _ _ _ hs => hs.insert
  · push Not at hregister
    by_cases hdelete : ∃ oid', c = .delete oid'
    · obtain ⟨oid', rfl⟩ := hdelete
      have hne : oid' ≠ oid := fun heq => hkeep (congrArg Call.delete heq)
      refine Keeps.state (Keeps.bind ((guarded oid).delete fun s hs => ?_) fun _ => Keeps.pure)
        hbegin
      exact hs.removeEntry hne
    · push Not at hdelete
      exact ((guarded oid).call hregister hdelete fun _ _ _ _ => .inl trivial).state hbegin

end Present

/-- A registration that returns leaves an entry. -/
lemma lookup_of_register {s s' : Runtime} {r : Registration}
    (h : register env r s = .ok oid s') : Present r.address.objectId s' := by
  unfold register at h
  rw [get_bind_apply] at h
  obtain ⟨⟨byteLen, numel, blocks⟩, s₁, -, h₁⟩ := EStateM.bind_eq_ok h
  obtain ⟨_, s₂, -, h₂⟩ := EStateM.bind_eq_ok h₁
  obtain ⟨_, s₃, hadmitted, h₃⟩ := EStateM.bind_eq_ok h₂
  obtain ⟨_, s₄, henforce, h₄⟩ := EStateM.bind_eq_ok h₃
  cases h₄
  have hentry : Present r.address.objectId s₃ := by
    obtain ⟨acquired, s₅, -, h₅⟩ := EStateM.bind_eq_ok hadmitted
    cases h₅
    exact Present.insert_self r _ s₅
  exact (Present.guarded _).enforceCapacity.ok hentry henforce

end Runtime

end TensorCache
