import TensorCache.Runtime.Demand

/-!
# A rule for calls

Every call is made of a few moves: an entry is touched, a placement is added or removed, a new
entry is admitted, an entry without placements is forgotten. `call_rule` reduces a property of
a whole call to these moves. What the calls add and remove is said by `Call.adds` and
`Call.Removes`.
-/

namespace TensorCache

open Codec EStateM

namespace Runtime

/-- The placement a call may add. -/
def Call.adds : Call → Option (ObjectId × Tier)
  | .restore oid t => some (oid, t)
  | .promote oid t => some (oid, t)
  | .replicate oid t => some (oid, t)
  | .demote oid source => (nextLower source).toOption.map fun t => (oid, t)
  | .persist oid => some (oid, .persistent)
  | _ => none

/-- The new blocks of a registration do not fit into the host tier. -/
def MustEvict (s : Runtime) (r : Registration) : Prop :=
  ∃ byteLen numel blocks, s.registerCheck r = .ok (byteLen, numel, blocks) ∧
    s.accounting.free .host < newBytes s.host.contains blocks

/-- The placements a call that began in `s₀` may remove once it has reached `s`. -/
def Call.Removes (c : Call) (s₀ s : Runtime) (oid : ObjectId) (t : Tier) : Prop :=
  match c with
  | .register r =>
    t ≠ .persistent ∧ s₀.MustEvict r ∧ ∃ key e, ObjectId.fromHex key = .ok oid ∧
      s₀.entries.lookup key = some e ∧ e.hasTier .host = true ∧ e.durable = false
  | .demote o source =>
    oid = o ∧ t = source ∧ ∃ lower, nextLower source = .ok lower ∧
      s.entryHasTier o lower = .ok true
  | .evict o => oid = o ∧ t ≠ .persistent
  | .delete o => oid = o
  | _ => False

/-- Only a deletion removes a persistent placement. -/
lemma Call.Removes.eq_delete {c : Call} {s₀ s : Runtime} {oid : ObjectId}
    (h : c.Removes s₀ s oid .persistent) : c = .delete oid := by
  cases c with
  | delete o =>
    cases h
    rfl
  | register r => exact absurd rfl h.1
  | demote o source =>
    obtain ⟨-, rfl, lower, hlower, -⟩ := h
    cases hlower
  | evict o => exact absurd rfl h.2
  | _ => exact h.elim

/-- Remove the manifest of an object that is gone. -/
def removeManifest (env : Env) (oid : ObjectId) : M PUnit :=
  EStateM.ignoring (onDurable (Durable.onStore (PersistentStore.removeManifest env.io oid.toHex)))

variable {env : Env} {s s₀ s' : Runtime} {I J : Runtime → Prop} {oid : ObjectId} {t : Tier}

lemma getMeta_eq_ok {e : Entry} : s.getMeta oid = .ok e ↔ s.entries.lookup oid.toHex = some e := by
  unfold getMeta
  cases s.entries.lookup oid.toHex <;> simp

lemma entryHasTier_eq_ok {b : Bool} :
    s.entryHasTier oid t = .ok b ↔ ∃ e, s.entries.lookup oid.toHex = some e ∧ e.hasTier t = b := by
  unfold entryHasTier getMeta
  cases s.entries.lookup oid.toHex <;> simp [Except.map]

lemma nextLower_ne {source lower : Tier} (h : nextLower source = .ok lower) : lower ≠ source := by
  cases source with
  | accelerator id => cases h; simp
  | host => cases h; simp
  | persistent => cases h

lemma registerCheck_ok {r : Registration} {byteLen numel : UInt64} {blocks : List BlockRef}
    (h : s.registerCheck r = .ok (byteLen, numel, blocks)) :
    r.compat.shape.byteLen r.compat.dtype.byteSize = .ok byteLen ∧
      byteLen = UInt64.ofNat r.payload.length ∧ r.compat.shape.numel = .ok numel ∧
      chunk r.payload s.config.blockSize.toNat = .ok blocks ∧
      s.entries.lookup r.address.objectId.toHex = none := by
  unfold registerCheck at h
  cases hb : r.compat.shape.byteLen r.compat.dtype.byteSize with
  | error e => rw [hb] at h; cases h
  | ok b =>
    simp only [hb, bind, Except.bind] at h
    by_cases hlen : b = UInt64.ofNat r.payload.length
    · rw [if_neg (not_not.mpr hlen)] at h
      cases hn : r.compat.shape.numel with
      | error e => rw [hn] at h; cases h
      | ok m =>
        simp only [hn] at h
        cases hc : chunk r.payload s.config.blockSize.toNat with
        | error e => rw [hc] at h; cases h
        | ok bs =>
          simp only [hc] at h
          cases hv : validateBlockList bs b with
          | error e => rw [hv] at h; cases h
          | ok u =>
            simp only [hv] at h
            split_ifs at h with hfree
            split at h
            · cases h
            · cases h
              exact ⟨rfl, hlen, rfl, rfl, by simpa using hfree⟩
    · rw [if_pos hlen] at h
      cases h

/-! ### Lookup -/

section Lookup

variable {address : Address} {compat : CompatKey}

end Lookup

/-! ### One removal -/

lemma removePlacement_of_some {e : Entry} {p : Placement}
    (he : s.entries.lookup oid.toHex = some e) (hp : e.tier? t = some p) :
    removePlacement env oid t s
      = freePlacement env oid e.blocks p (updateEntry oid (Entry.without t) s) := by
  unfold removePlacement
  rw [get_bind_apply]
  simp only [he, hp]
  rfl

lemma removePlacement_of_none (env : Env)
    (h : ∀ e, s.entries.lookup oid.toHex = some e → e.tier? t = none) :
    ∃ err, removePlacement env oid t s = .error err s := by
  unfold removePlacement
  rw [get_bind_apply]
  cases he : s.entries.lookup oid.toHex with
  | none => exact ⟨_, rfl⟩
  | some e =>
    simp only [h e he]
    exact ⟨_, rfl⟩

/-- Freeing works on the tiers only. -/
lemma entries_freePlacement (env : Env) (oid : ObjectId) (blocks : List BlockRef) (p : Placement)
    (s : Runtime) : (freePlacement env oid blocks p s).state.entries = s.entries := by
  cases p with
  | host refs => rw [freePlacement, onHost, zoom_state]; rfl
  | accelerator dev => rw [freePlacement, onDevices, zoom_state]; rfl
  | persistent => rw [freePlacement, onDurable, zoom_state]; rfl

/-- A removal takes the placement off the entry, also when freeing it fails; without a
placement it does nothing. -/
lemma removePlacement_entries (env : Env) (oid : ObjectId) (t : Tier) (s : Runtime) :
    (removePlacement env oid t s).state.entries = s.entries.modify oid.toHex (Entry.without t) ∨
      ∃ err, removePlacement env oid t s = .error err s := by
  by_cases hp : ∀ e, s.entries.lookup oid.toHex = some e → e.tier? t = none
  · exact Or.inr (removePlacement_of_none env hp)
  · push Not at hp
    obtain ⟨e, he, hp⟩ := hp
    obtain ⟨p, hp⟩ := Option.ne_none_iff_exists'.mp hp
    rw [removePlacement_of_some he hp, entries_freePlacement]
    exact Or.inl rfl

lemma entries_of_removePlacement (h : removePlacement env oid t s = .ok ⟨⟩ s') :
    s'.entries = s.entries.modify oid.toHex (Entry.without t) := by
  rcases removePlacement_entries env oid t s with hentries | ⟨err, herr⟩
  · rw [h] at hentries
    exact hentries
  · rw [herr] at h
    cases h

lemma lookup_removePlacement_none {k : Str} (h : s.entries.lookup k = none) :
    (removePlacement env oid t s).state.entries.lookup k = none := by
  rcases removePlacement_entries env oid t s with hentries | ⟨err, herr⟩
  · rw [hentries]
    by_cases hk : k = oid.toHex
    · rw [hk, AList.lookup_modify_self, ← hk, h]
      rfl
    · rw [AList.lookup_modify_ne hk, h]
  · rw [herr]
    exact h

/-! ### One addition -/

/-- An addition that returns has put a placement of the tier on the entry, and one that fails
leaves the entries alone. -/
lemma addPlacement_entries (env : Env) (oid : ObjectId) (t : Tier) (bytes : Bytes) (s : Runtime) :
    Triple (· = s) (addPlacement env oid t bytes)
      (fun _ s' => ∃ e p, s.entries.lookup oid.toHex = some e ∧ p.tier = t ∧
        s'.entries = s.entries.modify oid.toHex (Entry.push p))
      (fun s' => s'.entries = s.entries) := by
  refine Triple.get_bind ?_
  rintro s rfl
  cases he : s.getMeta oid with
  | error err =>
    refine Triple.throw ?_
    rintro s rfl
    rfl
  | ok e =>
    have hpush : ∀ (p : Placement) (s' : Runtime), p.tier = t → s'.entries = s.entries →
        ∃ e q, s.entries.lookup oid.toHex = some e ∧ q.tier = t ∧
          (updateEntry oid (Entry.push p) s').entries
            = s.entries.modify oid.toHex (Entry.push q) := by
      intro p s' hp hs'
      refine ⟨e, p, getMeta_eq_ok.mp he, hp, ?_⟩
      rw [updateEntry, hs']
    rw [ofExcept_ok_bind]
    refine Triple.ite (fun _ => Triple.throw ?_) fun _ => ?_
    · rintro s rfl
      rfl
    · cases t with
      | host =>
        cases s.hostPlan e.byteLen bytes with
        | error err =>
          refine Triple.throw ?_
          rintro s rfl
          rfl
        | ok plan =>
          rw [ofExcept_ok_bind]
          refine Triple.bind (Q := fun _ s' => s'.entries = s.entries) ?_ fun acquired =>
            Triple.modify fun s' hs' => hpush (.host acquired) s' rfl hs'
          exact zoom_triple fun _ => rfl
      | accelerator id =>
        refine Triple.bind (Q := fun dev s' => dev.backend = id ∧ s'.entries = s.entries) ?_
          fun dev => Triple.modify fun s' hs' =>
            hpush (.accelerator dev) s' (congrArg Tier.accelerator hs'.1) hs'.2
        rintro s rfl
        cases hrun : onDevices (Devices.upload env.driver id bytes) s with
        | ok dev s' =>
          obtain ⟨d, hd, rfl⟩ := zoom_eq_ok hrun
          exact ⟨(Devices.upload_ok hd).1, rfl⟩
        | error err s' =>
          obtain ⟨d, -, rfl⟩ := zoom_eq_error hrun
          rfl
      | persistent =>
        refine Triple.bind (Q := fun _ s' => s'.entries = s.entries) ?_ fun _ =>
          Triple.modify fun s' hs' => hpush .persistent s' rfl hs'
        exact zoom_triple fun _ => rfl

/-- After an addition that returns, the object is resident in the tier. -/
lemma resident_of_addPlacement {bytes : Bytes}
    (h : addPlacement env oid t bytes s = .ok ⟨⟩ s') : s'.entryHasTier oid t = .ok true := by
  obtain ⟨e, p, he, rfl, hentries⟩ := (addPlacement_entries env oid t bytes s).ok rfl h
  refine entryHasTier_eq_ok.mpr ⟨e.push p, ?_, ?_⟩
  · rw [hentries, AList.lookup_modify_self, he]
    rfl
  · rw [Entry.hasTier_iff, Entry.placementTiers_push]
    simp

/-! ### Eviction -/

lemma mem_evictables {clock : Str → UInt64} {c : Evictable} (h : c ∈ s.evictables clock) :
    ∃ e, s.entries.lookup c.objectId = some e ∧ e.hasTier .host = true ∧ e.durable = false := by
  obtain ⟨⟨key, e⟩, hmem, hc⟩ := List.mem_filterMap.mp h
  dsimp only at hc
  split_ifs at hc with hcond
  cases hc
  exact ⟨e, AList.mem_entries_iff.mp hmem, hcond⟩

lemma strip_keeps {key : Str}
    (hremove : ∀ s oid t, ObjectId.fromHex key = .ok oid → t ≠ .persistent → I s →
      I (removePlacement env oid t s).state) : Keeps I (strip env key) := by
  unfold strip
  refine Triple.bind (Q := fun oid s => ObjectId.fromHex key = .ok oid ∧ I s)
    (Triple.ofExcept (fun oid s hoid hs => ⟨hoid, hs⟩) fun s hs => hs) fun oid => ?_
  refine Triple.get_bind fun s hs => Keeps.from_state ?_ hs.2
  refine Keeps.forM fun t _ => Triple.ite (fun _ => Keeps.pure) fun ht => ?_
  exact Keeps.ignoring (keeps_iff.mpr fun s hI => hremove s oid t hs.1 ht hI)

lemma stripWhile_keeps {need : Runtime → Bool} {order : List Evictable}
    (hremove : ∀ c ∈ order, ∀ s oid t, ObjectId.fromHex c.objectId = .ok oid → t ≠ .persistent →
      I s → I (removePlacement env oid t s).state) : Keeps I (stripWhile env need order) := by
  induction order with
  | nil => exact Keeps.pure
  | cons c order ih =>
    refine Triple.get_bind fun s hs => Keeps.from_state ?_ hs
    refine Triple.ite (fun _ => ?_) fun _ => Keeps.pure
    exact Keeps.bind (strip_keeps (hremove c (by simp))) fun _ =>
      ih fun c' hc' => hremove c' (by simp [hc'])

/-- The ledger of the host tier is within the capacity. -/
def Fits (s : Runtime) : Prop := s.accounting.used .host ≤ s.accounting.capacity .host

/-- While the ledger is within the capacity there is nothing to enforce. -/
lemma enforceCapacity_of_le (h : Fits s) :
    enforceCapacity env s = .ok ⟨⟩ s := by
  have hstop : ∀ order, stripWhile env
      (fun s' => s'.accounting.used .host > s.accounting.capacity .host) order s = .ok ⟨⟩ s := by
    intro order
    cases order with
    | nil => rfl
    | cons c order =>
      change (if decide (s.accounting.used .host > s.accounting.capacity .host) = true then _
        else _ : M PUnit) s = _
      rw [if_neg (by simpa [Fits] using h)]
      rfl
  exact hstop _

/-- Making room removes placements of non-durable entries, and then the new bytes fit. -/
lemma makeRoom_triple (env : Env) (n : ℕ) (h₀ : I s₀)
    (hremove : s₀.accounting.free .host < n → ∀ key e, s₀.entries.lookup key = some e →
      e.hasTier .host = true → e.durable = false →
      ∀ s oid t, ObjectId.fromHex key = .ok oid → t ≠ .persistent → I s →
      I (removePlacement env oid t s).state) :
    Triple (· = s₀) (makeRoom env n) (fun _ s => I s ∧ n ≤ s.accounting.free .host) I := by
  refine Triple.get_bind ?_
  rintro s₀ rfl
  refine Triple.ite (fun hneed => ?_) fun hfits => Triple.pure ?_
  · refine Triple.bind (Q := fun _ => I) ?_ fun _ => Triple.get_bind fun s hs => ?_
    · refine Triple.get_bind ?_
      rintro s₀ rfl
      refine Keeps.from_state (Triple.ite (fun _ => Keeps.pure) fun _ => ?_) h₀
      refine stripWhile_keeps fun c hc => ?_
      obtain ⟨e, he, hhost, hdurable⟩ := mem_evictables (mem_evictionOrder.mp hc)
      exact hremove hneed c.objectId e he hhost hdurable
    · refine Triple.ite (fun _ => Triple.throw ?_) fun hfits => Triple.pure ?_
      · rintro s' rfl
        exact hs
      · rintro s' rfl
        exact ⟨hs, not_lt.mp hfits⟩
  · rintro s rfl
    exact ⟨h₀, not_lt.mp hfits⟩

/-! ### Calls -/

/-- The call returns. -/
def Returns (env : Env) (c : Call) (s : Runtime) : Prop := ∃ a s', call env c s = .ok a s'

/-- What has to be shown of the moves of a call that begins in `s₀`: `I` holds all the way, and
`J` after an admission. -/
structure Obligations (env : Env) (c : Call) (s₀ : Runtime) (I J : Runtime → Prop) : Prop where
  start : I s₀
  fits : ∀ s, I s → Fits s
  touch : ∀ s oid f, Entry.Touches f → I s → I (updateEntry oid f s)
  add : ∀ oid t bytes, c.adds = some (oid, t) → s₀.materializePayload oid = .ok bytes →
    s₀.entryHasTier oid t = .ok false → I (addPlacement env oid t bytes s₀).state
  remove : ∀ s oid t, c.Removes s₀ s oid t → I s → I (removePlacement env oid t s).state
  enter : ∀ r byteLen numel blocks s, c = .register r →
    s₀.registerCheck r = .ok (byteLen, numel, blocks) → I s →
    (∀ k, s₀.entries.lookup k = none → s.entries.lookup k = none) →
    newBytes s₀.host.contains blocks ≤ s.accounting.free .host →
    ∃ s', admitEntry env r byteLen numel blocks (newBytes s₀.host.contains blocks) s = .ok ⟨⟩ s' ∧
      Fits s' ∧ (Returns env c s₀ → J s')
  forget : ∀ s oid e, c = .delete oid → I s → s.entries.lookup oid.toHex = some e →
    e.placements = [] → I (removeEntry oid s)
  clean : ∀ s oid, c = .delete oid → I s → s.entries.lookup oid.toHex = none →
    I (removeManifest env oid s).state
  done : (∀ r, c ≠ .register r) → ∀ s, I s → J s

variable {c : Call}

lemma Obligations.enforce (h : Obligations env c s₀ I J) : Keeps I (enforceCapacity env) := by
  intro s hs
  rw [enforceCapacity_of_le (h.fits s hs)]
  exact hs

/-- Add the placement of a call in the state it began in. -/
lemma Obligations.addPlacement_triple (h : Obligations env c s₀ I J) {bytes : Bytes}
    (hadds : c.adds = some (oid, t)) (hbytes : s₀.materializePayload oid = .ok bytes)
    (hres : s₀.entryHasTier oid t = .ok false) :
    Triple (· = s₀) (addPlacement env oid t bytes)
      (fun _ s => I s ∧ s.entryHasTier oid t = .ok true) I := by
  rintro s rfl
  have hstate := h.add oid t bytes hadds hbytes hres
  cases hrun : addPlacement env oid t bytes s with
  | ok u s' =>
    rw [hrun] at hstate
    exact ⟨hstate, resident_of_addPlacement hrun⟩
  | error err s' =>
    rw [hrun] at hstate
    exact hstate

/-- Reading from the state a call began in: an error ends the call there. -/
lemma ofExcept_bind_triple {α β : Type} {x : Except Error α} {f : α → M β} {Q : β → Runtime → Prop}
    (h₀ : I s₀) (h : ∀ a, x = .ok a → Triple (· = s₀) (f a) Q I) :
    Triple (· = s₀) (EStateM.ofExcept x >>= f) Q I := by
  cases hx : x with
  | error err =>
    refine Triple.throw ?_
    rintro s rfl
    exact h₀
  | ok a => exact h a hx

lemma Obligations.lookup (h : Obligations env c s₀ I J) {address : Address} {compat : CompatKey} :
    Triple (· = s₀) (lookup env address compat) (fun _ => I) I := by
  refine Triple.get_bind ?_
  rintro s₀ rfl
  dsimp only
  cases s₀.entries.lookup address.objectId.toHex with
  | none =>
    refine Triple.throw ?_
    rintro s rfl
    exact h.start
  | some e =>
    refine Triple.ite (fun _ => Triple.throw ?_) fun _ => ?_
    · rintro s rfl
      exact h.start
    · refine Triple.bind (Q := fun _ => I) (Triple.modify ?_) fun _ => Keeps.pure
      rintro s rfl
      exact h.touch s _ _ (Entry.touches_recordUse env) h.start

lemma Obligations.ensurePlacement (h : Obligations env c s₀ I J)
    (hadds : c.adds = some (oid, t)) :
    Triple (· = s₀) (ensurePlacement env oid t)
      (fun _ s => I s ∧ s.entryHasTier oid t = .ok true) I := by
  refine Triple.get_bind ?_
  rintro s₀ rfl
  refine ofExcept_bind_triple h.start fun resident hres => ?_
  cases resident with
  | true =>
    refine Triple.pure ?_
    rintro s rfl
    exact ⟨h.start, hres⟩
  | false => exact ofExcept_bind_triple h.start fun bytes hbytes =>
      h.addPlacement_triple hadds hbytes hres

lemma Obligations.promote (h : Obligations env c s₀ I J) (hadds : c.adds = some (oid, t)) :
    Triple (· = s₀) (promote env oid t) (fun _ => I) I := by
  refine Triple.get_bind ?_
  rintro s₀ rfl
  refine ofExcept_bind_triple h.start fun resident hres => ?_
  cases resident with
  | true =>
    refine Triple.pure ?_
    rintro s rfl
    exact h.start
  | false =>
    refine ofExcept_bind_triple h.start fun quarantined _ => Triple.ite (fun _ => ?_) fun _ => ?_
    · refine Triple.throw ?_
      rintro s rfl
      exact h.start
    · refine ofExcept_bind_triple h.start fun bytes hbytes => ?_
      exact Triple.bind ((h.addPlacement_triple hadds hbytes hres).post fun _ _ hs => hs.1)
        fun _ => Keeps.ignoring h.enforce

lemma Obligations.restore (h : Obligations env c s₀ I J) (hadds : c.adds = some (oid, t)) :
    Triple (· = s₀) (restore env oid t) (fun _ => I) I := by
  refine Triple.get_bind ?_
  rintro s₀ rfl
  refine ofExcept_bind_triple h.start fun quarantined _ => Triple.ite (fun _ => ?_) fun _ => ?_
  · refine Triple.throw ?_
    rintro s rfl
    exact h.start
  · refine ofExcept_bind_triple h.start fun bytes hbytes => ?_
    refine ofExcept_bind_triple h.start fun resident hres => ?_
    cases resident with
    | true =>
      exact Keeps.from_state (Keeps.bind (Keeps.ignoring h.enforce) fun _ => Keeps.pure) h.start
    | false =>
      exact Triple.bind ((h.addPlacement_triple hadds hbytes hres).post fun _ _ hs => hs.1)
        fun _ => Keeps.bind (Keeps.ignoring h.enforce) fun _ => Keeps.pure

lemma Obligations.demote {source : Tier} (h : Obligations env (.demote oid source) s₀ I J) :
    Triple (· = s₀) (demote env oid source) (fun _ => I) I := by
  refine Triple.get_bind ?_
  rintro s₀ rfl
  refine ofExcept_bind_triple h.start fun resident _ => Triple.ite (fun _ => ?_) fun _ => ?_
  · refine ofExcept_bind_triple h.start fun target htarget => ?_
    have hadds : (Call.demote oid source).adds = some (oid, target) := by
      simp [Call.adds, htarget, Except.toOption]
    refine Triple.bind (h.ensurePlacement hadds) fun _ s hs => ?_
    have hremove := h.remove s oid source ⟨rfl, rfl, target, htarget, hs.2⟩ hs.1
    cases hrun : removePlacement env oid source s with
    | ok u s' => rw [hrun] at hremove; exact hremove
    | error err s' => rw [hrun] at hremove; exact hremove
  · refine Triple.throw ?_
    rintro s rfl
    exact h.start

/-- After the removals of `delete` the entry has no placements left. -/
lemma Obligations.removeAll (h : Obligations env (.delete oid) s₀ I J) (tiers : List Tier) :
    Triple (fun s => I s ∧ ∃ e, s.entries.lookup oid.toHex = some e ∧ e.placementTiers = tiers)
      (tiers.forM fun t => removePlacement env oid t)
      (fun _ s => I s ∧ ∃ e, s.entries.lookup oid.toHex = some e ∧ e.placementTiers = []) I := by
  refine Triple.forM (I := fun rest s => I s ∧
    ∃ e, s.entries.lookup oid.toHex = some e ∧ e.placementTiers = rest) (fun t rest s hs => ?_) tiers
  obtain ⟨hI, e, he, htiers⟩ := hs
  have hremove := h.remove s oid t rfl hI
  cases hrun : removePlacement env oid t s with
  | error err s' => rw [hrun] at hremove; exact hremove
  | ok u s' =>
    rw [hrun] at hremove
    refine ⟨hremove, e.without t, ?_, ?_⟩
    · rw [entries_of_removePlacement hrun, AList.lookup_modify_self, he]
      rfl
    · rw [Entry.placementTiers_without, htiers, List.erase_cons_head]

lemma Obligations.delete (h : Obligations env (.delete oid) s₀ I J) :
    Triple (· = s₀) (delete env oid) (fun _ => I) I := by
  refine Triple.get_bind ?_
  rintro s₀ rfl
  refine ofExcept_bind_triple h.start fun e he => ?_
  refine Triple.bind ((h.removeAll e.placementTiers).pre ?_) fun _ => ?_
  · rintro s rfl
    exact ⟨h.start, e, getMeta_eq_ok.mp he, rfl⟩
  · refine Triple.bind (Q := fun _ s => I s ∧ s.entries.lookup oid.toHex = none)
      (Triple.modify ?_) fun _ => ?_
    · rintro s ⟨hs, e, he, htiers⟩
      refine ⟨h.forget s oid e rfl hs he (List.map_eq_nil_iff.mp htiers), ?_⟩
      simp only [removeEntry, he, AList.lookup_erase]
    · exact fun s hs => h.clean s oid rfl hs.1 hs.2

lemma Obligations.register {r : Registration} (h : Obligations env (.register r) s₀ I J) :
    Triple (· = s₀) (register env r) (fun _ s => Returns env (.register r) s₀ → J s) I := by
  refine Triple.get_bind ?_
  rintro s₀ rfl
  refine ofExcept_bind_triple h.start fun checked hcheck => ?_
  obtain ⟨byteLen, numel, blocks⟩ := checked
  have hroom := makeRoom_triple env (newBytes s₀.host.contains blocks)
    (I := fun s => I s ∧ ∀ k, s₀.entries.lookup k = none → s.entries.lookup k = none)
    ⟨h.start, fun _ hk => hk⟩ fun hneed key e he hhost hdurable s oid t hoid ht hs =>
      ⟨h.remove s oid t ⟨ht, ⟨byteLen, numel, blocks, hcheck, hneed⟩, key, e, hoid, he, hhost,
        hdurable⟩ hs.1, fun k hk => lookup_removePlacement_none (hs.2 k hk)⟩
  refine Triple.bind (Triple.conseq hroom (fun _ hs => hs) (fun _ _ hs => hs)
    fun _ hs => hs.1) fun _ => ?_
  refine Triple.bind (Q := fun _ s => Fits s ∧ (Returns env (.register r) s₀ → J s))
    (fun s hs => ?_) fun _ => ?_
  · obtain ⟨s', henter, hs'⟩ := h.enter r byteLen numel blocks s rfl hcheck hs.1.1 hs.1.2 hs.2
    rw [henter]
    exact hs'
  · refine Triple.bind (Q := fun _ s => Returns env (.register r) s₀ → J s) (fun s hs => ?_)
      fun _ => Triple.pure fun _ hs => hs
    rw [enforceCapacity_of_le hs.1]
    exact hs.2

/-- A call keeps `I`, and gives `J` when it returns. -/
theorem call_rule (h : Obligations env c s₀ I J) :
    Triple (· = s₀) (call env c) (fun _ => J) I := by
  suffices hweak : Triple (· = s₀) (call env c) (fun _ s => Returns env c s₀ → J s) I by
    rintro s rfl
    have hrun := hweak s rfl
    cases hcall : call env c s with
    | ok a s' => rw [hcall] at hrun; exact hrun ⟨a, s', hcall⟩
    | error err s' => rw [hcall] at hrun; exact hrun
  have hret : ∀ {α : Type} {m : M α} {f : α → Reply} {Q : Runtime → Prop},
      Triple (· = s₀) m (fun _ => Q) I →
      Triple (· = s₀) (m >>= fun a => pure (f a)) (fun _ => Q) I :=
    fun hm => Triple.bind hm fun _ => Triple.pure fun _ hs => hs
  have hdone : ∀ {α : Type} {m : M α}, (∀ r, c ≠ .register r) → Triple (· = s₀) m (fun _ => I) I →
      Triple (· = s₀) m (fun _ s => Returns env c s₀ → J s) I :=
    fun hc hm => hm.post fun _ s hs _ => h.done hc s hs
  cases c with
  | register r => exact hret h.register
  | lookup address compat => exact hret (hdone (by simp) h.lookup)
  | restore oid t => exact hret (hdone (by simp) (h.restore rfl))
  | promote oid t => exact hret (hdone (by simp) (h.promote rfl))
  | replicate oid t => exact hret (hdone (by simp) (h.promote rfl))
  | demote oid source => exact hret (hdone (by simp) h.demote)
  | persist oid =>
    refine hret (hdone (by simp) (Triple.bind (h.ensurePlacement rfl) fun _ => Triple.modify ?_))
    exact fun s hs => h.touch s oid _ Entry.touches_durable hs.1
  | evict oid =>
    refine hret (hdone (by simp) (Triple.get_bind ?_))
    rintro s₀ rfl
    refine ofExcept_bind_triple h.start fun e _ => Keeps.from_state ?_ h.start
    refine Keeps.forM fun t _ => Triple.ite (fun _ => Keeps.pure) fun ht => ?_
    exact keeps_iff.mpr fun s hs => h.remove s oid t ⟨rfl, ht⟩ hs
  | delete oid => exact hret (hdone (by simp) h.delete)
  | verify oid =>
    refine hdone (by simp) (Triple.get_bind ?_)
    rintro s₀ rfl
    refine ofExcept_bind_triple h.start fun report _ => Triple.pure ?_
    rintro s rfl
    exact h.start

end Runtime

end TensorCache
