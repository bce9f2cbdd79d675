import TensorCache.Runtime.Readable

/-!
# Payload fidelity

An entry that was registered, or recovered, with some payload gives exactly this payload back from
every placement it lists, whatever happens to the objects it shares blocks with. This rests on one
block size for all block lists; with two block sizes on one store it needs a condition on the
calls.
-/

namespace TensorCache

open Codec EStateM TensorCache.Runtime

/-- Every listed placement of every entry gives the payload of its registration and can be
restored, `restore` returns nothing else, and verification finds no disagreement. -/
def Faithful (o : Origin) (s : Runtime) : Prop :=
  ∀ oid e, s.entries.lookup (ObjectId.toHex oid) = some e → ∃ r, o oid.toHex = some r ∧
    (∀ t ∈ e.placementTiers, s.materializeFrom oid t = .ok r.payload ∧
      ∀ env, ∃ s', restore env oid t s.beginCall = .ok r.payload s') ∧
    (∀ env t bytes s', restore env oid t s.beginCall = .ok bytes s' → bytes = r.payload) ∧
    (e.placements ≠ [] → ∃ report, s.verify oid = .ok report)

variable {sc : Scope} {config : RuntimeConfig} {o : Origin} {s s₀ : Runtime} {n : ℕ}

lemma Safe.faithful (hS : CollisionFree sc.blocks) (h : Safe sc config o s) (hr : Readable s) :
    Faithful o s := by
  intro oid e he
  obtain ⟨r, ho, -⟩ := h.entry _ e he
  refine ⟨r, ho, fun t ht => ⟨h.materializeFrom hS hr he ho ht, fun env => ?_⟩,
    fun env t bytes s' hrun => ?_, fun hne => ⟨_, h.verify hS hr he ho hne⟩⟩
  · exact ⟨_, h.beginCall.restore_resident hS hr.beginCall he ho ht⟩
  · exact h.beginCall.eq_of_materializePayload hS ho (materializePayload_of_restore hrun)

/-! ### One block size -/

/-- All block lists are cut with the block size `n`. -/
def CutWith (sc : Scope) (n : ℕ) (s : Runtime) : Prop :=
  ∀ k e, s.entries.lookup k = some e → ∃ r ∈ sc.registered, chunk r.payload n = .ok e.blocks

/-- Block lists determine their pieces, when no two blocks share a digest. -/
lemma refsFrom_injOn {S : Set Bytes} (hS : CollisionFree S) {ps ps' : List Bytes} {offset : ℕ}
    (hps : ∀ b ∈ ps, b ∈ S) (hps' : ∀ b ∈ ps', b ∈ S)
    (h : refsFrom offset ps = refsFrom offset ps') : ps = ps' := by
  induction ps generalizing ps' offset with
  | nil =>
    cases ps' with
    | nil => rfl
    | cons b' ps' => cases h
  | cons b ps ih =>
    cases ps' with
    | nil => cases h
    | cons b' ps' =>
      obtain ⟨hhead, htail⟩ := List.cons.inj h
      have hb : b = b' :=
        hS (hps b (by simp)) (hps' b' (by simp)) (congrArg BlockRef.contentHash hhead)
      subst hb
      rw [ih (fun c hc => hps c (by simp [hc])) (fun c hc => hps' c (by simp [hc])) htail]

/-- With one block size, a payload is always cut as its entry lists it. -/
lemma CutWith.chunk_payload (hS : CollisionFree sc.blocks) (h : Safe sc config o s)
    (hcut : CutWith sc n s) (hn : n ∈ sc.sizes) {k : Str} {e : Entry} {r : Registration}
    (he : s.entries.lookup k = some e) (ho : o k = some r) : chunk r.payload n = .ok e.blocks := by
  obtain ⟨r', hr', hchunk⟩ := hcut k e he
  obtain ⟨ps, htiles, hblocks, hps⟩ := (h.entryOk he ho).tiles
  obtain ⟨hrefs, htiles'⟩ := chunk_spec hchunk
  have heq := refsFrom_injOn hS hps (Scope.pieces_mem hr' hn) (hblocks.symm.trans hrefs)
  have hpayload : r.payload = r'.payload := by rw [← htiles.flatten, heq, htiles'.flatten]
  rw [hpayload]
  exact hchunk

/-- With one block size every call keeps the placements readable. -/
lemma CutWith.extension (hS : CollisionFree sc.blocks) (h₀ : Safe sc config o s₀)
    (hr : Readable s₀) (hcut : CutWith sc config.blockSize.toNat s₀) {env : Env} {c : Call} :
    Extension sc config o env c s₀ (fun s => Readable s ∧ CutWith sc config.blockSize.toNat s)
      (fun s => Readable s ∧ CutWith sc config.blockSize.toNat s) := by
  have hread : Extension sc config o env c s₀ Readable Readable := by
    refine Readable.extension h₀ hr fun oid t e r _ he ho _ _ => ?_
    exact hcut.chunk_payload hS h₀ h₀.blockSize he ho
  refine hread.and (Extension.forall_entries hcut (fun k e f hf he => ?_)
    (fun _ _ _ _ _ _ he => he) (fun _ _ _ _ _ _ he => he)
    fun r byteLen numel ps _ hr hchunk _ => ⟨r, hr, hchunk⟩)
  obtain ⟨reuse, lastUse, durable, hfe⟩ := hf e
  rw [hfe]
  exact he

/-- With one block size every run keeps the placements readable. -/
lemma Safe.run_cutWith (hS : CollisionFree sc.blocks) (h : Safe sc config o s) (hr : Readable s)
    (hcut : CutWith sc config.blockSize.toNat s) (events : List Event)
    (hreg : ∀ r ∈ s.registrations events, r ∈ sc.registered) : Readable (s.run events) := by
  refine (Safe.run_rule (Y := fun s => Readable s ∧ CutWith sc config.blockSize.toNat s) hS
    (fun o s ev hreg h hY _ => ?_) h ⟨hr, hcut⟩ events hreg (Throughout.true s events)).2.1
  exact (h.exec_rule hS hreg (CutWith.extension hS h.beginCall hY.1.beginCall hY.2)).2

/-- The manifests of a store are all cut with the block size `n`. -/
def ManifestsCutWith (n : ℕ) (log : List Registration) (disk : Disk) : Prop :=
  ∀ path c m, disk.lookup path = some c → IsManifest path → decodeManifest c = .ok m →
    ∃ r ∈ log, chunk r.payload n = .ok m.blocks

/-- Recovery takes the block lists of the manifests over. -/
lemma ManifestsCutWith.cutWith (hS : CollisionFree sc.blocks) {log : List Registration}
    {disk : Disk} (hfiles : AllFiles (FileOk sc.blocks (ManifestOk sc)) disk)
    (hlog : ∀ r ∈ log, r ∈ sc.registered) (hcut : ManifestsCutWith n log disk) {env : Env}
    {extra : List Backend} {pid : ℕ} (hnew : Runtime.new env config extra disk pid = .ok s) :
    CutWith sc n s := by
  intro k e he
  obtain ⟨path, c, m, hc, hmanifest, hdecode, rfl⟩ := manifest_of_new hS hfiles hnew he
  obtain ⟨r, hr, hchunk⟩ := hcut path c m hc hmanifest hdecode
  exact ⟨r, hlog r hr, hchunk⟩

/-- On a store whose manifests are all cut with the block size of the configuration, every state of
every run gives every registered or recovered payload back from every listed placement. -/
theorem payload_fidelity {sizes : Set ℕ} {disk : Disk} {log : List Registration}
    (hist : History sizes disk log) {env : Env} {extra : List Backend} {pid : ℕ}
    (hcut : ManifestsCutWith config.blockSize.toNat log disk)
    (hnew : Runtime.new env config extra disk pid = .ok s₀)
    (hS : CollisionFree (scopeOf (insert config.blockSize.toNat sizes) log).blocks) :
    ∃ o₀ : Origin,
      (∀ k e, s₀.entries.lookup k = some e →
        ∃ r ∈ log, o₀ k = some r ∧ r.address = e.address ∧ r.compat = e.compat) ∧
      ∀ events, CollisionFree (scopeOf (insert config.blockSize.toNat sizes)
          (log ++ s₀.registrations events)).blocks →
        Faithful (o₀.record (s₀.registrations events)) (s₀.run events) := by
  have hfiles := hist.files hS (fun _ hr => hr) (Set.subset_insert _ _)
  obtain ⟨hfresh, o₀, hsafe⟩ := new_spec hS hfiles (Set.mem_insert _ _) hnew
  refine ⟨o₀, fun k e he => ?_, fun events hS' => ?_⟩
  · obtain ⟨r, ho, hok⟩ := hsafe.entry k e he
    exact ⟨r, hok.registered, ho, hok.address.symm, hok.compat.symm⟩
  · have hsafe' := (scopeOf_le (List.subset_append_left log (s₀.registrations events))
      subset_rfl).safe hsafe
    have hfiles' := hist.files hS' (fun _ hr => List.mem_append_left _ hr) (Set.subset_insert _ _)
    have hcut' := hcut.cutWith hS' hfiles' (fun _ hr => List.mem_append_left _ hr) hnew
    have hreg : ∀ r ∈ s₀.registrations events, r ∈ (scopeOf (insert config.blockSize.toNat sizes)
        (log ++ s₀.registrations events)).registered := fun r hr => List.mem_append_right _ hr
    have hread := hsafe'.run_cutWith hS' hfresh.readable hcut' events hreg
    exact (hsafe'.run hS' events hreg).faithful hS' hread


theorem payload_fidelity_bytePair :
    ∃ s₀ o₀, Runtime.new {} smallConfig [] ∅ 0 = .ok s₀ ∧
      s₀.registrations [⟨{}, .register (bytePair 0 1 2)⟩] ≠ [] ∧
      Faithful (Origin.record o₀ (s₀.registrations [⟨{}, .register (bytePair 0 1 2)⟩]))
        (s₀.run [⟨{}, .register (bytePair 0 1 2)⟩]) := by
  have hnew : Runtime.new {} smallConfig [] ∅ 0 = .ok _ := rfl
  have hcut : ManifestsCutWith smallConfig.blockSize.toNat [] ∅ := by
    intro path c m hc
    simp at hc
  have hist : History ∅ ∅ [] := History.empty
  obtain ⟨o₀, -, hrun⟩ := payload_fidelity hist hcut hnew
    (collisionFree_scopeOf [2] [] (by simp) (by simp [smallConfig]) (by decide))
  refine ⟨_, o₀, rfl, by decide +kernel, hrun _ ?_⟩
  refine collisionFree_scopeOf [2] [bytePair 0 1 2] ?_ (by simp [smallConfig]) (by decide)
  exact registrations_subset _ [⟨{}, .register (bytePair 0 1 2)⟩]

/-! ### Two block sizes -/

/-- The calls that move a recovered object around. -/
def Movement : Call → Prop
  | .restore _ _ | .promote _ _ | .demote _ _ | .persist _ | .evict _ | .verify _ => True
  | _ => False

/-- A host placement is only added to an object whose payload both block sizes cut alike. -/
def CutAlike (n₁ n₂ : ℕ) (s : Runtime) (c : Call) : Prop :=
  ∀ oid e, c.adds = some (oid, .host) → s.entries.lookup oid.toHex = some e →
    .host ∉ e.placementTiers → n₁ = n₂ ∨ e.byteLen.toNat ≤ min n₁ n₂

/-- Every entry has a persistent placement. -/
def AllPersistent (s : Runtime) : Prop :=
  ∀ k e, s.entries.lookup k = some e → .persistent ∈ e.placementTiers

lemma AllPersistent.extension {env : Env} {c : Call} (h : AllPersistent s₀) (hc : Movement c) :
    Extension sc config o env c s₀ AllPersistent AllPersistent := by
  refine Extension.forall_entries h (fun k e f hf he => ?_) (fun oid t e p _ _ he => ?_)
    (fun s oid t e hrem _ he => ?_) fun r _ _ _ hr _ _ _ => ?_
  · obtain ⟨reuse, lastUse, durable, hfe⟩ := hf e
    rw [hfe]
    exact he
  · rw [Entry.placementTiers_push]
    exact List.mem_append_left _ he
  · -- none of these calls removes a persistent placement
    have ht : t ≠ .persistent := by
      rintro rfl
      rw [hrem.eq_delete] at hc
      exact hc.elim
    rw [Entry.placementTiers_without]
    exact (List.mem_erase_of_ne ht.symm).mpr he
  · rw [hr] at hc
    exact hc.elim

/-- A payload that is not longer than both block sizes is cut into one block by both. -/
lemma chunk_alike {p : Bytes} {n₁ n₂ : ℕ} (h₁ : 0 < n₁) (h₂ : 0 < n₂)
    (h : n₁ = n₂ ∨ p.length ≤ min n₁ n₂) : chunk p n₁ = chunk p n₂ := by
  rcases h with rfl | h
  · rfl
  · rw [chunk_of_le h₁ (h.trans (min_le_left _ _)), chunk_of_le h₂ (h.trans (min_le_right _ _))]

lemma movement_registration {c : Call} (hc : Movement c) : c.registration = [] := by
  cases c with
  | register r => exact hc.elim
  | _ => rfl

/-- Movements register nothing. -/
lemma registrations_of_movement {events : List Event} (hmove : ∀ ev ∈ events, Movement ev.call) :
    s.registrations events = [] := by
  refine List.eq_nil_iff_forall_not_mem.mpr fun r hr => ?_
  obtain ⟨ev, hev, hr⟩ := List.mem_flatMap.mp (registrations_subset s events hr)
  rw [movement_registration (hmove ev hev)] at hr
  cases hr

/-- A movement that meets `CutAlike` adds a placement that is cut as the entry lists it. -/
lemma addsAsListed_of_cutAlike {n₁ : ℕ} {registered : Set Registration}
    (h : Safe ⟨registered, {n₁, config.blockSize.toNat}⟩ config o s) (hp : AllPersistent s)
    (hpos : 0 < config.blockSize.toNat) {c : Call}
    (hcond : CutAlike n₁ config.blockSize.toNat s c) : AddsAsListed config o c s.beginCall := by
  intro oid t e r hadds he ho ht hor
  have hok := h.entryOk he ho
  rcases hor with rfl | rfl
  · obtain ⟨n, hn, hchunk⟩ := hok.blocks
    have halike := hcond oid e hadds he ht
    rw [hok.byteLen_toNat] at halike
    rcases hn with rfl | hn
    · rw [← chunk_alike (pos_of_chunk hchunk) hpos halike]
      exact hchunk
    · rw [← show n = _ from hn]
      exact hchunk
  · exact absurd (hp _ e he) ht

/-- A run of movements that meets `CutAlike` keeps the placements readable. -/
lemma Safe.run_cutAlike {n₁ : ℕ} {registered : Set Registration}
    {o : Origin} (hS : CollisionFree (Scope.blocks ⟨registered, {n₁, config.blockSize.toNat}⟩))
    (h : Safe ⟨registered, {n₁, config.blockSize.toNat}⟩ config o s) (hr : Readable s)
    (hp : AllPersistent s) (hpos : 0 < config.blockSize.toNat) (events : List Event)
    (hmove : ∀ ev ∈ events, Movement ev.call)
    (hcond : Throughout (fun s ev => CutAlike n₁ config.blockSize.toNat s ev.call) s events) :
    Safe ⟨registered, {n₁, config.blockSize.toNat}⟩ config o (s.run events) ∧
      Readable (s.run events) := by
  have hnone := registrations_of_movement (s := s) hmove
  have hcond' : Throughout (fun s ev => Movement ev.call ∧
      CutAlike n₁ config.blockSize.toNat s ev.call) s events :=
    hcond.mono fun _ ev hev hev' => ⟨hmove ev hev, hev'⟩
  have hrun := Safe.run_rule (Y := fun s => Readable s ∧ AllPersistent s) hS
    (fun o s ev hreg h hY hC => ?_) h ⟨hr, hp⟩ events (by simp [hnone]) hcond'
  · rw [hnone] at hrun
    exact ⟨hrun.1, hrun.2.1⟩
  · have hp₀ : AllPersistent s.beginCall := hY.2
    exact (h.exec_rule hS hreg ((Readable.extension h.beginCall hY.1.beginCall
      (addsAsListed_of_cutAlike h hY.2 hpos hC.2)).and (hp₀.extension hC.1))).2

/-- On a store written with the block size `n₁`, opened with any other one, every run of movements
that meets `CutAlike` keeps every recovered payload readable in every listed placement. -/
theorem recovered_payload_fidelity {n₁ : ℕ} {disk : Disk} {log : List Registration}
    (hist : History {n₁} disk log) {env : Env} {extra : List Backend} {pid : ℕ}
    (hnew : Runtime.new env config extra disk pid = .ok s₀)
    (hS : CollisionFree (scopeOf {n₁, config.blockSize.toNat} log).blocks) :
    ∃ o₀ : Origin,
      (∀ k e, s₀.entries.lookup k = some e →
        ∃ r ∈ log, o₀ k = some r ∧ r.address = e.address ∧ r.compat = e.compat) ∧
      ∀ events : List Event, (∀ ev ∈ events, Movement ev.call) →
        Throughout (fun s ev => CutAlike n₁ config.blockSize.toNat s ev.call) s₀ events →
        Faithful o₀ (s₀.run events) := by
  have hfiles := hist.files hS (fun _ hr => hr) (by rintro n rfl; exact Or.inl rfl)
  obtain ⟨hfresh, o₀, hsafe⟩ := new_spec hS hfiles (Or.inr rfl) hnew
  refine ⟨o₀, fun k e he => ?_, fun events hmove hcond => ?_⟩
  · obtain ⟨r, ho, hok⟩ := hsafe.entry k e he
    exact ⟨r, hok.registered, ho, hok.address.symm, hok.compat.symm⟩
  · have hpers : AllPersistent s₀ := by
      intro k e he
      rw [Entry.placementTiers, hfresh.placements k e he]
      exact List.mem_singleton_self _
    obtain ⟨hsafe', hread⟩ := hsafe.run_cutAlike hS hfresh.readable hpers
      (blockSize_pos_of_new hnew) events hmove hcond
    exact hsafe'.faithful hS hread

/-- With the block sizes two and four a payload of two bytes can be promoted. -/
theorem recovered_payload_fidelity_bytePair :
    ∃ s₁ s₂ o₂, (persistSession 2 (bytePair 0 1 2)).start ∅ = .ok s₁ ∧
      Runtime.new {} (storeConfig 4) []
        ((s₁.run (persistSession 2 (bytePair 0 1 2)).events).files ∅) 0 = .ok s₂ ∧
      Faithful o₂ (s₂.run [⟨{}, .promote (bytePair 0 1 2).address.objectId .host⟩]) := by
  obtain ⟨s₁, hs₁⟩ : ∃ s₁, (persistSession 2 (bytePair 0 1 2)).start ∅ = .ok s₁ := ⟨_, rfl⟩
  obtain ⟨s₂, hs₂⟩ : ∃ s₂, Runtime.new {} (storeConfig 4) []
    ((s₁.run (persistSession 2 (bytePair 0 1 2)).events).files ∅) 0 = .ok s₂ := ⟨_, rfl⟩
  have hist := persistSession_history 2 (bytePair 0 1 2) hs₁
  have hlog : s₁.registrations (persistSession 2 (bytePair 0 1 2)).events ⊆ [bytePair 0 1 2] :=
    registrations_subset s₁ _
  have hS : CollisionFree (scopeOf {2, 4}
      (s₁.registrations (persistSession 2 (bytePair 0 1 2)).events)).blocks :=
    collisionFree_scopeOf [2, 4] [bytePair 0 1 2] hlog (by simp) (by decide +kernel)
  obtain ⟨o₂, -, hrun⟩ := recovered_payload_fidelity hist hs₂ hS
  refine ⟨s₁, s₂, o₂, hs₁, hs₂, hrun _ (by simp [Movement]) ⟨fun oid e hadds he _ => ?_, trivial⟩⟩
  -- the entry was recovered, so its length is that of the registered payload
  right
  have hfiles := hist.files hS (fun _ hr => hr) (by rintro n rfl; exact Or.inl rfl)
  have hsize : (storeConfig 4).blockSize.toNat ∈ ({2, 4} : Set ℕ) := Or.inr rfl
  obtain ⟨-, o, hsafe⟩ := new_spec hS hfiles hsize hs₂
  obtain ⟨r, -, hok⟩ := hsafe.entry _ e he
  rw [hok.byteLen_toNat, List.mem_singleton.mp (hlog hok.registered)]
  decide

/-- With the block sizes one and two, the promoted copy of the same payload is listed and cannot be
read. -/
theorem promoted_payload_unreadable :
    ∃ s₁ s₂, (persistSession 1 (bytePair 0 1 2)).start ∅ = .ok s₁ ∧
      History {1} ((s₁.run (persistSession 1 (bytePair 0 1 2)).events).files ∅)
        (s₁.registrations (persistSession 1 (bytePair 0 1 2)).events) ∧
      Runtime.new {} (storeConfig 2) []
        ((s₁.run (persistSession 1 (bytePair 0 1 2)).events).files ∅) 0 = .ok s₂ ∧
      let oid := (bytePair 0 1 2).address.objectId
      let s := s₂.run [⟨{}, .promote oid .host⟩]
      (s.entries.lookup oid.toHex).map Entry.placementTiers = some [.persistent, .host] ∧
        (s.materializeFrom oid .host).toOption = none ∧
        (s.materializeFrom oid .persistent).toOption = some [1, 2] := by
  refine ⟨_, _, rfl, persistSession_history 1 (bytePair 0 1 2) rfl, rfl, ?_⟩
  decide +kernel

end TensorCache
