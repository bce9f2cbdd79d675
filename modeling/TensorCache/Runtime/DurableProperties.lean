import TensorCache.Runtime.Durable

/-!
# Properties of the persistent tier

Every referenced block has its file, and the storage counter is the total length of the
referenced blocks (`Durable.Wf`). Keeping a payload adds its references and writes its manifest;
a failure half-way leaves references too many, never too few. Dropping takes them away.
-/

namespace TensorCache

open Codec EStateM

namespace Durable

/-- The length of the file of a block. -/
def blockLen (d : Durable) (h : Digest) : ℕ := ((d.file (blockFile h)).map List.length).getD 0

/-- Files are what they should be, referenced blocks have a file, and the storage counter and
the budget are in order. -/
structure Wf (S : Set Bytes) (M : Path → PersistEntryMeta → Prop) (cap : ℕ) (d : Durable) :
    Prop where
  files : ∀ st, d.store = some st → st.Always (FileOk S M)
  pos : ∀ h n, d.refs.lookup h = some n → 0 < n
  file : ∀ h n, d.refs.lookup h = some n → (d.file (blockFile h)).isSome
  used : d.used = d.refs.total fun h _ => d.blockLen h
  budget : d.budget.Wf
  capacity : d.budget.capacity = cap

/-- The manifests of two states are the same. -/
def SameManifests (d d' : Durable) : Prop := ∀ q, IsManifest q → d'.file q = d.file q

variable {S : Set Bytes} {M : Path → PersistEntryMeta → Prop} {cap : ℕ} {d d' : Durable}
  {io : IoFaults}

lemma Wf.contents (h : d.Wf S M cap) {path : Path} {c : Bytes} (hc : d.file path = some c) :
    FileOk S M path c := by
  unfold Durable.file at hc
  cases hst : d.store with
  | none => rw [hst] at hc; cases hc
  | some st =>
    rw [hst] at hc
    exact (h.files st hst).disk path c hc

/-- The file of a block of `S` can only hold that block. -/
lemma Wf.block (h : d.Wf S M cap) (hS : CollisionFree S) {b c : Bytes} (hb : b ∈ S)
    (hc : d.file (blockFile (hash b)) = some c) : c = b := by
  obtain ⟨hhash, hcS⟩ := (h.contents hc).1 (hash b) rfl
  exact hS hcS hb hhash

lemma Wf.blockLen_eq (h : d.Wf S M cap) (hS : CollisionFree S) {b : Bytes} (hb : b ∈ S) {n : ℕ}
    (hn : d.refs.lookup (hash b) = some n) : d.blockLen (hash b) = b.length := by
  obtain ⟨c, hc⟩ := Option.isSome_iff_exists.mp (h.file _ _ hn)
  rw [blockLen, hc, h.block hS hb hc]
  rfl

/-- What is read for a block of `S` is that block. -/
lemma Wf.eq_of_getBlock (h : d.Wf S M cap) (hS : CollisionFree S) {st : PersistentStore}
    (hst : d.store = some st) {b c : Bytes} (hb : b ∈ S) (hc : st.getBlock (hash b) = .ok c) :
    c = b := by
  simp only [PersistentStore.getBlock, blockPath_eq] at hc
  cases hfile : st.disk.lookup (blockFile (hash b)) with
  | none => simp [bind, Except.bind, hfile] at hc
  | some x =>
    simp only [bind, Except.bind, hfile] at hc
    split_ifs at hc
    cases hc
    exact h.block hS hb (by rw [Durable.file, hst]; exact hfile)

/-- A block of `S` that is referenced can be read. -/
lemma Wf.getBlock (h : d.Wf S M cap) (hS : CollisionFree S) {st : PersistentStore}
    (hst : d.store = some st) {b : Bytes} (hb : b ∈ S) (hcount : 0 < d.count (hash b)) :
    st.getBlock (hash b) = .ok b := by
  obtain ⟨n, hn⟩ : ∃ n, d.refs.lookup (hash b) = some n := by
    rw [count] at hcount
    cases hl : d.refs.lookup (hash b) with
    | none => rw [hl] at hcount; simp at hcount
    | some n => exact ⟨n, rfl⟩
  obtain ⟨c, hc⟩ := Option.isSome_iff_exists.mp (h.file _ _ hn)
  have hcb := h.block hS hb hc
  rw [Durable.file, hst] at hc
  simp [PersistentStore.getBlock, blockPath_eq, bind, Except.bind, show _ = some c from hc, hcb]

/-- A change of the store that keeps the referenced blocks. -/
lemma Wf.of_store (h : d.Wf S M cap) (hrefs : d'.refs = d.refs) (hused : d'.used = d.used)
    (hbudget : d'.budget = d.budget)
    (hfiles : ∀ st, d'.store = some st → st.Always (FileOk S M))
    (hkeep : ∀ x, d.refs.lookup x ≠ none → d'.file (blockFile x) = d.file (blockFile x)) :
    d'.Wf S M cap where
  files := hfiles
  pos x n hn := h.pos x n (hrefs ▸ hn)
  file x n hn := by
    rw [hrefs] at hn
    rw [hkeep x (by simp [hn])]
    exact h.file x n hn
  used := by
    rw [hused, hrefs, h.used]
    refine AList.total_congr fun x n hn => ?_
    rw [blockLen, blockLen, hkeep x (by simp [hn])]
  budget := by rw [hbudget]; exact h.budget
  capacity := by rw [hbudget]; exact h.capacity

/-- A store command, seen from the tier. -/
lemma onStore_triple {α : Type} {m : EStateM Error PersistentStore α} {st : PersistentStore}
    {Q : α → PersistentStore → Prop} {E : PersistentStore → Prop} {P : PersistentStore → Prop}
    (hst : d.store = some st) (hP : P st) (h : Triple P m Q E) :
    Triple (· = d) (onStore m) (fun a d' => ∃ st', Q a st' ∧ d' = { d with store := some st' })
      (fun d' => ∃ st', E st' ∧ d' = { d with store := some st' }) := by
  rintro _ rfl
  have hrun := h st hP
  simp only [onStore, hst]
  cases hm : m st with
  | ok a st' =>
    rw [hm] at hrun
    exact ⟨st', hrun, rfl⟩
  | error e st' =>
    rw [hm] at hrun
    exact ⟨st', hrun, rfl⟩

/-! ### References -/

lemma addRef_of_some {b : BlockRef} {n : ℕ} (h : d.refs.lookup b.contentHash = some n) :
    d.addRef b = { d with refs := d.refs.insert b.contentHash (n + 1) } := by
  simp [addRef, h]

lemma addRef_of_none {b : BlockRef} (h : d.refs.lookup b.contentHash = none) :
    d.addRef b
      = { d with refs := d.refs.insert b.contentHash 1, used := d.used + b.len.toNat } := by
  simp [addRef, h]

@[simp] lemma addRef_store (b : BlockRef) (d : Durable) : (d.addRef b).store = d.store := by
  unfold addRef
  split <;> rfl

@[simp] lemma addRef_budget (b : BlockRef) (d : Durable) : (d.addRef b).budget = d.budget := by
  unfold addRef
  split <;> rfl

lemma addRef_file (b : BlockRef) (d : Durable) (q : Path) : (d.addRef b).file q = d.file q := by
  rw [Durable.file, addRef_store]
  rfl

lemma addRef_lookup_self (b : BlockRef) (d : Durable) :
    (d.addRef b).refs.lookup b.contentHash = some (d.count b.contentHash + 1) := by
  cases hl : d.refs.lookup b.contentHash with
  | none => rw [addRef_of_none hl, AList.lookup_insert, count, hl]; rfl
  | some n => rw [addRef_of_some hl, AList.lookup_insert, count, hl]; rfl

lemma addRef_lookup_ne {b : BlockRef} {h : Digest} (hne : h ≠ b.contentHash) (d : Durable) :
    (d.addRef b).refs.lookup h = d.refs.lookup h := by
  cases hl : d.refs.lookup b.contentHash with
  | none => rw [addRef_of_none hl, AList.lookup_insert_ne hne]
  | some n => rw [addRef_of_some hl, AList.lookup_insert_ne hne]

lemma count_addRef (b : BlockRef) (d : Durable) (h : Digest) :
    (d.addRef b).count h = d.count h + if b.contentHash = h then 1 else 0 := by
  by_cases hh : h = b.contentHash
  · rw [if_pos hh.symm, count, hh, addRef_lookup_self]
    rfl
  · rw [if_neg (Ne.symm hh), count, addRef_lookup_ne hh]
    rfl

/-- Adding a reference to a block whose file is there. -/
lemma Wf.addRef (h : d.Wf S M cap) (hS : CollisionFree S) {x : Bytes} (hx : x ∈ S)
    (hsmall : x.length < 2 ^ 64) (hfile : (d.file (blockFile (hash x))).isSome) (offset : ℕ) :
    (d.addRef (blockRef x offset)).Wf S M cap := by
  have hlen : d.blockLen (hash x) = x.length := by
    obtain ⟨c, hc⟩ := Option.isSome_iff_exists.mp hfile
    rw [blockLen, hc, h.block hS hx hc]
    rfl
  have hsame : ∀ y, (d.addRef (blockRef x offset)).blockLen y = d.blockLen y := fun y => by
    rw [blockLen, addRef_file, blockLen]
  refine ⟨fun st hst => h.files st (by simpa using hst), fun y n hn => ?_, fun y n hn => ?_, ?_,
    by simpa using h.budget, by simpa using h.capacity⟩
  · by_cases hy : y = hash x
    · have hself := addRef_lookup_self (blockRef x offset) d
      rw [hy] at hn
      rw [show (blockRef x offset).contentHash = hash x from rfl, hn] at hself
      cases hself
      omega
    · rw [addRef_lookup_ne hy] at hn
      exact h.pos y n hn
  · rw [addRef_file]
    by_cases hy : y = hash x
    · rw [hy]
      exact hfile
    · rw [addRef_lookup_ne hy] at hn
      exact h.file y n hn
  · simp only [hsame]
    cases hl : d.refs.lookup (hash x) with
    | none =>
      rw [addRef_of_none hl]
      change d.used + (UInt64.ofNat x.length).toNat
        = (d.refs.insert (hash x) 1).total fun h _ => d.blockLen h
      rw [AList.total_insert_of_none _ _ hl, ← h.used, toNat_ofNat hsmall, hlen]
      omega
    | some m =>
      rw [addRef_of_some hl]
      change d.used = (d.refs.insert (hash x) (m + 1)).total fun h _ => d.blockLen h
      have := AList.total_insert_add (fun h _ => d.blockLen h) (m + 1) hl
      rw [h.used]
      omega

/-- What keeping and dropping blocks leaves alone. -/
structure Frame (d d' : Durable) : Prop where
  store : d'.store.isSome = d.store.isSome
  budget : d'.budget = d.budget
  manifests : SameManifests d d'

lemma Frame.rfl (d : Durable) : Frame d d := ⟨Eq.refl _, Eq.refl _, fun _ _ => Eq.refl _⟩

lemma Frame.trans {d₁ d₂ d₃ : Durable} (h : Frame d₁ d₂) (h' : Frame d₂ d₃) : Frame d₁ d₃ where
  store := h'.store.trans h.store
  budget := h'.budget.trans h.budget
  manifests q hq := (h'.manifests q hq).trans (h.manifests q hq)

lemma frame_addRef (b : BlockRef) (d : Durable) : Frame d (d.addRef b) :=
  ⟨by simp, by simp, fun q _ => addRef_file b d q⟩

/-- The blocks that are referenced. -/
def held (d : Durable) (h : Digest) : Bool := (d.refs.lookup h).isSome

lemma addRef_congr {e : Durable} (hrefs : d.refs = e.refs) (hused : d.used = e.used)
    (b : BlockRef) : (d.addRef b).refs = (e.addRef b).refs ∧
      (d.addRef b).used = (e.addRef b).used := by
  unfold addRef
  rw [hrefs, hused]
  cases e.refs.lookup b.contentHash <;> exact ⟨Eq.refl _, Eq.refl _⟩

/-! ### Keeping a payload -/

/-- One block of a payload is written, if needed, and referenced. -/
lemma persistBlock_spec (io : IoFaults) (hS : CollisionFree S) (h : d.Wf S M cap) (hstore : d.store.isSome)
    {payload x : Bytes} {offset : ℕ} (hx : x ∈ S) (hsmall : x.length < 2 ^ 64)
    (hslice : slice payload (blockRef x offset).offset.toNat (blockRef x offset).len.toNat = x) :
    Triple (· = d) (persistBlock io payload (blockRef x offset))
      (fun _ d' => d'.Wf S M cap ∧ Frame d d' ∧ d'.refs = (d.addRef (blockRef x offset)).refs ∧
        d'.used = (d.addRef (blockRef x offset)).used)
      (fun d' => d'.Wf S M cap ∧ Frame d d' ∧ d'.refs = d.refs) := by
  rintro d rfl
  obtain ⟨st, hst⟩ := Option.isSome_iff_exists.mp hstore
  have hdisk : ∀ q, d.file q = st.disk.lookup q := fun q => by rw [Durable.file, hst]
  unfold persistBlock
  cases hl : d.refs.lookup (blockRef x offset).contentHash with
  | some n =>
    have hfile := h.file _ _ hl
    exact ⟨h.addRef hS hx hsmall hfile offset, frame_addRef _ d, Eq.refl _, Eq.refl _⟩
  | none =>
    rw [hslice]
    have hspec := PersistentStore.putBlock_spec io st.disk
      (fileOk_block (M := M) hx) fun c => fileOk_tmp_block (hash x) st.pid c
    have hput := onStore_triple hst ⟨Eq.refl _, h.files st hst, Eq.refl _⟩ hspec
    refine Triple.bind (R := fun _ d' => d'.Wf S M cap ∧ Frame d d' ∧
        d'.refs = (d.addRef (blockRef x offset)).refs ∧
        d'.used = (d.addRef (blockRef x offset)).used)
      (E := fun d' => d'.Wf S M cap ∧ Frame d d' ∧ d'.refs = d.refs)
      (Triple.conseq hput (fun _ hd => hd) (fun _ _ hd => hd) ?_) (fun _ => Triple.modify ?_) d
      (Eq.refl _)
    · rintro d' ⟨st', ⟨-, halways, hothers⟩, rfl⟩
      have hfile : ∀ q, q ≠ tmpPath (blockFile (hash x)) st.pid →
          ({ d with store := some st' } : Durable).file q = d.file q := fun q hq => by
        rw [hdisk]
        exact hothers q hq
      refine ⟨h.of_store (Eq.refl _) (Eq.refl _) (Eq.refl _) ?_ fun y _ => hfile _ ?_,
        ⟨by simp [hst], Eq.refl _, fun q hq => hfile q ?_⟩, Eq.refl _⟩
      · rintro _ ⟨⟩
        exact halways
      · exact (tmpPath_ne_blockFile st.pid y fun _ => (hash x).length_bytes_toHex).symm
      · rintro rfl
        cases hq.1
    · rintro d' ⟨st', ⟨-, halways, hblock, hothers⟩, rfl⟩
      have hfile : ∀ q, q ≠ blockFile (hash x) → q ≠ tmpPath (blockFile (hash x)) st.pid →
          ({ d with store := some st' } : Durable).file q = d.file q := fun q hq hq' => by
        rw [hdisk]
        exact hothers q hq hq'
      have hwf : Wf S M cap { d with store := some st' } := by
        refine h.of_store (Eq.refl _) (Eq.refl _) (Eq.refl _) ?_ fun y hy => hfile _ ?_ ?_
        · rintro _ ⟨⟩
          exact halways
        · intro heq
          rw [blockFile_injective heq] at hy
          exact hy hl
        · exact (tmpPath_ne_blockFile st.pid y fun _ => (hash x).length_bytes_toHex).symm
      have hframe : Frame d { d with store := some st' } := by
        refine ⟨by simp [hst], Eq.refl _, fun q hq => hfile q ?_ ?_⟩
        · rintro rfl
          exact not_isManifest_blockFile _ hq
        · rintro rfl
          cases hq.1
      obtain ⟨hrefs, hused⟩ := addRef_congr (d := { d with store := some st' }) (e := d)
        (Eq.refl _) (Eq.refl _) (blockRef x offset)
      refine ⟨hwf.addRef hS hx hsmall ?_ offset, hframe.trans (frame_addRef _ _), hrefs, hused⟩
      change (st'.disk.lookup (blockFile (hash x))).isSome
      rw [hblock]
      rfl

/-- The storage counter after a reference to a block is added. -/
lemma used_addRef (b : BlockRef) (d : Durable) :
    (d.addRef b).used = d.used + if d.held b.contentHash then 0 else b.len.toNat := by
  unfold held
  cases hl : d.refs.lookup b.contentHash with
  | none => rw [addRef_of_none hl]; simp
  | some n => rw [addRef_of_some hl]; simp

lemma held_addRef (b : BlockRef) (d : Durable) (h : Digest) :
    (d.addRef b).held h = (d.held h || decide (b.contentHash = h)) := by
  unfold held
  by_cases hh : h = b.contentHash
  · rw [hh, addRef_lookup_self]
    simp
  · rw [addRef_lookup_ne hh]
    simp [Ne.symm hh]

lemma held_addRef_eq (b : BlockRef) (d : Durable) :
    (d.addRef b).held = alsoHeld d.held b.contentHash := by
  funext h
  rw [held_addRef, alsoHeld]

/-- What the block loop of `keep` has done when it went through: one reference more for each
block, and the storage counter has grown by at most what the pre-pass counted. -/
structure Kept (d : Durable) (blocks : List BlockRef) (d' : Durable) : Prop where
  frame : Frame d d'
  count : ∀ h, d'.count h = d.count h + countRef h blocks
  used_le : d'.used ≤ d.used + newBytes d.held blocks
  used_eq : FreshDistinct d.held blocks → d'.used = d.used + newBytes d.held blocks

lemma Kept.nil (d : Durable) : Kept d [] d :=
  ⟨Frame.rfl d, fun _ => Eq.refl _, Nat.le_add_right _ _, fun _ => Eq.refl _⟩

lemma Kept.cons {d₁ d₂ d₃ : Durable} {b : BlockRef} {blocks : List BlockRef}
    (hframe : Frame d₁ d₂) (hrefs : d₂.refs = (d₁.addRef b).refs)
    (hused : d₂.used = (d₁.addRef b).used) (h : Kept d₂ blocks d₃) : Kept d₁ (b :: blocks) d₃ := by
  have hcount : ∀ x, d₂.count x = d₁.count x + if b.contentHash = x then 1 else 0 := fun x => by
    rw [Durable.count, hrefs]
    exact count_addRef b d₁ x
  have hheld : d₂.held = alsoHeld d₁.held b.contentHash := by
    rw [← held_addRef_eq]
    funext x
    rw [held, hrefs, held]
  rw [used_addRef] at hused
  refine ⟨hframe.trans h.frame, fun x => ?_, ?_, fun hfresh => ?_⟩
  · rw [h.count, hcount, countRef_cons]
    omega
  · have := h.used_le
    rw [hheld] at this
    have := newBytes_alsoHeld_le d₁.held b blocks
    omega
  · obtain ⟨hfresh', hpre⟩ := newBytes_alsoHeld_eq hfresh
    have := h.used_eq (by rw [hheld]; exact hfresh')
    rw [hheld] at this
    omega

/-- The block loop of `keep`. -/
lemma persistAll_spec (io : IoFaults) (done : Bytes) (hS : CollisionFree S) {ps : List Bytes}
    (hps : ∀ b ∈ ps, b ∈ S) (hsmall : done.length + ps.flatten.length < 2 ^ 64)
    (h : d.Wf S M cap) (hstore : d.store.isSome) :
    Triple (· = d) ((refsFrom done.length ps).forM (persistBlock io (done ++ ps.flatten)))
      (fun _ d' => d'.Wf S M cap ∧ Kept d (refsFrom done.length ps) d')
      (fun d' => d'.Wf S M cap ∧ Frame d d' ∧ ∀ x, d.count x ≤ d'.count x) := by
  induction ps generalizing done d with
  | nil =>
    refine Triple.pure ?_
    rintro d rfl
    exact ⟨h, Kept.nil d⟩
  | cons x ps ih =>
    simp only [List.flatten_cons, List.length_append] at hsmall
    have hslice : slice (done ++ (x ++ ps.flatten)) (blockRef x done.length).offset.toNat
        (blockRef x done.length).len.toNat = x := by
      simp only [blockRef]
      rw [toNat_ofNat (by omega), toNat_ofNat (by omega), slice_pieces]
    have hblock := persistBlock_spec io hS h hstore (hps x (by simp)) (by omega) hslice
    refine Triple.bind (Triple.conseq hblock (fun _ hd => hd) (fun _ _ hd => hd) ?_) fun _ =>
      Triple.of_state ?_
    · rintro d' ⟨hwf, hframe, hrefs⟩
      exact ⟨hwf, hframe, fun y => by rw [Durable.count, Durable.count, hrefs]⟩
    · rintro d₁ ⟨hwf, hframe, hrefs, hused⟩
      have hrest := ih (done ++ x) (fun b hb => hps b (by simp [hb]))
        (by simp only [List.length_append]; omega) hwf (by rw [hframe.store]; exact hstore)
      rw [List.append_assoc, List.length_append] at hrest
      refine Triple.conseq hrest (fun _ hd => hd) ?_ ?_
      · rintro _ d₂ ⟨hwf₂, hkept⟩
        exact ⟨hwf₂, Kept.cons hframe hrefs hused hkept⟩
      · rintro d₂ ⟨hwf₂, hframe₂, hcount⟩
        refine ⟨hwf₂, hframe.trans hframe₂, fun y => le_trans ?_ (hcount y)⟩
        rw [Durable.count, Durable.count, hrefs]
        exact (Nat.le_add_right _ _).trans_eq (count_addRef _ d y).symm

/-! ### Manifests -/

lemma plan_ok {blockSize : ℕ} {byteLen : UInt64} {bytes : Bytes} {blocks : List BlockRef} {n : ℕ}
    (h : d.plan blockSize byteLen bytes = .ok (blocks, n)) :
    d.store.isSome ∧ chunk bytes blockSize = .ok blocks ∧
      validateBlockList blocks byteLen = .ok () ∧ n = newBytes d.held blocks ∧
      n ≤ d.budget.free := by
  unfold plan at h
  split_ifs at h with hstore
  cases hc : chunk bytes blockSize with
  | error e => rw [hc] at h; cases h
  | ok bs =>
    rw [hc] at h
    cases hv : validateBlockList bs byteLen with
    | error e =>
      change (validateBlockList bs byteLen >>= _) = _ at h
      rw [hv] at h
      cases h
    | ok u =>
      change (validateBlockList bs byteLen >>= fun _ =>
        if newBytes (fun h => (d.refs.lookup h).isSome) bs > d.budget.free then _ else _) = _ at h
      rw [hv] at h
      change (if _ then _ else _) = _ at h
      split_ifs at h with hcap
      cases h
      refine ⟨?_, Eq.refl _, hv, Eq.refl _, not_lt.mp hcap⟩
      cases hs : d.store with
      | none => rw [hs] at hstore; simp at hstore
      | some st => rfl

/-- What `keep` can do to the manifests: only the one it is about to write changes. -/
def OtherManifests (oid : ObjectId) (d d' : Durable) : Prop :=
  ∀ q, IsManifest q → q ≠ manifestFile oid → d'.file q = d.file q

lemma Frame.otherManifests (h : Frame d d') (oid : ObjectId) : OtherManifests oid d d' :=
  fun q hq _ => h.manifests q hq

/-- A payload has been kept: its references are counted, the pre-pass is charged, and the
manifest is there. -/
structure KeepOk (oid : ObjectId) (blocks : List BlockRef) (m : PersistEntryMeta)
    (d d' : Durable) : Prop where
  stored : d.store.isSome
  store : d'.store.isSome
  count : ∀ h, d'.count h = d.count h + countRef h blocks
  budget : d'.budget = { d.budget with used := d.budget.used + newBytes d.held blocks }
  used_le : d'.used ≤ d.used + newBytes d.held blocks
  used_eq : FreshDistinct d.held blocks → d'.used = d.used + newBytes d.held blocks
  manifest : d'.file (manifestFile oid) = some (encodeManifest m)
  others : OtherManifests oid d d'

/-- An attempt to keep a payload has failed somewhere. -/
structure KeepFailed (oid : ObjectId) (d d' : Durable) : Prop where
  store : d'.store.isSome = d.store.isSome
  count : ∀ h, d.count h ≤ d'.count h
  manifest : d'.file (manifestFile oid) = d.file (manifestFile oid) ∨
    d'.file (manifestFile oid) = none
  others : OtherManifests oid d d'

lemma KeepFailed.rfl (oid : ObjectId) (d : Durable) : KeepFailed oid d d :=
  ⟨Eq.refl _, fun _ => le_rfl, Or.inl (Eq.refl _), fun _ _ _ => Eq.refl _⟩

lemma Wf.of_budget (h : d.Wf S M cap) {b : Budget} (hb : b.Wf)
    (hcap : b.capacity = cap) : Wf S M cap { d with budget := b } :=
  ⟨h.files, h.pos, h.file, h.used, hb, hcap⟩

/-- The manifest write at the end of `keep`. -/
lemma writeManifest_tier (io : IoFaults) (h : d.Wf S M cap) (hstore : d.store.isSome) {oid : ObjectId}
    {m : PersistEntryMeta} (hoid : m.objectId = oid.toHex)
    (henc : m.compat.encode.length < 2 ^ 64) (hfew : m.blocks.length ≤ maxBlocksPerTensor)
    (hm : M (manifestFile oid) m) :
    Triple (· = d) (onStore (PersistentStore.writeManifest io m))
      (fun _ d' => d'.Wf S M cap ∧ d'.store.isSome ∧ d'.refs = d.refs ∧ d'.used = d.used ∧
        d'.budget = d.budget ∧ d'.file (manifestFile oid) = some (encodeManifest m) ∧
        OtherManifests oid d d')
      (fun d' => d'.Wf S M cap ∧ d'.store.isSome ∧ d'.refs = d.refs ∧
        (d'.file (manifestFile oid) = d.file (manifestFile oid) ∨
          d'.file (manifestFile oid) = none) ∧
        OtherManifests oid d d') := by
  obtain ⟨st, hst⟩ := Option.isSome_iff_exists.mp hstore
  have hdisk : ∀ q, d.file q = st.disk.lookup q := fun q => by rw [Durable.file, hst]
  have hblock : ∀ x, blockFile x ≠ manifestFile oid ∧
      blockFile x ≠ tmpPath (manifestFile oid) st.pid := fun x =>
    ⟨blockFile_ne_manifestFile x oid, fun heq => by cases congrArg Path.dir heq⟩
  have htmp : ∀ q, IsManifest q → q ≠ tmpPath (manifestFile oid) st.pid := by
    rintro q hq rfl
    exact not_isManifest_tmp _ (manifestFile_name_ne_nil oid) _ hq
  have hspec := PersistentStore.writeManifest_spec io st.disk hoid
    (fileOk_manifest (S := S) henc hfew hm) fun c => fileOk_tmp_manifest oid st.pid c
  refine Triple.conseq (onStore_triple hst ⟨Eq.refl _, h.files st hst, Eq.refl _⟩ hspec)
    (fun _ hd => hd) ?_ ?_
  · rintro _ d' ⟨st', ⟨-, halways, hmanifest, hothers⟩, rfl⟩
    refine ⟨h.of_store (Eq.refl _) (Eq.refl _) (Eq.refl _) ?_ fun x _ => ?_, Eq.refl _,
      Eq.refl _, Eq.refl _, Eq.refl _, hmanifest, fun q hq hne => ?_⟩
    · rintro _ ⟨⟩
      exact halways
    · rw [hdisk]
      exact hothers _ (hblock x).1 (hblock x).2
    · rw [hdisk]
      exact hothers q hne (htmp q hq)
  · rintro d' ⟨st', hrep, rfl⟩
    refine ⟨h.of_store (Eq.refl _) (Eq.refl _) (Eq.refl _) ?_ fun x _ => ?_, Eq.refl _,
      Eq.refl _, ?_, fun q hq hne => ?_⟩
    · rintro _ ⟨⟩
      exact hrep.always
    · rw [hdisk]
      exact hrep.others _ (hblock x).1 (hblock x).2
    · rw [hdisk]
      exact hrep.target
    · rw [hdisk]
      exact hrep.others q hne (htmp q hq)

/-- Keeping a payload durably. -/
theorem keep_spec (io : IoFaults) (hS : CollisionFree S) (h : d.Wf S M cap) {blockSize : ℕ} {oid : ObjectId}
    {address : Address} {compat : CompatKey} {byteLen createdNs : UInt64} {p : Bytes}
    (hsmall : p.length < 2 ^ 64) (hps : ∀ b ∈ pieces p blockSize, b ∈ S)
    (henc : compat.encode.length < 2 ^ 64)
    (hM : ∀ blocks numel, chunk p blockSize = .ok blocks → compat.shape.numel = .ok numel →
      M (manifestFile oid) (metaOf oid address compat byteLen numel createdNs blocks)) :
    Triple (· = d) (keep io blockSize oid address compat byteLen createdNs p)
      (fun _ d' => d'.Wf S M cap ∧ ∃ blocks numel, chunk p blockSize = .ok blocks ∧
        compat.shape.numel = .ok numel ∧
        KeepOk oid blocks (metaOf oid address compat byteLen numel createdNs blocks) d d')
      (fun d' => d'.Wf S M cap ∧ KeepFailed oid d d') := by
  rw [keep]
  refine Triple.get_bind ?_
  rintro d rfl
  cases hplan : d.plan blockSize byteLen p with
  | error e =>
    rw [ofExcept_error_bind]
    refine Triple.throw ?_
    rintro d rfl
    exact ⟨h, KeepFailed.rfl oid d⟩
  | ok bn =>
    obtain ⟨blocks, n⟩ := bn
    obtain ⟨hstore, hchunk, -, hn, hfree⟩ := plan_ok hplan
    obtain ⟨hrefs, htiles⟩ := chunk_spec hchunk
    have hfits := h.budget.fits
    have hreserve := h.budget.reserve hfree
    rw [h.budget.free_eq] at hfree
    have hb₁ : Budget.Wf { d.budget with reserved := d.budget.reserved + n } :=
      ⟨h.budget.small, by simp only; omega⟩
    have hcommit := hb₁.commitReserve (n := n) (by simp only; omega)
    simp only [Nat.add_sub_cancel] at hcommit
    have hb₂ : Budget.Wf { d.budget with used := d.budget.used + n } :=
      ⟨h.budget.small, by simp only; omega⟩
    rw [ofExcept_ok_bind]
    -- the reservation
    refine Triple.bind (Q := fun _ d' =>
      d' = { d with budget := { d.budget with reserved := d.budget.reserved + n } }) ?_
      fun _ => Triple.of_state ?_
    · rintro _ rfl
      rw [onBudget, zoom_of_ok hreserve]
    rintro d₁ rfl
    -- the block loop
    have hloop := persistAll_spec io [] hS hps
      (by rw [htiles.flatten]; simpa using hsmall) (h.of_budget hb₁ h.capacity) hstore
    rw [List.length_nil, ← hrefs, List.nil_append, htiles.flatten] at hloop
    refine Triple.bind (Triple.conseq hloop (fun _ hd => hd) (fun _ _ hd => hd) ?_) fun _ =>
      Triple.of_state ?_
    · rintro d' ⟨hwf, hframe, hcount⟩
      exact ⟨hwf, hframe.store, hcount,
        Or.inl (hframe.manifests _ (isManifest_manifestFile oid)), hframe.otherManifests oid⟩
    rintro d₂ ⟨hwf₂, hkept⟩
    -- the commit
    refine Triple.bind (Q := fun _ d' =>
      d' = { d₂ with budget := { d.budget with used := d.budget.used + n } }) ?_
      fun _ => Triple.of_state ?_
    · rintro d₂ rfl
      have hrun : Budget.commitReserve n d₂.budget
          = .ok ⟨⟩ { d.budget with used := d.budget.used + n } := by
        rw [hkept.frame.budget]
        exact hcommit
      rw [onBudget, zoom_of_ok hrun]
    rintro d₃ rfl
    have hwf₃ : Wf S M cap { d₂ with budget := { d.budget with used := d.budget.used + n } } :=
      hwf₂.of_budget hb₂ h.capacity
    have hcount₃ : ∀ x, d.count x ≤ d₂.count x := fun x =>
      (Nat.le_add_right _ _).trans_eq (hkept.count x).symm
    cases hnumel : compat.shape.numel with
    | error e =>
      rw [ofExcept_error_bind]
      refine Triple.throw ?_
      rintro _ rfl
      exact ⟨hwf₃, hkept.frame.store, hcount₃,
        Or.inl (hkept.frame.manifests _ (isManifest_manifestFile oid)),
        hkept.frame.otherManifests oid⟩
    | ok numel =>
      rw [ofExcept_ok_bind]
      have hfew : blocks.length ≤ maxBlocksPerTensor := by
        rw [hrefs, length_refsFrom]
        exact htiles.few
      have hwrite := writeManifest_tier io hwf₃
        (by rw [show _ = d₂.store.isSome from Eq.refl _, hkept.frame.store]; exact hstore)
        (m := metaOf oid address compat byteLen numel createdNs blocks) (Eq.refl _) henc hfew
        (hM blocks numel hchunk hnumel)
      refine Triple.conseq hwrite (fun _ hd => hd) ?_ ?_
      · rintro _ d' ⟨hwf, hst', hr, hu, hb, hman, hoth⟩
        refine ⟨hwf, blocks, numel, hchunk, Eq.refl _, hstore, hst', fun x => ?_, ?_, ?_, fun hf => ?_,
          hman, fun q hq hne => (hoth q hq hne).trans (hkept.frame.manifests q hq)⟩
        · rw [Durable.count, hr]
          exact hkept.count x
        · rw [hb, hn]
        · rw [hu]
          exact hkept.used_le
        · rw [hu]
          exact hkept.used_eq hf
      · rintro d' ⟨hwf, hst', hr, hman, hoth⟩
        refine ⟨hwf, by rw [hst', hstore], fun x => ?_, ?_,
          fun q hq hne => (hoth q hq hne).trans (hkept.frame.manifests q hq)⟩
        · rw [Durable.count, Durable.count, hr]
          exact hcount₃ x
        · rcases hman with hman | hman
          · exact Or.inl (hman.trans (hkept.frame.manifests _ (isManifest_manifestFile oid)))
          · exact Or.inr hman

/-! ### Dropping a payload -/

lemma dropBlock_of_none {b : BlockRef} (h : d.refs.lookup b.contentHash = none) :
    dropBlock io b d = .ok ⟨⟩ d := by
  simp [dropBlock, h]

lemma dropBlock_of_shared {b : BlockRef} {n : ℕ}
    (h : d.refs.lookup b.contentHash = some (n + 2)) :
    dropBlock io b d = .ok ⟨⟩ { d with refs := d.refs.insert b.contentHash (n + 1) } := by
  simp [dropBlock, h]

lemma dropBlock_of_last {b : BlockRef} (h : d.refs.lookup b.contentHash = some 1) :
    dropBlock io b d
      = .ok ⟨⟩ (freeRef b (onStore (PersistentStore.removeBlock io b.contentHash) d).state) := by
  simp only [dropBlock, h]
  rfl

/-- Removing a block file changes no other file. -/
lemma removeBlock_tier (io : IoFaults) (h : d.Wf S M cap) (x : Digest) :
    let d' := (onStore (PersistentStore.removeBlock io x) d).state
    (∀ st, d'.store = some st → st.Always (FileOk S M)) ∧ d'.store.isSome = d.store.isSome ∧
      d'.refs = d.refs ∧ d'.used = d.used ∧ d'.budget = d.budget ∧
      ∀ q, q ≠ blockFile x → d'.file q = d.file q := by
  cases hst : d.store with
  | none =>
    have hrun : onStore (PersistentStore.removeBlock io x) d
        = .error (.persistence "no persistent tier configured") d := by
      simp only [onStore, hst]
    rw [hrun]
    exact ⟨fun st hst' => h.files st hst', by simp [hst], Eq.refl _, Eq.refl _, Eq.refl _,
      fun _ _ => Eq.refl _⟩
  | some st =>
    have hdisk : ∀ q, d.file q = st.disk.lookup q := fun q => by rw [Durable.file, hst]
    have hspec := Triple.conseq
      (PersistentStore.removeBlock_spec io st.disk st.pid (Q := FileOk S M) x) (fun _ hd => hd)
      (Q := fun _ st' => st'.Always (FileOk S M) ∧
        ∀ q, q ≠ blockFile x → st'.disk.lookup q = st.disk.lookup q)
      (E := fun st' => st'.Always (FileOk S M) ∧
        ∀ q, q ≠ blockFile x → st'.disk.lookup q = st.disk.lookup q)
      (fun _ _ hd => hd.2) (fun _ hd => ⟨hd.2.1, fun _ _ => by rw [hd.2.2]⟩)
    obtain ⟨st', ⟨halways, hothers⟩, heq⟩ :=
      (onStore_triple hst ⟨Eq.refl _, h.files st hst, Eq.refl _⟩ hspec).state (Eq.refl d)
    rw [heq]
    refine ⟨?_, Eq.refl _, Eq.refl _, Eq.refl _, Eq.refl _, fun q hq => ?_⟩
    · rintro _ ⟨⟩
      exact halways
    · rw [hdisk]
      exact hothers q hq

/-- One reference is taken away; the last one takes the block with it. -/
lemma dropBlock_spec (io : IoFaults) (hS : CollisionFree S) (h : d.Wf S M cap) {b : BlockRef}
    (hb : RefTo S b) :
    ∃ d', dropBlock io b d = .ok ⟨⟩ d' ∧ d'.Wf S M cap ∧ Frame d d' ∧
      (∀ x, d'.count x = d.count x - if x = b.contentHash then 1 else 0) ∧
      (1 < d.count b.contentHash → d'.used = d.used) := by
  obtain ⟨block, hblock, offset, hsmall, rfl⟩ := hb
  cases hl : d.refs.lookup (blockRef block offset).contentHash with
  | none =>
    refine ⟨d, dropBlock_of_none hl, h, Frame.rfl d, fun x => ?_, fun _ => Eq.refl _⟩
    split_ifs with hx
    · rw [hx, count, hl]
      rfl
    · rfl
  | some n =>
    have hl' : d.refs.lookup (hash block) = some n := hl
    have hlen := h.blockLen_eq hS hblock hl'
    match n, hl with
    | 0, hl => exact absurd (h.pos _ 0 hl) (by omega)
    | 1, hl =>
      obtain ⟨hfiles, hstore, hrefs, hused, hbudget, hothers⟩ :=
        removeBlock_tier io h (blockRef block offset).contentHash
      refine ⟨_, dropBlock_of_last hl, ⟨hfiles, fun x m hm => ?_, fun x m hm => ?_, ?_, ?_, ?_⟩,
        ⟨hstore, hbudget, fun q hq => hothers q ?_⟩, fun x => ?_, fun hshared => ?_⟩
      · rw [freeRef, hrefs, AList.lookup_erase_eq_ite] at hm
        split_ifs at hm
        exact h.pos x m hm
      · rw [freeRef, hrefs, AList.lookup_erase_eq_ite] at hm
        split_ifs at hm with hx
        rw [show Durable.file (freeRef _ _) (blockFile x) = _ from
          hothers (blockFile x) fun heq => hx (blockFile_injective heq)]
        exact h.file x m hm
      · -- the counter loses the length of the block, and so does the total
        change Durable.used _ - (UInt64.ofNat block.length).toNat = _
        rw [hused, toNat_ofNat hsmall, freeRef, hrefs]
        have htotal := AList.add_total_erase (fun x _ => d.blockLen x) hl'
        rw [hlen, ← h.used] at htotal
        have hcongr : (d.refs.erase (hash block)).total (fun x _ => d.blockLen x)
            = (d.refs.erase (hash block)).total fun x _ =>
              (onStore (PersistentStore.removeBlock io (hash block)) d).state.blockLen x := by
          refine AList.total_congr fun x m hm => ?_
          rw [AList.lookup_erase_eq_ite] at hm
          split_ifs at hm with hx
          have hfile := hothers (blockFile x) fun heq => hx (blockFile_injective heq)
          exact congrArg (fun c => (c.map List.length).getD 0) hfile.symm
        rw [hcongr] at htotal
        change d.used - block.length = (d.refs.erase (hash block)).total fun x _ =>
          (onStore (PersistentStore.removeBlock io (hash block)) d).state.blockLen x
        omega
      · rw [show (freeRef _ _).budget = _ from hbudget]
        exact h.budget
      · rw [show (freeRef _ _).budget = _ from hbudget]
        exact h.capacity
      · rintro rfl
        exact not_isManifest_blockFile _ hq
      · rw [count, count, freeRef, hrefs, AList.lookup_erase_eq_ite]
        split_ifs with hx
        · rw [hx, hl]
          rfl
        · rfl
      · rw [count, hl] at hshared
        exact absurd hshared (lt_irrefl 1)
    | n + 2, hl =>
      refine ⟨_, dropBlock_of_shared hl, ⟨h.files, fun x m hm => ?_, fun x m hm => ?_, ?_,
        h.budget, h.capacity⟩, ⟨Eq.refl _, Eq.refl _, fun _ _ => Eq.refl _⟩, fun x => ?_,
        fun _ => Eq.refl _⟩
      · simp only [AList.lookup_insert_eq_ite] at hm
        split_ifs at hm
        · cases hm
          omega
        · exact h.pos x m hm
      · simp only [AList.lookup_insert_eq_ite] at hm
        split_ifs at hm with hx
        · rw [hx]
          exact h.file _ _ hl
        · exact h.file x m hm
      · have := AList.total_insert_add (fun x _ => d.blockLen x) (n + 1) hl
        change d.used = (d.refs.insert _ (n + 1)).total fun x _ => d.blockLen x
        rw [h.used]
        omega
      · simp only [count, AList.lookup_insert_eq_ite]
        split_ifs with hx
        · rw [hx, hl]
          rfl
        · rfl

/-- The block loop of `drop`. -/
lemma dropAll_spec (io : IoFaults) (hS : CollisionFree S) {blocks : List BlockRef}
    (hb : ∀ b ∈ blocks, RefTo S b) (h : d.Wf S M cap) :
    ∃ d', blocks.forM (dropBlock io) d = .ok ⟨⟩ d' ∧ d'.Wf S M cap ∧ Frame d d' ∧
      (∀ x, d'.count x = d.count x - countRef x blocks) ∧
      ((∀ b ∈ blocks, countRef b.contentHash blocks < d.count b.contentHash) →
        d'.used = d.used) := by
  induction blocks generalizing d with
  | nil => exact ⟨d, Eq.refl _, h, Frame.rfl d, fun x => by simp, fun _ => Eq.refl _⟩
  | cons b blocks ih =>
    obtain ⟨d₁, hrun₁, hwf₁, hframe₁, hcount₁, hused₁⟩ := dropBlock_spec io hS h (hb b (by simp))
    obtain ⟨d₂, hrun₂, hwf₂, hframe₂, hcount₂, hused₂⟩ := ih (fun c hc => hb c (by simp [hc])) hwf₁
    refine ⟨d₂, ?_, hwf₂, hframe₁.trans hframe₂, fun x => ?_, fun hshared => ?_⟩
    · change EStateM.bind _ _ d = _
      simp only [EStateM.bind, hrun₁]
      exact hrun₂
    · rw [hcount₂, hcount₁, countRef_cons]
      by_cases hx : x = b.contentHash
      · rw [if_pos hx, if_pos hx.symm]
        omega
      · rw [if_neg hx, if_neg (Ne.symm hx)]
        omega
    · have hfirst := hshared b (by simp)
      rw [countRef_cons, if_pos (Eq.refl _)] at hfirst
      refine (hused₂ fun c hc => ?_).trans (hused₁ (by omega))
      have hrest := hshared c (by simp [hc])
      rw [countRef_cons] at hrest
      rw [hcount₁]
      by_cases hcb : c.contentHash = b.contentHash
      · rw [if_pos hcb]
        rw [if_pos hcb.symm] at hrest
        omega
      · rw [if_neg hcb]
        rw [if_neg (Ne.symm hcb)] at hrest
        omega

/-- No removal of a file fails. -/
def NoRemoveFault (io : IoFaults) : Prop := ∀ n path, io n (.remove path) = none

/-- Removing a manifest changes no other file; it only stays if the removal fails. -/
lemma removeManifest_tier (io : IoFaults) (h : d.Wf S M cap) (oid : ObjectId) :
    let d' := (onStore (PersistentStore.removeManifest io oid.toHex) d).state
    d'.Wf S M cap ∧ d'.store.isSome = d.store.isSome ∧ d'.refs = d.refs ∧ d'.used = d.used ∧
      d'.budget = d.budget ∧ OtherManifests oid d d' ∧
      (d'.file (manifestFile oid) = none ∨
        d'.file (manifestFile oid) = d.file (manifestFile oid) ∧ ¬NoRemoveFault io) := by
  cases hst : d.store with
  | none =>
    have hrun : onStore (PersistentStore.removeManifest io oid.toHex) d
        = .error (.persistence "no persistent tier configured") d := by
      simp only [onStore, hst]
    rw [hrun]
    exact ⟨h, by simp [hst], Eq.refl _, Eq.refl _, Eq.refl _, fun _ _ _ => Eq.refl _,
      Or.inl (by simp [Durable.file, hst])⟩
  | some st =>
    have hdisk : ∀ q, d.file q = st.disk.lookup q := fun q => by rw [Durable.file, hst]
    have hspec := PersistentStore.removeManifest_spec io st.disk st.pid
      (Q := FileOk S M) oid
    have hrun := onStore_triple hst ⟨Eq.refl _, h.files st hst, Eq.refl _⟩ hspec d (Eq.refl d)
    cases hm : onStore (PersistentStore.removeManifest io oid.toHex) d with
    | ok u d' =>
      rw [hm] at hrun
      obtain ⟨st', ⟨-, halways, hnone, hothers⟩, rfl⟩ := hrun
      refine ⟨h.of_store (Eq.refl _) (Eq.refl _) (Eq.refl _) ?_ fun x _ => ?_, by simp,
        Eq.refl _, Eq.refl _, Eq.refl _, fun q _ hne => ?_, Or.inl hnone⟩
      · rintro _ ⟨⟩
        exact halways
      · rw [hdisk]
        exact hothers _ (blockFile_ne_manifestFile x oid)
      · rw [hdisk]
        exact hothers q hne
    | error e d' =>
      rw [hm] at hrun
      obtain ⟨st', ⟨-, halways, hsame⟩, rfl⟩ := hrun
      have hfile : ∀ q, ({ d with store := some st' } : Durable).file q = d.file q := fun q => by
        rw [hdisk]
        exact congrArg (AList.lookup q) hsame
      refine ⟨h.of_store (Eq.refl _) (Eq.refl _) (Eq.refl _) ?_ fun x _ => hfile _, by simp,
        Eq.refl _, Eq.refl _, Eq.refl _, fun q _ _ => hfile q, Or.inr ⟨hfile _, fun hno => ?_⟩⟩
      · rintro _ ⟨⟩
        exact halways
      · -- the only step of the command is a removal
        have hrun : PersistentStore.removeManifest io oid.toHex st = .error e st' := by
          simp only [onStore, hst] at hm
          cases hr : PersistentStore.removeManifest io oid.toHex st with
          | ok a s => rw [hr] at hm; cases hm
          | error e' s => rw [hr] at hm; cases hm; rfl
        rw [PersistentStore.removeManifest, manifestPath_eq, ofExcept_ok_bind,
          PersistentStore.removeFile] at hrun
        change (if _ then PersistentStore.attempt io (.remove (manifestFile oid)) else _) st = _
          at hrun
        split_ifs at hrun
        · rw [PersistentStore.attempt, hno] at hrun
          cases hrun
        · cases hrun

/-- A payload has been dropped: exactly its references are gone, and its manifest unless the
removal fails. -/
structure Dropped (io : IoFaults) (oid : ObjectId) (blocks : List BlockRef) (d d' : Durable) :
    Prop where
  store : d'.store.isSome = d.store.isSome
  budget : d'.budget = d.budget
  count : ∀ h, d'.count h = d.count h - countRef h blocks
  used_eq : (∀ b ∈ blocks, countRef b.contentHash blocks < d.count b.contentHash) →
    d'.used = d.used
  manifest : d'.file (manifestFile oid) = none ∨
    d'.file (manifestFile oid) = d.file (manifestFile oid) ∧ ¬NoRemoveFault io
  others : OtherManifests oid d d'

/-- Dropping a payload always returns. -/
theorem drop_spec (io : IoFaults) (hS : CollisionFree S) {blocks : List BlockRef}
    (hb : ∀ b ∈ blocks, RefTo S b) (h : d.Wf S M cap) (oid : ObjectId) :
    ∃ d', drop io blocks oid d = .ok ⟨⟩ d' ∧ d'.Wf S M cap ∧ Dropped io oid blocks d d' := by
  obtain ⟨d₁, hrun₁, hwf₁, hframe₁, hcount₁, hused₁⟩ := dropAll_spec io hS hb h
  obtain ⟨hwf, hstore, hrefs, hused, hbudget, hothers, hman⟩ := removeManifest_tier io hwf₁ oid
  refine ⟨_, ?_, hwf, hstore.trans hframe₁.store, hbudget.trans hframe₁.budget, fun x => ?_,
    fun hshared => hused.trans (hused₁ hshared), ?_,
    fun q hq hne => (hothers q hq hne).trans (hframe₁.manifests q hq)⟩
  · change EStateM.bind _ _ d = _
    simp only [EStateM.bind, hrun₁]
    rfl
  · rw [count, hrefs]
    exact hcount₁ x
  · rcases hman with hman | ⟨hman, hno⟩
    · exact Or.inl hman
    · exact Or.inr ⟨hman.trans (hframe₁.manifests _ (isManifest_manifestFile oid)), hno⟩

end Durable

end TensorCache
