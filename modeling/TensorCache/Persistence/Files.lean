import TensorCache.Persistence.Properties

/-!
# What the store does to its files

Each command of the store is described by what it does to the files: which files it leaves
alone, what the target holds afterwards, and which property of all files it keeps
(`PersistentStore.Always`), at every point where a crash could hit it.
-/

namespace TensorCache

open Codec DurableStep EStateM

/-- A property of every file. -/
def AllFiles (Q : Path → Bytes → Prop) (disk : Disk) : Prop :=
  ∀ path c, disk.lookup path = some c → Q path c

section Steps

variable {Q : Path → Bytes → Prop} {disk : Disk} {path : Path} {bytes : Bytes}

lemma AllFiles.insert (h : AllFiles Q disk) (hq : Q path bytes) :
    AllFiles Q (disk.insert path bytes) := by
  intro p c hc
  rw [AList.lookup_insert_eq_ite] at hc
  split_ifs at hc with hp
  · cases hc
    exact hp ▸ hq
  · exact h p c hc

lemma AllFiles.erase (h : AllFiles Q disk) (path : Path) : AllFiles Q (disk.erase path) := by
  intro p c hc
  rw [AList.lookup_erase_eq_ite] at hc
  split_ifs at hc
  exact h p c hc

lemma AllFiles.write (h : AllFiles Q disk) (hq : ∀ c, Q path (c ++ bytes)) :
    AllFiles Q (FsStep.apply (.write path bytes) disk) := by
  cases hl : disk.lookup path with
  | none =>
    rw [FsStep.apply, AList.modify_of_none hl]
    exact h
  | some c =>
    rw [FsStep.apply, AList.modify_of_some hl]
    exact h.insert (hq c)

lemma AllFiles.rename {src dst : Path} (h : AllFiles Q disk)
    (hq : ∀ c, disk.lookup src = some c → Q dst c) :
    AllFiles Q (FsStep.apply (.rename src dst) disk) := by
  cases hl : disk.lookup src with
  | none =>
    simp only [FsStep.apply, hl]
    exact h
  | some c =>
    simp only [FsStep.apply, hl]
    exact (h.erase src).insert (hq c hl)

end Steps

namespace PersistentStore

/-- A property of every file, in every state that a crash during the current call can leave. -/
def Always (Q : Path → Bytes → Prop) (st : PersistentStore) : Prop :=
  ∀ d, Crashes st.base st.journal d → AllFiles Q d

/-- The store after an attempt that made the given steps. -/
def push (st : PersistentStore) (steps : List FsStep) : PersistentStore :=
  { st with journal := st.journal ++ steps, attempts := st.attempts + 1 }

variable {Q : Path → Bytes → Prop} {st : PersistentStore} {step : FsStep}
  {io : IoFaults}

lemma Always.disk (h : st.Always Q) : AllFiles Q st.disk := h _ (crashes_replay _ _)

lemma always_beginCall (h : AllFiles Q st.disk) : st.beginCall.Always Q := by
  intro d hd
  cases hd
  exact h

@[simp] lemma disk_beginCall (st : PersistentStore) : st.beginCall.disk = st.disk := rfl

@[simp] lemma disk_push_nil (st : PersistentStore) : (st.push []).disk = st.disk := by
  simp [push, PersistentStore.disk]

@[simp] lemma disk_push (st : PersistentStore) (step : FsStep) :
    (st.push [step]).disk = step.apply st.disk := by
  simp only [push, PersistentStore.disk, replay_append_singleton]
  rfl

@[simp] lemma pid_push (st : PersistentStore) (steps : List FsStep) :
    (st.push steps).pid = st.pid := rfl

lemma Always.push_nil (h : st.Always Q) : (st.push []).Always Q := by
  intro d hd
  simp only [push, List.append_nil] at hd
  exact h d hd

lemma Always.push (h : st.Always Q) (happ : AllFiles Q (step.apply st.disk))
    (htorn : ∀ k t, step.torn k = some t → AllFiles Q (t.apply st.disk)) :
    (st.push [step]).Always Q := by
  intro d hd
  rcases hd.append_singleton with hd | rfl | ⟨k, t, ht, rfl⟩
  · exact h d hd
  · exact happ
  · exact htorn k t ht

/-- The rule for one attempt: either the step is made, or what remains of it. -/
lemma attempt_triple {P R E : PersistentStore → Prop} (hok : ∀ st, P st → R (st.push [step]))
    (herr : ∀ st k, P st → E (st.push (step.torn k).toList)) :
    Triple P (attempt io step) (fun _ => R) E := by
  intro st hst
  unfold attempt
  cases io st.attempts step with
  | none => exact hok st hst
  | some fault => exact herr st fault.written hst

/-! ### Writing files -/

/-- The state of affairs while a file is being replaced: only the file and its temporary sibling
differ from the files `d₀` at the beginning, and the file itself is as it was or gone. -/
structure Replacing (Q : Path → Bytes → Prop) (d₀ : Disk) (path tmp : Path) (pid : ℕ)
    (st : PersistentStore) : Prop where
  pid_eq : st.pid = pid
  always : st.Always Q
  others : ∀ q, q ≠ path → q ≠ tmp → st.disk.lookup q = d₀.lookup q
  target : st.disk.lookup path = d₀.lookup path ∨ st.disk.lookup path = none

section Write

variable {d₀ : Disk} {path : Path} {bytes : Bytes} {pid : ℕ}

/-- A step on the temporary file. -/
lemma Replacing.onTmp (h : Replacing Q d₀ path (tmpPath path pid) pid st) {steps : List FsStep}
    (halways : (st.push steps).Always Q)
    (hframe : ∀ q, q ≠ tmpPath path pid → (st.push steps).disk.lookup q = st.disk.lookup q) :
    Replacing Q d₀ path (tmpPath path pid) pid (st.push steps) where
  pid_eq := h.pid_eq
  always := halways
  others q hq hq' := (hframe q hq').trans (h.others q hq hq')
  target := by
    rw [hframe path (tmpPath_ne path pid).symm]
    exact h.target

lemma lookup_write_ne {q : Path} (h : q ≠ path) (disk : Disk) :
    (FsStep.apply (.write path bytes) disk).lookup q = disk.lookup q :=
  AList.lookup_modify_ne h

/-- Replacing a file: afterwards it holds the new bytes, and if anything fails it is as it was
or gone. No other file changes, apart from the temporary one. -/
theorem atomicWrite_spec (hq : Q path bytes) (htmp : ∀ c, Q (tmpPath path pid) c) :
    Triple (fun st => st.pid = pid ∧ st.Always Q ∧ st.disk = d₀) (atomicWrite io path bytes)
      (fun _ st => st.pid = pid ∧ st.Always Q ∧ st.disk.lookup path = some bytes ∧
        ∀ q, q ≠ path → q ≠ tmpPath path pid → st.disk.lookup q = d₀.lookup q)
      (Replacing Q d₀ path (tmpPath path pid) pid) := by
  have hne : path ≠ tmpPath path pid := (tmpPath_ne path pid).symm
  unfold atomicWrite
  refine Triple.bind (Q := fun s st => s.pid = pid ∧ st = s ∧
    Replacing Q d₀ path (tmpPath path pid) pid st) (Triple.get ?_) fun s => ?_
  · rintro st ⟨hpid, halways, rfl⟩
    exact ⟨hpid, rfl, hpid, halways, fun _ _ _ => rfl, Or.inl rfl⟩
  refine Triple.of_state ?_
  rintro s₀ ⟨hpid, -, hrep⟩
  rw [hpid]
  -- create: the temporary file is empty
  refine Triple.bind (Q := fun _ st => Replacing Q d₀ path (tmpPath path pid) pid st ∧
    st.disk.lookup (tmpPath path pid) = some []) (attempt_triple ?_ ?_) fun _ => ?_
  · rintro st rfl
    refine ⟨hrep.onTmp (hrep.always.push ?_ (by simp [FsStep.torn])) fun q hq => ?_, ?_⟩
    · exact hrep.always.disk.insert (htmp [])
    · rw [disk_push, FsStep.apply, AList.lookup_insert_ne hq]
    · rw [disk_push, FsStep.apply, AList.lookup_insert]
  · rintro st k rfl
    exact hrep.onTmp hrep.always.push_nil fun q _ => by simp [FsStep.torn]
  -- write: it holds the new bytes
  refine Triple.bind (Q := fun _ st => Replacing Q d₀ path (tmpPath path pid) pid st ∧
    st.disk.lookup (tmpPath path pid) = some bytes) (attempt_triple ?_ ?_) fun _ => ?_
  · rintro st ⟨hrep, hnil⟩
    have hwrite : ∀ b, AllFiles Q (FsStep.apply (.write (tmpPath path pid) b) st.disk) :=
      fun b => hrep.always.disk.write fun c => htmp _
    refine ⟨hrep.onTmp (hrep.always.push (hwrite bytes) ?_) fun q hq => ?_, ?_⟩
    · rintro k t ⟨⟩
      exact hwrite _
    · rw [disk_push, lookup_write_ne hq]
    · rw [disk_push, FsStep.apply, AList.lookup_modify_self, hnil]
      rfl
  · rintro st k ⟨hrep, -⟩
    have hwrite : ∀ b, AllFiles Q (FsStep.apply (.write (tmpPath path pid) b) st.disk) :=
      fun b => hrep.always.disk.write fun c => htmp _
    refine hrep.onTmp (hrep.always.push (hwrite _) ?_) fun q hq => ?_
    · rintro k' t ⟨⟩
      exact hwrite _
    · change (st.push [_]).disk.lookup q = _
      rw [disk_push, lookup_write_ne hq]
  -- sync: nothing changes
  refine Triple.bind (Q := fun _ st => Replacing Q d₀ path (tmpPath path pid) pid st ∧
    st.disk.lookup (tmpPath path pid) = some bytes) (attempt_triple ?_ ?_) fun _ => ?_
  · rintro st ⟨hrep, hbytes⟩
    refine ⟨hrep.onTmp (hrep.always.push hrep.always.disk (by simp [FsStep.torn])) fun q _ => ?_,
      ?_⟩
    · rw [disk_push, FsStep.apply]
    · rw [disk_push, FsStep.apply, hbytes]
  · rintro st k ⟨hrep, -⟩
    exact hrep.onTmp hrep.always.push_nil fun q _ => by simp [FsStep.torn]
  -- remove the old file, if there is one
  refine Triple.bind (Q := fun _ st => Replacing Q d₀ path (tmpPath path pid) pid st ∧
    st.disk.lookup (tmpPath path pid) = some bytes) ?_ fun _ => ?_
  · refine Triple.bind (Q := fun s st => Replacing Q d₀ path (tmpPath path pid) pid st ∧
      st.disk.lookup (tmpPath path pid) = some bytes) (Triple.get fun st h => h) fun s => ?_
    refine Triple.ite (fun _ => ?_) fun _ => Triple.pure fun _ h => h
    refine Triple.ignoring (attempt_triple ?_ ?_)
    · rintro st ⟨hrep, hbytes⟩
      have hsame : ∀ q, q ≠ path → (st.push [.remove path]).disk.lookup q = st.disk.lookup q := by
        intro q hq
        rw [disk_push, FsStep.apply, AList.lookup_erase_ne hq]
      refine ⟨⟨hrep.pid_eq, hrep.always.push (hrep.always.disk.erase _) (by simp [FsStep.torn]),
        fun q hq hq' => (hsame q hq).trans (hrep.others q hq hq'), Or.inr ?_⟩, ?_⟩
      · rw [disk_push, FsStep.apply, AList.lookup_erase]
      · rw [hsame _ hne.symm, hbytes]
    · rintro st k ⟨hrep, hbytes⟩
      refine ⟨hrep.onTmp hrep.always.push_nil fun q _ => by simp [FsStep.torn], ?_⟩
      simpa [FsStep.torn] using hbytes
  -- rename
  refine attempt_triple ?_ ?_
  · rintro st ⟨hrep, hbytes⟩
    have hdisk : (st.push [.rename (tmpPath path pid) path]).disk
        = (st.disk.erase (tmpPath path pid)).insert path bytes := by
      rw [disk_push]
      simp only [FsStep.apply, hbytes]
    refine ⟨hrep.pid_eq, hrep.always.push ?_ (by simp [FsStep.torn]), ?_, fun q hq hq' => ?_⟩
    · refine hrep.always.disk.rename fun c hc => ?_
      rw [hbytes] at hc
      cases hc
      exact hq
    · rw [hdisk, AList.lookup_insert]
    · rw [hdisk, AList.lookup_insert_ne hq, AList.lookup_erase_ne hq', hrep.others q hq hq']
  · rintro st k ⟨hrep, -⟩
    exact hrep.onTmp hrep.always.push_nil fun q _ => by simp [FsStep.torn]

end Write

/-! ### Blocks and manifests -/

section Commands

variable {d₀ : Disk} {pid : ℕ}

/-- A block file is written, or was there already with the right contents; a failure changes
nothing but the temporary file. -/
theorem putBlock_spec (io : IoFaults) (d₀ : Disk) {bytes : Bytes} (hq : Q (blockFile (hash bytes)) bytes)
    (htmp : ∀ c, Q (tmpPath (blockFile (hash bytes)) pid) c) :
    Triple (fun st => st.pid = pid ∧ st.Always Q ∧ st.disk = d₀) (putBlock io bytes)
      (fun _ st => st.pid = pid ∧ st.Always Q ∧
        st.disk.lookup (blockFile (hash bytes)) = some bytes ∧
        ∀ q, q ≠ blockFile (hash bytes) → q ≠ tmpPath (blockFile (hash bytes)) pid →
          st.disk.lookup q = d₀.lookup q)
      (fun st => st.pid = pid ∧ st.Always Q ∧
        ∀ q, q ≠ tmpPath (blockFile (hash bytes)) pid → st.disk.lookup q = d₀.lookup q) := by
  rw [putBlock, blockPath_eq, ofExcept_ok_bind]
  refine Triple.get_bind ?_
  rintro s ⟨hpid, halways, rfl⟩
  cases hlook : s.disk.lookup (blockFile (hash bytes)) with
  | some existing =>
    refine Triple.ite (fun _ => Triple.throw ?_) fun hsame => Triple.pure ?_
    · rintro st rfl
      exact ⟨hpid, halways, fun _ _ => rfl⟩
    · rintro st rfl
      exact ⟨hpid, halways, by rw [hlook, not_ne_iff.mp hsame], fun _ _ _ => rfl⟩
  | none =>
    refine Triple.bind (Triple.conseq (atomicWrite_spec hq htmp) ?_ (fun _ _ h => h) ?_)
      fun _ => Triple.pure fun _ h => h
    · rintro st rfl
      exact ⟨hpid, halways, rfl⟩
    · intro st hst
      refine ⟨hst.pid_eq, hst.always, fun q hq' => ?_⟩
      by_cases hblock : q = blockFile (hash bytes)
      · rw [hblock]
        rcases hst.target with h | h
        · exact h
        · rw [h, hlook]
      · exact hst.others q hblock hq'

/-- Removing a file removes it or, on failure, changes nothing. -/
lemma removeFile_spec (io : IoFaults) (d₀ : Disk) (pid : ℕ) (path : Path) :
    Triple (fun st => st.pid = pid ∧ st.Always Q ∧ st.disk = d₀) (removeFile io path)
      (fun _ st => st.pid = pid ∧ st.Always Q ∧ st.disk.lookup path = none ∧
        ∀ q, q ≠ path → st.disk.lookup q = d₀.lookup q)
      (fun st => st.pid = pid ∧ st.Always Q ∧ st.disk = d₀) := by
  unfold removeFile
  refine Triple.get_bind ?_
  rintro s ⟨hpid, halways, rfl⟩
  refine Triple.ite (fun _ => attempt_triple ?_ ?_) fun hnone => Triple.pure ?_
  · rintro st rfl
    refine ⟨hpid, halways.push (halways.disk.erase _) (by simp [FsStep.torn]), ?_, fun q hq => ?_⟩
    · rw [disk_push, FsStep.apply, AList.lookup_erase]
    · rw [disk_push, FsStep.apply, AList.lookup_erase_ne hq]
  · rintro st k rfl
    exact ⟨hpid, halways.push_nil, by simp [FsStep.torn]⟩
  · rintro st rfl
    exact ⟨hpid, halways, by simpa using hnone, fun _ _ => rfl⟩

lemma removeBlock_spec (io : IoFaults) (d₀ : Disk) (pid : ℕ) (d : Digest) :
    Triple (fun st => st.pid = pid ∧ st.Always Q ∧ st.disk = d₀) (removeBlock io d)
      (fun _ st => st.pid = pid ∧ st.Always Q ∧
        ∀ q, q ≠ blockFile d → st.disk.lookup q = d₀.lookup q)
      (fun st => st.pid = pid ∧ st.Always Q ∧ st.disk = d₀) := by
  unfold removeBlock
  rw [blockPath_eq]
  exact Triple.post (removeFile_spec io d₀ pid (blockFile d))
    fun _ st ⟨hpid, halways, _, hothers⟩ => ⟨hpid, halways, hothers⟩

lemma removeManifest_spec (io : IoFaults) (d₀ : Disk) (pid : ℕ) (oid : ObjectId) :
    Triple (fun st => st.pid = pid ∧ st.Always Q ∧ st.disk = d₀) (removeManifest io oid.toHex)
      (fun _ st => st.pid = pid ∧ st.Always Q ∧ st.disk.lookup (manifestFile oid) = none ∧
        ∀ q, q ≠ manifestFile oid → st.disk.lookup q = d₀.lookup q)
      (fun st => st.pid = pid ∧ st.Always Q ∧ st.disk = d₀) := by
  unfold removeManifest
  rw [manifestPath_eq]
  exact removeFile_spec io d₀ pid (manifestFile oid)

lemma writeManifest_spec (io : IoFaults) (d₀ : Disk) {oid : ObjectId} {m : PersistEntryMeta}
    (hoid : m.objectId = oid.toHex) (hq : Q (manifestFile oid) (encodeManifest m))
    (htmp : ∀ c, Q (tmpPath (manifestFile oid) pid) c) :
    Triple (fun st => st.pid = pid ∧ st.Always Q ∧ st.disk = d₀) (writeManifest io m)
      (fun _ st => st.pid = pid ∧ st.Always Q ∧
        st.disk.lookup (manifestFile oid) = some (encodeManifest m) ∧
        ∀ q, q ≠ manifestFile oid → q ≠ tmpPath (manifestFile oid) pid →
          st.disk.lookup q = d₀.lookup q)
      (Replacing Q d₀ (manifestFile oid) (tmpPath (manifestFile oid) pid) pid) := by
  unfold writeManifest
  rw [hoid, manifestPath_eq]
  exact atomicWrite_spec hq htmp

/-- Opening a store removes leftovers and nothing else. -/
lemma cleanupIncomplete_spec (io : IoFaults) (d₀ : Disk) (pid : ℕ) :
    Triple (fun st => st.pid = pid ∧ st.Always Q ∧ st.disk = d₀) (cleanupIncomplete io)
      (fun _ st => st.pid = pid ∧ st.Always Q ∧
        (∀ q, isLeftover q.name = false → st.disk.lookup q = d₀.lookup q) ∧
        ∀ q, st.disk.lookup q = d₀.lookup q ∨ st.disk.lookup q = none)
      (fun _ => False) := by
  unfold cleanupIncomplete
  refine Triple.bind (Q := fun _ st => st.pid = pid ∧ st.Always Q ∧ st.disk = d₀)
    (Triple.get fun st h => h) fun s => ?_
  refine Triple.pre (Triple.forM (I := fun _ (st : PersistentStore) => st.pid = pid ∧ st.Always Q ∧
    (∀ q, isLeftover q.name = false → st.disk.lookup q = d₀.lookup q) ∧
    ∀ q, st.disk.lookup q = d₀.lookup q ∨ st.disk.lookup q = none) ?_ _) ?_
  · intro path rest
    refine Triple.ite (fun hleft => Triple.ignoring (attempt_triple ?_ ?_))
      fun _ => Triple.pure fun _ h => h
    · rintro st ⟨hpid, halways, hkeep, hor⟩
      refine ⟨hpid, halways.push (halways.disk.erase _) (by simp [FsStep.torn]), fun q hq => ?_,
        fun q => ?_⟩
      · have hne : q ≠ path := by
          rintro rfl
          rw [hleft] at hq
          cases hq
        rw [disk_push, FsStep.apply, AList.lookup_erase_ne hne, hkeep q hq]
      · rw [disk_push, FsStep.apply, AList.lookup_erase_eq_ite]
        split_ifs
        · exact Or.inr rfl
        · exact hor q
    · rintro st k ⟨hpid, halways, hkeep, hor⟩
      exact ⟨hpid, halways.push_nil, by simpa [FsStep.torn] using hkeep,
        by simpa [FsStep.torn] using hor⟩
  · rintro st ⟨hpid, halways, rfl⟩
    exact ⟨hpid, halways, fun _ _ => rfl, fun _ => Or.inl rfl⟩

end Commands

end PersistentStore

end TensorCache
