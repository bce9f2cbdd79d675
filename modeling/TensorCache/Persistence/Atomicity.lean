import TensorCache.Persistence.Files

/-!
# Replacing a file

A file is replaced by writing a temporary sibling and renaming it into place. Before the rename
the old file is removed, so a crash between the two leaves neither the old contents nor the new:
the temporary file that holds them is taken for a leftover when the store is opened again. A
commit is atomic exactly when there was no file before.
-/

namespace TensorCache

open Codec DurableStep EStateM

namespace PersistentStore

/-- A store that has just been opened on the given files. -/
def opened (disk : Disk) (pid : ℕ) : PersistentStore := { base := disk, pid }

/-- The files that a crash during a command on the given files can leave. -/
def Interrupted (disk : Disk) (pid : ℕ) (command : EStateM Error PersistentStore PUnit) (d : Disk) :
    Prop :=
  Crashes (command (opened disk pid)).state.base (command (opened disk pid)).state.journal d

/-- Wherever a command that writes `bytes` to `path` is interrupted, the path holds what it held
before or the new bytes once the store is opened again. -/
def CrashAtomic (disk : Disk) (pid : ℕ) (path : Path) (bytes : Bytes)
    (command : IoFaults → EStateM Error PersistentStore PUnit) : Prop :=
  ∀ io d, Interrupted disk pid (command io) d → ∀ io' pid',
    (openOn io' d pid').disk.lookup path = disk.lookup path ∨
      (openOn io' d pid').disk.lookup path = some bytes

variable {disk : Disk} {pid : ℕ} {path : Path} {bytes : Bytes}

lemma opened_always {Q : Path → Bytes → Prop} (h : AllFiles Q disk) : (opened disk pid).Always Q := by
  intro d hd
  cases hd
  exact h

/-- Opening a store keeps or removes a file. -/
lemma lookup_openOn (io : IoFaults) (d : Disk) (pid : ℕ) (path : Path) :
    (openOn io d pid).disk.lookup path = d.lookup path ∨
      (openOn io d pid).disk.lookup path = none := by
  have hspec := cleanupIncomplete_spec (Q := fun _ _ => True) io d pid
  have hstart : (opened d pid).Always fun _ _ => True := opened_always fun _ _ _ => trivial
  unfold openOn
  cases hrun : cleanupIncomplete io { base := d, pid } with
  | ok u st => exact (hspec.ok ⟨rfl, hstart, rfl⟩ hrun).2.2.2 path
  | error e st => exact (hspec.error ⟨rfl, hstart, rfl⟩ hrun).elim

/-- What a crash of a commit to a new file leaves of it is nothing or the new bytes. -/
lemma lookup_of_interrupted (hnone : disk.lookup path = none) {io : IoFaults} {d : Disk}
    (h : Interrupted disk pid (atomicWrite io path bytes) d) :
    d.lookup path = none ∨ d.lookup path = some bytes := by
  -- in every state of the run, a file at `path` holds the new bytes
  have hspec : Triple (fun st => st.pid = pid ∧ st.Always (fun q c => q = path → c = bytes) ∧
      st.disk = disk) (atomicWrite io path bytes) (fun _ st => st.Always fun q c => q = path → c = bytes)
      (fun st => st.Always fun q c => q = path → c = bytes) :=
    (atomicWrite_spec (fun _ => rfl) fun c htmp => absurd htmp (tmpPath_ne path pid)).conseq
      (fun _ hs => hs) (fun _ _ hs => hs.2.1) fun _ hs => hs.always
  have hstart : (opened disk pid).Always fun q c => q = path → c = bytes := by
    refine opened_always fun q c hc hq => ?_
    rw [hq, hnone] at hc
    cases hc
  have hfiles := hspec.state ⟨rfl, hstart, rfl⟩ d h
  cases hd : d.lookup path with
  | none => exact Or.inl rfl
  | some c => exact Or.inr (congrArg some (hfiles path c hd rfl))

/-- The steps of an undisturbed commit that replaces a file. -/
def replacing (path : Path) (bytes : Bytes) (pid : ℕ) : List FsStep :=
  [.create (tmpPath path pid), .write (tmpPath path pid) bytes, .sync (tmpPath path pid),
    .remove path, .rename (tmpPath path pid) path]

lemma atomicWrite_replacing {old : Bytes} (hold : disk.lookup path = some old) :
    (atomicWrite (fun _ _ => none) path bytes (opened disk pid)).state
      = { base := disk, journal := replacing path bytes pid, attempts := 5, pid } := by
  have hne : path ≠ tmpPath path pid := (tmpPath_ne path pid).symm
  obtain ⟨st, hst⟩ : ∃ st, st = (((opened disk pid).push [.create (tmpPath path pid)]).push
    [.write (tmpPath path pid) bytes]).push [.sync (tmpPath path pid)] := ⟨_, rfl⟩
  have hlook : st.disk.lookup path = some old := by
    have hwritten : st.disk = FsStep.apply (.write (tmpPath path pid) bytes)
        (disk.insert (tmpPath path pid) []) := by
      rw [hst, disk_push, disk_push, disk_push]
      rfl
    rw [hwritten, lookup_write_ne hne, AList.lookup_insert_ne hne, hold]
  have hremove : removeReplaced (fun _ _ => none) path st = .ok ⟨⟩ (st.push [.remove path]) := by
    unfold removeReplaced
    rw [get_bind_apply, hlook]
    rfl
  have hrun : atomicWrite (fun _ _ => none) path bytes (opened disk pid)
      = (removeReplaced (fun _ _ => none) path >>= fun _ =>
          attempt (fun _ _ => none) (.rename (tmpPath path pid) path)) st := by
    rw [hst]
    rfl
  rw [hrun]
  change (EStateM.bind _ _ st).state = _
  rw [EStateM.bind, hremove, hst]
  rfl

/-- A crash after the old file is gone and before the new one is in place. -/
lemma exists_interrupted {old : Bytes} (hold : disk.lookup path = some old) (bytes : Bytes)
    (pid : ℕ) :
    ∃ d, Interrupted disk pid (atomicWrite (fun _ _ => none) path bytes) d ∧
      d.lookup path = none := by
  refine ⟨replay ((replacing path bytes pid).take 4) disk, ?_, AList.lookup_erase _ _⟩
  rw [Interrupted, atomicWrite_replacing hold]
  exact .later (.later (.later (.later (.here _ _))))

lemma not_crashAtomic {old : Bytes} (hold : disk.lookup path = some old) (bytes : Bytes) (pid : ℕ) :
    ¬CrashAtomic disk pid path bytes (fun io => atomicWrite io path bytes) := by
  intro h
  obtain ⟨d, hd, hlost⟩ := exists_interrupted hold bytes pid
  have hopen : (openOn (fun _ _ => none) d pid).disk.lookup path = none := by
    rcases lookup_openOn (fun _ _ => none) d pid path with hkeep | hgone
    · rw [hkeep, hlost]
    · exact hgone
  rcases h _ d hd (fun _ _ => none) pid with hsame | hnew
  · rw [hopen, hold] at hsame
    cases hsame
  · rw [hopen] at hnew
    cases hnew

lemma crashAtomic_of_none (hnone : disk.lookup path = none) (bytes : Bytes) (pid : ℕ) :
    CrashAtomic disk pid path bytes (fun io => atomicWrite io path bytes) := by
  intro io d hd io' pid'
  rcases lookup_openOn io' d pid' path with hkeep | hgone
  · rw [hkeep, hnone]
    exact lookup_of_interrupted hnone hd
  · rw [hgone, hnone]
    exact Or.inl rfl

lemma crashAtomic_iff (disk : Disk) (pid : ℕ) (path : Path) (bytes : Bytes) :
    CrashAtomic disk pid path bytes (fun io => atomicWrite io path bytes) ↔
      disk.lookup path = none := by
  constructor
  · intro h
    by_contra hne
    obtain ⟨old, hold⟩ := Option.ne_none_iff_exists'.mp hne
    exact not_crashAtomic hold bytes pid h
  · intro hnone
    exact crashAtomic_of_none hnone bytes pid

/-- A manifest is written by one commit. -/
lemma writeManifest_eq {m : PersistEntryMeta} (hpath : manifestPath m.objectId = .ok path) :
    (fun io => writeManifest io m) = fun io => atomicWrite io path (encodeManifest m) := by
  funext io
  rw [writeManifest, hpath, ofExcept_ok_bind]

/-- A commit is atomic exactly when it makes a new file; so is the writing of a manifest. -/
theorem atomic_write_iff (disk : Disk) (pid : ℕ) :
    (∀ path bytes, CrashAtomic disk pid path bytes (fun io => atomicWrite io path bytes) ↔
      disk.lookup path = none) ∧
    ∀ m path, manifestPath m.objectId = .ok path →
      (CrashAtomic disk pid path (encodeManifest m) (fun io => writeManifest io m) ↔
        disk.lookup path = none) := by
  refine ⟨crashAtomic_iff disk pid, fun m path hpath => ?_⟩
  rw [writeManifest_eq hpath]
  exact crashAtomic_iff disk pid path (encodeManifest m)

/-- The metadata of a tensor without elements. -/
def emptyTensor (createdNs : UInt64) : PersistEntryMeta where
  objectId := ObjectId.toHex ⟨hash []⟩
  nameSpace := .lit ""
  key := .lit ""
  generation := 0
  compat := { dtype := .u8, shape := ⟨[0], by decide, by simp⟩ }
  byteLen := 0
  numel := 0
  createdNs := createdNs
  blocks := []

/-- A committed manifest is overwritten: a crash in the middle loses both versions. -/
theorem atomic_write_loses :
    manifestPath (emptyTensor 1).objectId = .ok (manifestFile ⟨hash []⟩) ∧
      ∃ disk : Disk, disk.lookup (manifestFile ⟨hash []⟩) = some (encodeManifest (emptyTensor 0)) ∧
        ¬CrashAtomic disk 0 (manifestFile ⟨hash []⟩) (encodeManifest (emptyTensor 1))
          (fun io => writeManifest io (emptyTensor 1)) := by
  have hpath : manifestPath (emptyTensor 1).objectId = .ok (manifestFile ⟨hash []⟩) :=
    manifestPath_eq _
  have hold : ((∅ : Disk).insert (manifestFile ⟨hash []⟩) (encodeManifest (emptyTensor 0))).lookup
      (manifestFile ⟨hash []⟩) = some (encodeManifest (emptyTensor 0)) := AList.lookup_insert _
  refine ⟨hpath, _, hold, ?_⟩
  rw [writeManifest_eq hpath]
  exact not_crashAtomic hold _ 0

end PersistentStore

end TensorCache
