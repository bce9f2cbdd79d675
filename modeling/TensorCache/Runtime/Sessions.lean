import Mathlib.Data.List.Dedup
import TensorCache.Runtime.Recovery

/-!
# Sessions

A store outlives the runtimes that work on it. A session opens a runtime on the files that the
one before it has left, runs calls, and ends between two calls or in the middle of one: a crash
leaves what some prefix of the steps of the last call makes of the files. `History` is what a
directory can look like after any number of sessions, with the registrations made in them.
-/

namespace TensorCache

open Codec EStateM DurableStep TensorCache.Runtime

/-- One life of a runtime. -/
structure Session where
  opening : Env
  config : RuntimeConfig
  extra : List Backend
  pid : ℕ
  events : List Event

/-- The runtime of a session, once it is open. -/
def Session.start (ss : Session) (disk : Disk) : Except Error Runtime :=
  Runtime.new ss.opening ss.config ss.extra disk ss.pid

/-- The files that a runtime leaves when it ends in its last call: `disk` are those it was opened
on. -/
def Leaves (s : Runtime) (disk disk' : Disk) : Prop :=
  match s.persistent with
  | none => disk' = disk
  | some st => Crashes st.base st.journal disk'

/-- The files that a runtime leaves when it ends between two calls. -/
def Runtime.files (s : Runtime) (disk : Disk) : Disk :=
  match s.persistent with
  | none => disk
  | some st => st.disk

lemma leaves_files (s : Runtime) (disk : Disk) : Leaves s disk (s.files disk) := by
  unfold Leaves Runtime.files
  cases s.persistent with
  | none => rfl
  | some st => exact crashes_replay _ _

/-- The files and the registrations after sessions with the given block sizes. -/
inductive History (sizes : Set ℕ) : Disk → List Registration → Prop where
  | empty : History sizes ∅ []
  | session {disk disk' : Disk} {log : List Registration} {s : Runtime} (ss : Session)
      (h : History sizes disk log) (hsize : ss.config.blockSize.toNat ∈ sizes)
      (hstart : ss.start disk = .ok s) (hleaves : Leaves (s.run ss.events) disk disk') :
      History sizes disk' (log ++ s.registrations ss.events)

/-- The scope of a history. -/
def scopeOf (sizes : Set ℕ) (log : List Registration) : Scope := ⟨{ r | r ∈ log }, sizes⟩

variable {sc : Scope} {sizes : Set ℕ} {disk : Disk} {log : List Registration} {s : Runtime}

/-- The files of a safe runtime are in order wherever it ends. -/
lemma Safe.leaves {config : RuntimeConfig} {o : Origin} {disk' : Disk} (h : Safe sc config o s)
    (hdisk : AllFiles (FileOk sc.blocks (ManifestOk sc)) disk) (hleaves : Leaves s disk disk') :
    AllFiles (FileOk sc.blocks (ManifestOk sc)) disk' := by
  unfold Leaves at hleaves
  cases hst : s.persistent with
  | none =>
    rw [hst] at hleaves
    rw [show disk' = disk from hleaves]
    exact hdisk
  | some st =>
    rw [hst] at hleaves
    exact h.durable.files st hst disk' hleaves

/-- Whatever sessions have done, the files are in order. -/
theorem History.files (hS : CollisionFree sc.blocks) (h : History sizes disk log)
    (hlog : ∀ r ∈ log, r ∈ sc.registered) (hsizes : sizes ⊆ sc.sizes) :
    AllFiles (FileOk sc.blocks (ManifestOk sc)) disk := by
  induction h with
  | empty =>
    intro path c hc
    simp at hc
  | session ss _ hsize hstart hleaves ih =>
    have hdisk := ih fun r hr => hlog r (List.mem_append_left _ hr)
    obtain ⟨-, o, hsafe⟩ := new_spec hS hdisk (hsizes hsize) hstart
    have hrun := hsafe.run hS ss.events fun r hr => hlog r (List.mem_append_right _ hr)
    exact hrun.leaves hdisk hleaves

/-- Opening a runtime after any number of sessions. -/
theorem History.new_spec (hS : CollisionFree (scopeOf sizes log).blocks)
    (h : History sizes disk log) {env : Env} {config : RuntimeConfig} {extra : List Backend}
    {pid : ℕ} (hsize : config.blockSize.toNat ∈ sizes)
    (hnew : Runtime.new env config extra disk pid = .ok s) :
    Fresh s ∧ ∃ o, Safe (scopeOf sizes log) config o s :=
  TensorCache.new_spec hS (h.files hS (fun _ hr => hr) fun _ hn => hn) hsize hnew

/-! ### More registrations and more block sizes -/

/-- A wider scope. -/
structure Scope.Le (sc sc' : Scope) : Prop where
  registered : sc.registered ⊆ sc'.registered
  sizes : sc.sizes ⊆ sc'.sizes

lemma scopeOf_le {sizes sizes' : Set ℕ} {log log' : List Registration} (hlog : log ⊆ log')
    (hsizes : sizes ⊆ sizes') : (scopeOf sizes log).Le (scopeOf sizes' log') :=
  ⟨fun _ hr => hlog hr, hsizes⟩

namespace Scope.Le

variable {sc' : Scope} (h : sc.Le sc')

include h

lemma blocks : sc.blocks ⊆ sc'.blocks := by
  rintro b ⟨r, hr, n, hn, hb⟩
  exact ⟨r, h.registered hr, n, h.sizes hn, hb⟩

lemma manifestOk {path : Path} {m : PersistEntryMeta} (hm : ManifestOk sc path m) :
    ManifestOk sc' path m := by
  obtain ⟨r, hr, n, hn, rest⟩ := hm
  exact ⟨r, h.registered hr, n, h.sizes hn, rest⟩

lemma fileOk {path : Path} {c : Bytes} (hf : FileOk sc.blocks (ManifestOk sc) path c) :
    FileOk sc'.blocks (ManifestOk sc') path c :=
  ⟨fun x hx => ⟨(hf.1 x hx).1, h.blocks (hf.1 x hx).2⟩, fun hp m hm => h.manifestOk (hf.2 hp m hm)⟩

lemma entryOk {n : ℕ} {d : Devices} {r : Registration} {k : Str} {e : Entry}
    (hok : EntryOk sc n d r k e) : EntryOk sc' n d r k e := by
  obtain ⟨m, hm, hchunk⟩ := hok.blocks
  exact { hok with registered := h.registered hok.registered, blocks := ⟨m, h.sizes hm, hchunk⟩ }

/-- Safety carries over to a wider scope. -/
theorem safe {config : RuntimeConfig} {o : Origin} (hs : Safe sc config o s) :
    Safe sc' config o s := by
  refine ⟨hs.config_eq, h.sizes hs.blockSize, fun k e he => ?_, ?_, hs.hostDemand, hs.deviceDemand,
    ?_⟩
  · obtain ⟨r, ho, hok⟩ := hs.entry k e he
    exact ⟨r, ho, h.entryOk hok⟩
  · have ha := hs.host.arena
    refine { hs.host with arena := ⟨ha.keys, ha.pos, fun x b hb => ?_, ha.total⟩ }
    exact ⟨(ha.content x b hb).1, h.blocks (ha.content x b hb).2⟩
  · have hd := hs.durable
    refine ⟨fun st hst d hd' path c hc => ?_, hd.pos, hd.file, hd.used, hd.budget, hd.capacity⟩
    exact h.fileOk (hd.files st hst d hd' path c hc)

end Scope.Le

/-- The scope of a run of `s` after a history. -/
def runScope (sizes : Set ℕ) (log : List Registration) (s : Runtime) (events : List Event) :
    Scope :=
  scopeOf (insert s.config.blockSize.toNat sizes) (log ++ s.registrations events)

/-- The rule for runs of a runtime that was opened after any number of sessions. -/
theorem History.run_rule {Y : Runtime → Prop} {C : Runtime → Event → Prop} {config : RuntimeConfig}
    (h : History sizes disk log) {env : Env} {extra : List Backend} {pid : ℕ}
    (hnew : Runtime.new env config extra disk pid = .ok s) {events : List Event}
    (hS : CollisionFree (runScope sizes log s events).blocks) (hC : Throughout C s events)
    (hstart : Fresh s → Y s)
    (hstep : ∀ o s' ev, (∀ r ∈ s'.registration ev, r ∈ (runScope sizes log s events).registered) →
      Safe (runScope sizes log s events) config o s' → Y s' → C s' ev → Y (s'.exec ev)) :
    ∃ o, Safe (runScope sizes log s events) config o (s.run events) ∧ Y (s.run events) := by
  have hfiles := h.files hS (fun _ hr => List.mem_append_left _ hr) (Set.subset_insert _ _)
  have hconfig : s.config = config := config_of_new hnew
  have hsize : config.blockSize.toNat ∈ (runScope sizes log s events).sizes := by
    rw [← hconfig]
    exact Set.mem_insert _ _
  obtain ⟨hfresh, o, hsafe⟩ := TensorCache.new_spec hS hfiles hsize hnew
  exact ⟨_, Safe.run_rule hS hstep hsafe (hstart hfresh) events
    (fun r hr => List.mem_append_right _ hr) hC⟩

/-! ### Concrete runs -/

/-- A run registers at most what its calls ask for. -/
lemma registrations_subset (s : Runtime) (events : List Event) :
    s.registrations events ⊆ events.flatMap fun ev => ev.call.registration := by
  induction events generalizing s with
  | nil => exact fun _ hr => hr
  | cons ev events ih =>
    intro r hr
    rw [List.flatMap_cons]
    rcases List.mem_append.mp hr with hr | hr
    · refine List.mem_append_left _ ?_
      unfold registration at hr
      split at hr
      · exact hr
      · cases hr
    · exact List.mem_append_right _ (ih _ hr)

/-- The assumption on the digests, for finitely many payloads and block sizes. -/
lemma collisionFree_scopeOf (ns : List ℕ) (rs : List Registration) (hlog : log ⊆ rs)
    (hsizes : ∀ n ∈ sizes, n ∈ ns)
    (h : ((rs.flatMap fun r => ns.flatMap (pieces r.payload)).dedup.map hash).Nodup) :
    CollisionFree (scopeOf sizes log).blocks := by
  have hmem : ∀ b ∈ (scopeOf sizes log).blocks,
      b ∈ (rs.flatMap fun r => ns.flatMap (pieces r.payload)).dedup := by
    rintro b ⟨r, hr, n, hn, hb⟩
    rw [List.mem_dedup, List.mem_flatMap]
    exact ⟨r, hlog hr, List.mem_flatMap.mpr ⟨n, hsizes n hn, hb⟩⟩
  intro b hb b' hb' heq
  exact List.inj_on_of_nodup_map h (hmem b hb) (hmem b' hb') heq

/-- A tensor of two bytes. -/
def bytePair (generation : UInt64) (a b : UInt8) : Registration where
  address := ⟨.lit "", .lit "", generation⟩
  compat := { dtype := .u8, shape := ⟨[2], by decide, by simp [maxDim]⟩ }
  payload := [a, b]
  payload_small := by simp
  compat_small := by decide

/-- A runtime without a store. -/
def smallConfig : RuntimeConfig := { blockSize := 2, hostCapacity := 8 }

/-- A runtime with a store. -/
def storeConfig (blockSize : UInt64) : RuntimeConfig :=
  { blockSize, hostCapacity := 8, persistentPath := some (.lit ""), persistentCapacity := 8 }

/-- A session that registers a tensor and persists it. -/
def persistSession (blockSize : UInt64) (r : Registration) : Session where
  opening := {}
  config := storeConfig blockSize
  extra := []
  pid := 0
  events := [⟨{}, .register r⟩, ⟨{}, .persist r.address.objectId⟩]

/-- The files after a session that ends between two calls. -/
lemma persistSession_history (blockSize : UInt64) (r : Registration) {s : Runtime}
    (hstart : (persistSession blockSize r).start ∅ = .ok s) :
    History {blockSize.toNat} ((s.run (persistSession blockSize r).events).files ∅)
      (s.registrations (persistSession blockSize r).events) :=
  History.session (persistSession blockSize r) History.empty rfl hstart (leaves_files _ _)

end TensorCache
