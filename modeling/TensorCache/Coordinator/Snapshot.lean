import TensorCache.Coordinator.Basic

/-!
# The coordinator's snapshot

A snapshot read back gives the owners and fences it was taken from, whatever the order in which
the map was written. The format is exact, so nothing but a whole snapshot is accepted and a
loader that refuses has changed nothing. The server overwrites the file in place after every
message; a crash in the middle of that leaves a proper prefix, which the next start refuses.
-/

namespace TensorCache

open Codec EStateM

namespace Coordinator

/-! ### The format -/

lemma reads_row : Reads writeRow readRow := by
  intro row rest
  simp only [writeRow, readRow, List.append_assoc, reads_str.bind, reads_u64.bind, pure_apply]

lemma canonical_row : Canonical writeRow readRow := by
  intro input row rest h
  obtain ⟨id, _, hid, h⟩ := canonical_str.bind h
  obtain ⟨owner, _, howner, h⟩ := canonical_str.bind h
  obtain ⟨fence, _, hfence, h⟩ := canonical_u64.bind h
  cases h
  simp only [writeRow, hid, howner, hfence, List.append_assoc]

lemma readSnapshot_write {rows : List Row} (hsmall : rows.length < 2 ^ 64) (epoch : Epoch)
    (rest : Bytes) :
    readSnapshot (writeSnapshot epoch rows ++ rest) = .ok ((epoch, rows), rest) := by
  simp only [writeSnapshot, List.append_assoc]
  refine (bind_ok (reads_u32 _ _)).trans ?_
  rw [if_neg (by simp)]
  refine (bind_ok (reads_u8 _ _)).trans ?_
  rw [if_neg (by simp)]
  refine (bind_ok (reads_u64 _ _)).trans ?_
  refine (bind_ok (reads_u64 _ _)).trans ?_
  rw [toNat_ofNat hsmall]
  exact bind_ok (reads_row.getMany rows rest)

/-- Only snapshots are read. -/
lemma canonical_snapshot {input rest : Bytes} {epoch : Epoch} {rows : List Row}
    (h : readSnapshot input = .ok ((epoch, rows), rest)) :
    input = writeSnapshot epoch rows ++ rest ∧ rows.length < 2 ^ 64 := by
  obtain ⟨magic, _, hmagic, h⟩ := canonical_u32.bind h
  split_ifs at h with hmagicEq
  · cases h
  obtain ⟨version, _, hversion, h⟩ := canonical_u8.bind h
  split_ifs at h with hversionEq
  · cases h
  obtain ⟨epoch', _, hepoch, h⟩ := canonical_u64.bind h
  obtain ⟨count, _, hcount, h⟩ := canonical_u64.bind h
  obtain ⟨rows', _, hread, h⟩ := bind_eq_ok h
  obtain ⟨hlen, hrows⟩ := canonical_row.getMany _ _ _ _ hread
  cases h
  refine ⟨?_, by rw [hlen]; exact count.toNat_lt⟩
  simp only [writeSnapshot, List.append_assoc, hlen, UInt64.ofNat_toNat]
  rw [hmagic, not_ne_iff.mp hmagicEq, hversion, not_ne_iff.mp hversionEq, hepoch, hcount, hrows]

/-- No proper prefix of a snapshot is a snapshot. -/
lemma readSnapshot_cut {rows : List Row} (hsmall : rows.length < 2 ^ 64) {epoch : Epoch} {k : ℕ}
    (hk : k < (writeSnapshot epoch rows).length) (p : Epoch × List Row) :
    readSnapshot ((writeSnapshot epoch rows).take k) ≠ .ok (p, []) := by
  obtain ⟨epoch', rows'⟩ := p
  intro h
  obtain ⟨htake, hsmall'⟩ := canonical_snapshot h
  rw [List.append_nil] at htake
  have hwhole := readSnapshot_write hsmall' epoch' ((writeSnapshot epoch rows).drop k)
  rw [← htake, List.take_append_drop] at hwhole
  have hread := readSnapshot_write hsmall epoch []
  rw [List.append_nil, hwhole] at hread
  simp only [Except.ok.injEq, Prod.mk.injEq, List.drop_eq_nil_iff] at hread
  omega

/-! ### Loading -/

/-- The owner and fence of every object. -/
def owners (c : Coordinator) (id : Str) : Option (Str × UInt64) :=
  (c.objects.lookup id).map fun state => (state.owner, state.fence)

/-- The rows of a list of objects. -/
def rowsOf (objects : List (Sigma fun _ : Str => ObjectState)) : List Row :=
  objects.map fun o => ⟨o.1, o.2.owner, o.2.fence⟩

lemma lookup_insertRows (epoch : Epoch) (id : Str) {objects : List (Sigma fun _ : Str => ObjectState)}
    (hnodup : objects.NodupKeys) (m : HashMap Str ObjectState) :
    ((rowsOf objects).foldl (fun m row => m.insert row.id ⟨row.owner, row.fence, epoch⟩) m).lookup id
      = ((objects.dlookup id).map fun state => ⟨state.owner, state.fence, epoch⟩).or (m.lookup id) := by
  induction objects generalizing m with
  | nil => rfl
  | cons o objects ih =>
    obtain ⟨id', state⟩ := o
    obtain ⟨hfresh, hnodup⟩ := List.nodupKeys_cons.mp hnodup
    refine (ih hnodup _).trans ?_
    by_cases hid : id = id'
    · subst hid
      rw [List.dlookup_eq_none.mpr hfresh, List.dlookup_cons_eq, AList.lookup_insert]
      rfl
    · rw [List.dlookup_cons_ne _ _ hid, AList.lookup_insert_ne hid]

/-- Loading a snapshot restores the owners, in whatever order they were written. -/
lemma owners_ofRows (order : IterOrder) (m : HashMap Str ObjectState) (epoch : Epoch) (id : Str) :
    ((ofRows epoch (rowsOf (order.list m))).lookup id).map (fun state => (state.owner, state.fence))
      = (m.lookup id).map fun state => (state.owner, state.fence) := by
  have hperm := order.perm m
  have hnodup : (order.list m).NodupKeys := (List.perm_nodupKeys hperm).mpr m.nodupKeys
  have hsame : (order.list m).dlookup id = m.lookup id := List.perm_dlookup id hnodup hperm
  rw [ofRows, lookup_insertRows epoch id hnodup, hsame]
  cases m.lookup id <;> rfl

section Load

variable {bytes rest : Bytes} {epoch : Epoch} {rows : List Row}

lemma loadState_of_read (h : readSnapshot bytes = .ok ((epoch, rows), [])) (bootId : BootId)
    (c : Coordinator) :
    loadState (some bytes) bootId c
      = .ok ⟨⟩ { c with objects := ofRows epoch rows, epoch := epoch.next, bootId } := by
  unfold loadState
  simp only [h, ofExcept_ok_bind]
  rfl

/-- Unless the bytes are read to the end, loading fails and changes nothing. -/
lemma loadState_of_not_read (h : ∀ p, readSnapshot bytes ≠ .ok (p, [])) (bootId : BootId)
    (c : Coordinator) : ∃ e, loadState (some bytes) bootId c = .error e c := by
  unfold loadState
  cases hread : readSnapshot bytes with
  | error e =>
    simp only [hread, ofExcept_error_bind]
    exact ⟨e, rfl⟩
  | ok out =>
    obtain ⟨⟨epoch, rows⟩, rest⟩ := out
    have hrest : rest ≠ [] := by
      rintro rfl
      exact h _ hread
    simp only [hread, ofExcept_ok_bind, if_pos hrest]
    exact ⟨_, rfl⟩

end Load

lemma loadState_error {file : Option Bytes} {bootId : BootId} {c c' : Coordinator} {e : Error}
    (h : loadState file bootId c = .error e c') : c' = c := by
  cases file with
  | none => cases h
  | some bytes =>
    by_cases hread : ∃ p, readSnapshot bytes = .ok (p, [])
    · obtain ⟨⟨epoch, rows⟩, hread⟩ := hread
      rw [loadState_of_read hread] at h
      cases h
    · push Not at hread
      obtain ⟨e', he'⟩ := loadState_of_not_read hread bootId c
      rw [he'] at h
      cases h
      rfl

lemma length_rowsOf (order : IterOrder) (m : HashMap Str ObjectState) :
    (rowsOf (order.list m)).length = m.keys.length := by
  rw [rowsOf, List.length_map, (order.perm m).length_eq]
  simp [AList.keys, List.keys]

/-- What loading a whole snapshot does. -/
lemma loadState_snapshot {c : Coordinator} (hsmall : c.objects.keys.length < 2 ^ 64)
    (order : IterOrder) (bootId : BootId) (c₀ : Coordinator) :
    loadState (some (snapshot order c)) bootId c₀
      = .ok ⟨⟩ { c₀ with
          objects := ofRows c.epoch (rowsOf (order.list c.objects))
          epoch := c.epoch.next, bootId } := by
  have hread := readSnapshot_write (by rw [length_rowsOf order c.objects]; exact hsmall) c.epoch []
  rw [List.append_nil] at hread
  exact loadState_of_read hread bootId c₀

lemma loadState_prefix {c : Coordinator} (hsmall : c.objects.keys.length < 2 ^ 64)
    (order : IterOrder) {k : ℕ} (hk : k < (snapshot order c).length) (bootId : BootId)
    (c₀ : Coordinator) :
    ∃ e, loadState (some ((snapshot order c).take k)) bootId c₀ = .error e c₀ :=
  loadState_of_not_read
    (readSnapshot_cut (by rw [← length_rowsOf order c.objects] at hsmall; exact hsmall) hk) bootId c₀

/-- The snapshot round trip and safe loading. A snapshot of any coordinator, written in any
iteration order, restores the owners and fences in a fresh coordinator and advances the epoch;
whatever the file holds, a load that fails changes nothing; no proper prefix of a snapshot is
accepted. The bound says that the size of the map is a machine word. -/
theorem snapshot_round_trip :
    (∀ (c : Coordinator) (order : IterOrder) (boot boot' : BootId) (leaseNs : UInt64),
      c.objects.keys.length < 2 ^ 64 →
      ∃ c', loadState (some (snapshot order c)) boot' (new boot leaseNs) = .ok ⟨⟩ c' ∧
        c'.owners = c.owners ∧ c'.epoch = c.epoch.next ∧ c'.migrations = ∅ ∧ c'.nodes = ∅) ∧
    (∀ (bytes : Bytes) (boot : BootId) (c c' : Coordinator) (e : Error),
      loadState (some bytes) boot c = .error e c' → c' = c) ∧
    ∀ (c c₀ : Coordinator) (order : IterOrder) (boot : BootId) (k : ℕ),
      c.objects.keys.length < 2 ^ 64 → k < (snapshot order c).length →
      ∃ e, loadState (some ((snapshot order c).take k)) boot c₀ = .error e c₀ := by
  refine ⟨?_, fun bytes boot c c' e h => loadState_error h, ?_⟩
  · intro c order boot boot' leaseNs hsmall
    refine ⟨_, loadState_snapshot hsmall order boot' _, ?_, rfl, rfl, rfl⟩
    funext id
    exact owners_ofRows order c.objects c.epoch id
  · intro c c₀ order boot k hsmall hk
    exact loadState_prefix hsmall order hk boot c₀

/-! ### The server -/

/-- A message, the time it is handled at, and the order in which its save iterates the map. -/
structure Request where
  now : UInt64
  msg : Message
  order : IterOrder

/-- The coordinator after a message. -/
def serve (req : Request) (c : Coordinator) : Coordinator := (handle req.now req.msg c).state

/-- What the server writes to the snapshot file after a message. -/
def saved (req : Request) (c : Coordinator) : Bytes := snapshot req.order (serve req c)

/-- A server process starts with a new coordinator and loads the snapshot. -/
def start (file : Option Bytes) (boot boot' : BootId) (leaseNs : UInt64) :
    EStateM.Result Error Coordinator PUnit :=
  loadState file boot' (new boot leaseNs)

/-- A server with its snapshot file, between two messages, after any number of messages, crashes
and new starts. The size of a map is a machine word. -/
inductive Running : Coordinator → Option Bytes → Prop
  | first (boot : BootId) (leaseNs : UInt64) : Running (new boot leaseNs) none
  | handled {c : Coordinator} {file : Option Bytes} (req : Request) (h : Running c file)
      (hsmall : (serve req c).objects.keys.length < 2 ^ 64) :
      Running (serve req c) (some (saved req c))
  | restarted {c c' : Coordinator} {file : Option Bytes} (boot boot' : BootId) (leaseNs : UInt64)
      (h : Running c file) (hstart : start file boot boot' leaseNs = .ok ⟨⟩ c') : Running c' file

lemma start_snapshot {c : Coordinator} (hsmall : c.objects.keys.length < 2 ^ 64) (order : IterOrder)
    (boot boot' : BootId) (leaseNs : UInt64) :
    ∃ c', start (some (snapshot order c)) boot boot' leaseNs = .ok ⟨⟩ c' ∧ c'.owners = c.owners := by
  refine ⟨_, loadState_snapshot hsmall order boot' _, ?_⟩
  funext id
  exact owners_ofRows order c.objects c.epoch id

/-- The file of a running server holds its owners. -/
lemma Running.start {c : Coordinator} {file : Option Bytes} (h : Running c file)
    (boot boot' : BootId) (leaseNs : UInt64) :
    ∃ c', Coordinator.start file boot boot' leaseNs = .ok ⟨⟩ c' ∧ c'.owners = c.owners := by
  induction h generalizing boot boot' leaseNs with
  | first boot₀ leaseNs₀ => exact ⟨new boot leaseNs, rfl, rfl⟩
  | handled req h hsmall ih => exact start_snapshot hsmall req.order boot boot' leaseNs
  | restarted boot₀ boot₀' leaseNs₀ h hstart ih =>
    -- both starts read the same file
    obtain ⟨c₁, hstart₁, howners₁⟩ := ih boot₀ boot₀' leaseNs₀
    obtain ⟨c₂, hstart₂, howners₂⟩ := ih boot boot' leaseNs
    rw [hstart] at hstart₁
    cases hstart₁
    exact ⟨c₂, hstart₂, howners₂.trans howners₁.symm⟩

/-- A crash between two messages loses nothing: the next start restores the owners of the last
save. A crash in the middle of a save is survived exactly when the last byte has been written. -/
theorem snapshot_survives_iff {c : Coordinator} {file : Option Bytes} (h : Running c file) :
    (∀ boot boot' leaseNs, ∃ c', Coordinator.start file boot boot' leaseNs = .ok ⟨⟩ c' ∧
      c'.owners = c.owners) ∧
    ∀ req : Request, (serve req c).objects.keys.length < 2 ^ 64 → ∀ k ≤ (saved req c).length,
      ∀ boot boot' leaseNs,
        (∃ c', Coordinator.start (some ((saved req c).take k)) boot boot' leaseNs = .ok ⟨⟩ c' ∧
          (c'.owners = c.owners ∨ c'.owners = (serve req c).owners)) ↔ k = (saved req c).length := by
  refine ⟨h.start, fun req hsmall k hk boot boot' leaseNs => ⟨?_, ?_⟩⟩
  · rintro ⟨c', hstart, -⟩
    by_contra hne
    have hlt : k < (snapshot req.order (serve req c)).length := lt_of_le_of_ne hk hne
    obtain ⟨e, he⟩ := loadState_prefix hsmall req.order hlt boot' (new boot leaseNs)
    have hstart' := hstart.symm.trans he
    cases hstart'
  · rintro rfl
    obtain ⟨c', hstart, howners⟩ := start_snapshot hsmall req.order boot boot' leaseNs
    refine ⟨c', ?_, Or.inr howners⟩
    rw [List.take_length]
    exact hstart

/-- The map in the order it is kept in. -/
def entryOrder : IterOrder := ⟨AList.entries, fun _ => List.Perm.refl _⟩

/-- A node claims an object. -/
def claimRequest : Request :=
  ⟨0, .create (.lit "") (.lit "") 0 0 ⟨[], Vec.small_nil⟩ (.lit "a"), entryOrder⟩

/-- A message that changes nothing. -/
def beatRequest : Request := ⟨0, .heartbeat (.lit "a") 1, entryOrder⟩

lemma running_claimed : Running (serve claimRequest (new (.lit "") 0))
    (some (saved claimRequest (new (.lit "") 0))) :=
  .handled claimRequest (.first (.lit "") 0) (by decide)

theorem snapshot_survives_claimed :
    ∃ c', Coordinator.start (some (saved claimRequest (new (.lit "") 0))) (.lit "") (.lit "") 0
        = .ok ⟨⟩ c' ∧
      c'.owners = (serve claimRequest (new (.lit "") 0)).owners :=
  (snapshot_survives_iff running_claimed).1 (.lit "") (.lit "") 0

/-- A crash right after the file has been truncated: the next start fails, and the owner that the
last completed save held is lost. -/
theorem snapshot_lost :
    ∃ c file, Running c file ∧
      c.owners (objectId (.lit "") (.lit "") 0) = some (.lit "a", 0) ∧
      ∃ e c', Coordinator.start (some ((saved beatRequest c).take 0)) (.lit "") (.lit "") 0
        = .error e c' := by
  refine ⟨_, _, running_claimed, ?_, _, _, rfl⟩
  change (((∅ : HashMap Str ObjectState).insert (objectId (.lit "") (.lit "") 0) _).lookup _).map _ = _
  rw [AList.lookup_insert]
  rfl

end Coordinator

end TensorCache
