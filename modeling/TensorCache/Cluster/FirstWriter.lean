import TensorCache.Cluster.Store
import TensorCache.Runtime.Sessions

/-!
# The first writer becomes the owner

A node that stores an object looks up the owner and claims the object if there is none. Other
nodes may do the same in between, so several claims can be on their way; the coordinator accepts
the first it handles and refuses the others, which the nodes do not notice. Without migrations the
owner is therefore the node of the first claim that was handled, in every order of steps.
-/

namespace TensorCache

open Codec Process

namespace Cluster

/-- No migrations, and no claims but those of the nodes. -/
def quiet : Traffic where
  client m := m.msgType ≠ .migrate
  direct m := m.msgType ≠ .create ∧ m.msgType ≠ .migrate
  calls _ := True

/-! ### Claims -/

/-- The node that claims an object with a message. -/
def claimant (id : Str) : Message → Option Str
  | .create nameSpace key generation _ _ nodeId =>
    if Coordinator.objectId nameSpace key generation = id then some nodeId else none
  | _ => none

/-- The claim of an object that was handled first. -/
def firstClaim (id : Str) : List (Message × Outcome) → Option Message
  | [] => none
  | (m, _) :: log => (firstClaim id log).or (if (claimant id m).isSome then some m else none)

lemma claimant_of_firstClaim {id : Str} {log : List (Message × Outcome)} {m : Message}
    (h : firstClaim id log = some m) : (claimant id m).isSome ∧ ∃ x, (m, x) ∈ log := by
  induction log with
  | nil => cases h
  | cons p log ih =>
    obtain ⟨m', x⟩ := p
    rw [firstClaim, Option.or_eq_some_iff] at h
    rcases h with h | ⟨_, h⟩
    · obtain ⟨hsome, x, hx⟩ := ih h
      exact ⟨hsome, x, List.mem_cons_of_mem _ hx⟩
    · split_ifs at h with hsome
      cases h
      exact ⟨hsome, x, List.mem_cons_self⟩

/-- A claim stays the first one. -/
lemma firstClaim_of_suffix {id : Str} {log log' : List (Message × Outcome)} {m : Message}
    (h : firstClaim id log = some m) (hsuffix : log <:+ log') : firstClaim id log' = some m := by
  obtain ⟨l, rfl⟩ := hsuffix
  induction l with
  | nil => exact h
  | cons p l ih =>
    obtain ⟨m', x⟩ := p
    rw [List.cons_append, firstClaim, ih, Option.some_or]

lemma firstClaim_isSome_of_suffix {id : Str} {log log' : List (Message × Outcome)}
    (h : (firstClaim id log).isSome) (hsuffix : log <:+ log') : (firstClaim id log').isSome := by
  obtain ⟨m, hm⟩ := Option.isSome_iff_exists.mp h
  rw [firstClaim_of_suffix hm hsuffix]
  rfl

lemma claimant_of_ne {m : Message} (h : m.msgType ≠ .create) (id : Str) : claimant id m = none := by
  cases m <;> first | rfl | exact absurd rfl h

lemma isCreate_of_claimant {id : Str} {m : Message} (h : (claimant id m).isSome) :
    m.msgType = .create := by
  by_contra hne
  rw [claimant_of_ne hne] at h
  cases h

/-- Without migrations, a message gives an object an owner only by a claim, and only if it has
none. -/
lemma owners_handle {m : Message} {c : Coordinator} (now : UInt64) (hm : m.msgType ≠ .migrate)
    (hsettled : c.migrations = ∅) (id : Str) :
    (c.handle now m).state.owners id = (c.owners id).or ((claimant id m).map (·, 0)) ∧
      (c.handle now m).state.migrations = ∅ := by
  have hcases := c.handled now m
  generalize c.handle now m = res at hcases ⊢
  cases hcases with
  | created nameSpace key generation byteLen compat nodeId h =>
    refine ⟨?_, hsettled⟩
    by_cases hid : Coordinator.objectId nameSpace key generation = id
    · subst hid
      simp [Coordinator.owners, claimant, h]
    · simp [Coordinator.owners, claimant, hid, AList.lookup_insert_ne (Ne.symm hid)]
  | reclaimed nameSpace key generation byteLen compat state h
  | claimRefused nameSpace key generation byteLen compat nodeId state h =>
    refine ⟨?_, hsettled⟩
    by_cases hid : Coordinator.objectId nameSpace key generation = id
    · subst hid
      simp [Coordinator.owners, h]
    · simp [claimant, hid]
  | migrating | migrateRefused => exact absurd rfl hm
  | migrated id' newOwner fence h =>
    rw [hsettled] at h
    cases h
  | idle m hidle rs =>
    have hclaim : claimant id m = none := by
      cases m <;> first | rfl | exact absurd hidle (by simp [Coordinator.Idle])
    simp [hclaim, hsettled]
  | _ => exact ⟨by simp [claimant, Coordinator.owners], hsettled⟩

/-! ### The invariant -/

/-- A program has taken the object in, or found it held with an equal key and equal bytes. -/
def Held (t : Task) (r : Registration) (past : Past) : Prop :=
  (∃ oid, .did t (.register r) (.ok oid) ∈ past) ∨
  ∃ e, (∃ text, .did t (.register r) (.error (.alreadyExists text)) ∈ past) ∧
    .did t (.getMeta r.address.objectId) (.ok e) ∈ past ∧ e.compatId = r.compat.compatId ∧
    .did t (.restore r.address.objectId .host) (.ok r.payload) ∈ past

lemma Held.later {t : Task} {r : Registration} {past past' : Past} (h : Held t r past)
    (hsuffix : past <:+ past') : Held t r past' := by
  rcases h with ⟨oid, hdid⟩ | ⟨e, ⟨text, hexists⟩, hmeta, hcompat, hrestore⟩
  · exact .inl ⟨oid, hsuffix.subset hdid⟩
  · exact .inr ⟨e, ⟨text, hsuffix.subset hexists⟩, hsuffix.subset hmeta, hcompat,
      hsuffix.subset hrestore⟩

/-- The claim of a program for its own node, on an object the node holds. -/
def ClaimOk (t : Task) (m : Message) (past : Past) : Prop :=
  ∃ (r : Registration) (compat : Blob), compat.val = r.compat.encode ∧
    m = .create r.address.nameSpace r.address.key r.address.generation
      (UInt64.ofNat r.payload.length) compat t.node ∧
    Held t r past

/-- The message was sent to the coordinator. -/
def Sent (m : Message) (past : Past) : Prop := ∃ t x, .did t (.coordinator m) x ∈ past

/-- What a claim on its way must be. -/
def Authentic (past : Past) (m : Message) : Prop :=
  m.msgType ≠ .migrate ∧ (m.msgType = .create → Sent m past)

structure Settled (c : Scene Task Cluster NodeReq.Resp (List Message)) : Prop where
  settled : c.now.coord.migrations = ∅
  owners : ∀ id, c.now.coord.owners id =
    ((firstClaim id c.now.log).bind (claimant id)).map (·, 0)
  late : ∀ m ∈ c.now.late, Authentic c.past m
  logged : ∀ p ∈ c.now.log, p.1.msgType = .create → Sent p.1 c.past
  calls : ∀ p ∈ c.now.calls, p.2.2.msgType ≠ .migrate
  sent : ∀ t m x earlier, .did t (.coordinator m) x :: earlier <:+ c.past →
    m.msgType = .create → ClaimOk t m earlier
  acked : ∀ t rs id, .finished t rs ∈ c.past → .storeAck id ∈ rs → (firstClaim id c.now.log).isSome

/-- How the system moves on: nothing that has happened is forgotten. -/
def Later (c c' : Scene Task Cluster NodeReq.Resp (List Message)) : Prop :=
  c.past <:+ c'.past ∧ c.now.log <:+ c'.now.log

lemma Later.trans {c₁ c₂ c₃ : Scene Task Cluster NodeReq.Resp (List Message)} (h : Later c₁ c₂)
    (h' : Later c₂ c₃) : Later c₁ c₃ :=
  ⟨h.1.trans h'.1, h.2.trans h'.2⟩

lemma Later.refl (c : Scene Task Cluster NodeReq.Resp (List Message)) : Later c c :=
  ⟨List.suffix_rfl, List.suffix_rfl⟩

section Steps

variable {s s' : Cluster} {past : Past} {t : Task} {m : Message}

lemma Sent.cons {ev : Process.Event Task NodeReq.Resp (List Message)} (h : Sent m past) :
    Sent m (ev :: past) := by
  obtain ⟨t, x, hx⟩ := h
  exact ⟨t, x, List.mem_cons_of_mem _ hx⟩

/-- The caches, the connections and the answers of peers do not matter. -/
lemma Settled.congr (h : Settled ⟨s, past⟩) (hcoord : s'.coord = s.coord) (hlog : s'.log = s.log)
    (hlate : ∀ m ∈ s'.late, m ∈ s.late ∨ Authentic past m)
    (hcalls : ∀ p ∈ s'.calls, p ∈ s.calls ∨ p.2.2.msgType ≠ .migrate) : Settled ⟨s', past⟩ where
  settled := by rw [hcoord]; exact h.settled
  owners := by rw [hcoord, hlog]; exact h.owners
  late m hm := (hlate m hm).elim (h.late m) id
  logged := by rw [hlog]; exact h.logged
  calls p hp := (hcalls p hp).elim (h.calls p) id
  sent := h.sent
  acked := by rw [hlog]; exact h.acked

/-- A question has been answered. -/
lemma Settled.did (h : Settled ⟨s, past⟩) {r : NodeReq} {x : r.Resp}
    (hclaim : ∀ m, r = .coordinator m → m.msgType = .create → ClaimOk t m past) :
    Settled ⟨s, .did t r x :: past⟩ where
  settled := h.settled
  owners := h.owners
  late m hm := ⟨(h.late m hm).1, fun hc => ((h.late m hm).2 hc).cons⟩
  logged p hp hc := (h.logged p hp hc).cons
  calls := h.calls
  sent t' m' x' earlier hsuffix hc := by
    rcases List.suffix_cons_iff.mp hsuffix with heq | hsuffix
    · cases heq
      exact hclaim m' rfl hc
    · exact h.sent t' m' x' earlier hsuffix hc
  acked t' rs id hfin hack := by
    rcases List.mem_cons.mp hfin with heq | hfin
    · cases heq
    · exact h.acked t' rs id hfin hack

/-- The coordinator handles a message. -/
lemma Settled.deliver (h : Settled ⟨s, past⟩) (hm : Authentic past m) (now : UInt64) :
    Settled ⟨s.deliver now m, past⟩ where
  settled := (owners_handle now hm.1 h.settled (.lit "")).2
  owners id := by
    refine (owners_handle now hm.1 h.settled id).1.trans ?_
    rw [h.owners id]
    change _ = (((firstClaim id s.log).or _).bind _).map _
    cases hfirst : firstClaim id s.log with
    | none => cases hclaim : claimant id m <;> simp [hclaim]
    | some m' =>
      -- the object has an owner already
      obtain ⟨n, hn⟩ := Option.isSome_iff_exists.mp (claimant_of_firstClaim hfirst).1
      simp [hn]
  late := h.late
  logged p hp hc := by
    rcases List.mem_cons.mp hp with rfl | hp
    · exact hm.2 hc
    · exact h.logged p hp hc
  calls := h.calls
  sent := h.sent
  acked t' rs id hfin hack :=
    firstClaim_isSome_of_suffix (h.acked t' rs id hfin hack) (List.suffix_cons _ _)

/-- A request to the coordinator is handled, or the node learns nothing of it. -/
lemma does_coordinator {x : Except Error (Option Message)} (h : Does t (.coordinator m) s x s') :
    (∃ now, x = .ok (s.reply now m).head? ∧ s' = s.deliver now m) ∨
      (∀ reply, x ≠ .ok (some reply)) ∧ (s' = s ∨ s' = { s with late := m :: s.late }) := by
  cases h with
  | answered _ now => exact .inl ⟨now, rfl, rfl⟩
  | closed => exact .inr ⟨by simp, .inl rfl⟩
  | closedLate => exact .inr ⟨by simp, .inr rfl⟩
  | failed => exact .inr ⟨by simp, .inl rfl⟩
  | failedLate => exact .inr ⟨by simp, .inr rfl⟩

/-- An exchange with the coordinator. -/
lemma Settled.exchange (h : Settled ⟨s, past⟩) (hm : m.msgType ≠ .migrate)
    (hclaim : m.msgType = .create → ClaimOk t m past) {x : Except Error (Option Message)}
    (hdoes : Does t (.coordinator m) s x s') :
    Settled ⟨s', .did t (.coordinator m) x :: past⟩ ∧
      Later ⟨s, past⟩ ⟨s', .did t (.coordinator m) x :: past⟩ := by
  have hdid : Settled ⟨s, .did t (.coordinator m) x :: past⟩ :=
    h.did fun m' heq hc => by cases heq; exact hclaim hc
  have hauth : Authentic (.did t (.coordinator m) x :: past) m :=
    ⟨hm, fun _ => ⟨t, x, List.mem_cons_self⟩⟩
  rcases does_coordinator hdoes with ⟨now, -, rfl⟩ | ⟨-, rfl | rfl⟩
  · exact ⟨hdid.deliver hauth now, List.suffix_cons _ _, List.suffix_cons _ _⟩
  · exact ⟨hdid, List.suffix_cons _ _, List.suffix_rfl⟩
  · refine ⟨hdid.congr rfl rfl (fun m' hm' => ?_) fun p hp => .inl hp,
      List.suffix_cons _ _, List.suffix_rfl⟩
    rcases List.mem_cons.mp hm' with rfl | hm'
    · exact .inr hauth
    · exact .inl hm'

/-- The questions that neither claim nor migrate. -/
def Plain : NodeReq → Prop
  | .coordinator m => m.msgType ≠ .create ∧ m.msgType ≠ .migrate
  | .notify _ => False
  | .send _ m => m.msgType ≠ .migrate
  | _ => True

lemma Settled.plain {r : NodeReq} (hr : Plain r) (h : Settled ⟨s, past⟩) {x : r.Resp}
    (hdoes : Does t r s x s') :
    Settled ⟨s', .did t r x :: past⟩ ∧ Later ⟨s, past⟩ ⟨s', .did t r x :: past⟩ := by
  have hdid (hclaim : ∀ m, r = .coordinator m → m.msgType = .create → ClaimOk t m past) :
      Settled ⟨s, .did t r x :: past⟩ := h.did hclaim
  cases r with
  | coordinator m => exact h.exchange hr.2 (fun hc => absurd hc hr.1) hdoes
  | notify m => cases hr
  | send addr m =>
    replace hdid := hdid (by simp)
    cases hdoes with
    | sent =>
      refine ⟨hdid.congr rfl rfl (fun m' hm' => .inl hm') fun p hp => ?_,
        List.suffix_cons _ _, List.suffix_rfl⟩
      rcases List.mem_cons.mp hp with rfl | hp
      · exact .inr hr
      · exact .inl hp
    | sendFailed => exact ⟨hdid, List.suffix_cons _ _, List.suffix_rfl⟩
  | register | getMeta | restore | receive =>
    replace hdid := hdid (by simp)
    cases hdoes <;>
      exact ⟨hdid.congr rfl rfl (fun m' hm' => .inl hm') fun p hp => .inl hp,
        List.suffix_cons _ _, List.suffix_rfl⟩

end Steps

/-! ### Programs -/

section Programs

variable {addr : Str → Str} {t : Task} {c : Scene Task Cluster NodeReq.Resp (List Message)}

/-- The weakest precondition of a program in a cluster without migrations. -/
abbrev Pre (addr : Str → Str) (t : Task) {α : Type} (p : Program NodeReq.Resp α)
    (Q : α → Scene Task Cluster NodeReq.Resp (List Message) → Prop) :
    Scene Task Cluster NodeReq.Resp (List Message) → Prop :=
  Wp (world quiet addr) Settled Later t p Q

lemma pre_plain {α : Type} {r : NodeReq} {k : r.Resp → Program NodeReq.Resp α}
    {Q : α → Scene Task Cluster NodeReq.Resp (List Message) → Prop} (hr : Plain r)
    (h : ∀ c₁, Later c c₁ → Settled c₁ → ∀ x s', Does t r c₁.now x s' →
      Pre addr t (k x) Q ⟨s', .did t r x :: c₁.past⟩) :
    Pre addr t (.ask r k) Q c := by
  intro c₁ hlater hI x s' hdoes
  obtain ⟨hI', hlater'⟩ := Settled.plain hr hI hdoes
  exact ⟨hI', hlater', h c₁ hlater hI x s' hdoes⟩

lemma pre_of_asks {α : Type} {Q : α → Prop} {p : Program NodeReq.Resp α} (h : p.Asks Plain Q) :
    Pre addr t p (fun a _ => Q a) c :=
  Wp.of_asks (fun _ hr _ hI _ _ hdoes => Settled.plain hr hI hdoes) h c

/-- After the local part of a store the node holds the object. -/
lemma pre_storeLocally (r : Registration) :
    Pre addr t (Node.storeLocally r) (fun x c => x = .ok ⟨⟩ → Held t r c.past) c := by
  refine pre_plain (r := .register r) trivial fun c₁ _ _ x s' _ => ?_
  rcases x with e | oid
  · cases e with
    | alreadyExists text =>
      refine pre_plain (r := .getMeta r.address.objectId) trivial fun c₂ hlater₂ _ x₂ s₂ _ => ?_
      rcases x₂ with e₂ | entry
      · exact fun h => by cases h
      · have hfound : ∃ text, .did t (.register r) (.error (.alreadyExists text)) ∈ c₂.past :=
          ⟨text, hlater₂.1.subset List.mem_cons_self⟩
        change Pre addr t (if entry.compatId ≠ r.compat.compatId then _ else _) _ _
        by_cases hcompat : entry.compatId = r.compat.compatId
        · rw [if_neg (not_not.mpr hcompat)]
          refine pre_plain (r := .restore r.address.objectId .host) trivial
            fun c₃ hlater₃ _ x₃ s₃ _ => ?_
          rcases x₃ with e₃ | existing
          · exact fun h => by cases h
          · change Pre addr t (if existing ≠ r.payload then _ else _) _ _
            by_cases hpayload : existing = r.payload
            · rw [if_neg (not_not.mpr hpayload)]
              subst hpayload
              obtain ⟨text, htext⟩ := hfound
              have hsuffix := hlater₃.1.trans (List.suffix_cons
                (.did t (.restore r.address.objectId .host) (.ok r.payload)) c₃.past)
              exact fun _ => .inr ⟨entry,
                ⟨text, hsuffix.subset (List.mem_cons_of_mem _ htext)⟩,
                hsuffix.subset List.mem_cons_self, hcompat, List.mem_cons_self⟩
            · rw [if_pos hpayload]
              exact fun h => by cases h
        · rw [if_pos hcompat]
          exact fun h => by cases h
    | _ => exact fun h => by cases h
  · exact fun _ => .inl ⟨oid, List.mem_cons_self⟩

/-- An object that is looked up and found has been claimed. -/
lemma claimed_of_found {s : Cluster} {past : Past} (h : Settled ⟨s, past⟩) {now : UInt64}
    {nameSpace key : Str} {generation : UInt64} {compat : Blob} {lk : Message}
    (hreply : (s.reply now (.lookup nameSpace key generation compat)).head? = some lk) :
    (∃ a b g, lk = .lookupResult false a b g) ∨
      (∃ a b g, lk = .lookupResult true a b g) ∧
        (firstClaim (Coordinator.objectId nameSpace key generation) s.log).isSome := by
  have hcases := s.coord.handled now (.lookup nameSpace key generation compat)
  have howners := h.owners (Coordinator.objectId nameSpace key generation)
  unfold reply at hreply
  generalize s.coord.handle now (.lookup nameSpace key generation compat) = res at hcases hreply
  cases hcases with
  | found _ _ _ _ state hfound =>
    cases hreply
    refine .inr ⟨⟨_, _, _, rfl⟩, ?_⟩
    simp only [Coordinator.owners, hfound] at howners
    cases hfirst : firstClaim (Coordinator.objectId nameSpace key generation) s.log with
    | none => simp [hfirst] at howners
    | some m => rfl
  | missing =>
    cases hreply
    exact .inl ⟨_, _, _, rfl⟩
  | idle m hidle => cases hidle

/-- After a claim that did not fail the object has an owner. -/
lemma pre_claim {me : NodeInfo} (hme : me.nodeId = t.node) {r : Registration} {compat : Blob}
    (hcompat : compat.val = r.compat.encode) (hheld : Held t r c.past) :
    Pre addr t
      (Node.claim me r.address.nameSpace r.address.key r.address.generation
        (UInt64.ofNat r.payload.length) compat)
      (fun x c => x = .ok ⟨⟩ → (firstClaim r.address.objectId.toHex c.now.log).isSome) c := by
  refine pre_plain (r := .coordinator (.lookup _ _ _ compat))
    ⟨by simp [Message.msgType], by simp [Message.msgType]⟩ fun c₁ hlater₁ hI₁ x s₁ hdoes => ?_
  rcases x with e | _ | lk
  · exact fun h => by cases h
  · exact fun h => by cases h
  · rcases does_coordinator hdoes with ⟨now, hreply, rfl⟩ | ⟨hne, -⟩
    · rcases claimed_of_found hI₁ (Except.ok.inj hreply).symm with
        ⟨a, b, g, rfl⟩ | ⟨⟨a, b, g, rfl⟩, hclaimed⟩
      · -- nobody owned the object when the coordinator answered
        intro c₂ hlater₂ hI₂ x₂ s₂ hdoes₂
        have hpast : c.past <:+ c₂.past :=
          (hlater₁.1.trans (List.suffix_cons _ _)).trans hlater₂.1
        have hclaim : ClaimOk t (.create r.address.nameSpace r.address.key r.address.generation
            (UInt64.ofNat r.payload.length) compat me.nodeId) c₂.past :=
          ⟨r, compat, hcompat, by rw [hme], hheld.later hpast⟩
        obtain ⟨hI', hlater'⟩ := Settled.exchange hI₂ (by simp [Message.msgType])
          (fun _ => hclaim) hdoes₂
        refine ⟨hI', hlater', ?_⟩
        rcases x₂ with e | _ | reply
        · exact fun h => by cases h
        · exact fun h => by cases h
        · rcases does_coordinator hdoes₂ with ⟨now₂, -, rfl⟩ | ⟨hne, -⟩
          · intro _
            change ((firstClaim _ c₂.now.log).or _).isSome
            rw [if_pos (by simp [claimant, Coordinator.objectId])]
            cases firstClaim r.address.objectId.toHex c₂.now.log <;> rfl
          · exact absurd rfl (hne reply)
      · exact fun _ => firstClaim_isSome_of_suffix hclaimed (List.suffix_cons _ _)
    · exact absurd rfl (hne lk)

lemma encode_of_decodeKey {compat : Blob} {k : { k : CompatKey // k.encode.length < 2 ^ 64 }}
    (h : decodeKey compat = .ok k) : compat.val = k.val.encode := by
  unfold decodeKey at h
  split at h
  · cases h
  · rename_i k' hk
    cases h
    exact (CompatKey.encode_of_decode hk).1.symm

/-- The objects whose storage a response acknowledges have been claimed. -/
def AcksClaimed (rs : List Message) (c : Scene Task Cluster NodeReq.Resp (List Message)) : Prop :=
  ∀ id, .storeAck id ∈ rs → (firstClaim id c.now.log).isSome

lemma pre_handleStore {me : NodeInfo} (hme : me.nodeId = t.node) (nameSpace key : Str)
    (generation : UInt64) (data : Blob) (crc : UInt32) (compat : Blob) :
    Pre addr t (Node.handleStore me nameSpace key generation data crc compat)
      (fun x c => ∀ rs, x = .ok rs → AcksClaimed rs c) c := by
  unfold Node.handleStore
  split_ifs with hcrc
  · exact fun rs h => by cases h
  · cases hkey : decodeKey compat with
    | error e => exact fun rs h => by cases h
    | ok k =>
      simp only [Node.ofExcept_ok_bind]
      refine Wp.bindExcept (pre_storeLocally _) (fun _ c₁ hheld => ?_) fun e c₁ _ rs h => by cases h
      refine Wp.bindExcept (pre_claim hme (encode_of_decodeKey hkey) (hheld rfl))
        (fun _ c₂ hclaimed => ?_) fun e c₂ _ rs h => by cases h
      intro rs h id hid
      cases h
      cases List.mem_singleton.mp hid
      exact hclaimed rfl

/-- Results without an acknowledgement of a store. -/
def NoAck (x : Except Error (List Message)) : Prop := ∀ rs, x = .ok rs → ∀ id, .storeAck id ∉ rs

lemma noAck_error (e : Error) : NoAck (.error e) := fun _ h => by cases h

lemma asks_handleFetch (objectId : Str) (compat : Blob) :
    Program.Asks Plain NoAck (Node.handleFetch objectId compat) := by
  unfold Node.handleFetch
  cases ObjectId.fromHex objectId with
  | error e => exact noAck_error e
  | ok oid =>
    rw [Node.ofExcept_ok_bind]
    refine Program.Asks.bindExcept (Q := fun _ => True) (Program.Asks.request trivial)
      (fun entry _ => ?_) fun e _ => noAck_error e
    cases CompatKey.decode compat.val with
    | error e => exact noAck_error e
    | ok k =>
      change Program.Asks Plain NoAck (if entry.compatId ≠ k.compatId then _ else _)
      split_ifs
      · exact noAck_error _
      · refine Program.Asks.bindExcept (Q := fun _ => True) (Program.Asks.request trivial)
          (fun bytes _ rs h id hid => ?_) fun e _ => noAck_error e
        cases h
        cases List.mem_singleton.mp hid

lemma asks_fetchFrom (ownerAddr objectId : Str) (compat : Blob) :
    Program.Asks Plain (fun _ => True) (Node.fetchFrom ownerAddr objectId compat) := by
  refine Program.Asks.bindExcept (Q := fun _ => True)
    (Program.Asks.request (by simp [Plain, Message.msgType])) (fun conn _ => ?_) fun _ _ => trivial
  refine Program.Asks.bindExcept (Q := fun _ => True) (Program.Asks.request trivial)
    (fun reply _ => ?_) fun _ _ => trivial
  cases reply with
  | none => trivial
  | some m =>
    cases m with
    | fetchReply _ data crc =>
      change Program.Asks Plain _ (if crc32c data.val ≠ crc then _ else _)
      split_ifs <;> trivial
    | _ => trivial

lemma asks_replicateFrom (addr nameSpace key : Str) (generation : UInt64) (compat : Blob) :
    Program.Asks Plain (fun _ => True)
      (Node.replicateFrom addr nameSpace key generation compat) := by
  refine Program.Asks.bindExcept (Q := fun _ => True) (asks_fetchFrom _ _ _)
    (fun data _ => ?_) fun _ _ => trivial
  cases decodeKey compat with
  | error e => trivial
  | ok k => exact ⟨trivial, fun _ => trivial⟩

lemma asks_handleLookup (me : NodeInfo) (nameSpace key : Str) (generation : UInt64)
    (compat : Blob) :
    Program.Asks Plain NoAck (Node.handleLookup me nameSpace key generation compat) := by
  refine ⟨⟨by simp [Message.msgType], by simp [Message.msgType]⟩, fun x => ?_⟩
  rcases x with e | _ | lk
  · exact noAck_error e
  · exact noAck_error _
  · cases lk with
    | lookupResult found owner ownerAddr generation =>
      cases found with
      | false =>
        intro rs h id hid
        cases h
        cases List.mem_singleton.mp hid
      | true =>
        change Program.Asks Plain NoAck (if owner = some me.nodeId then _ else _)
        split_ifs
        · intro rs h id hid
          cases h
          cases List.mem_singleton.mp hid
        · cases ownerAddr with
          | none =>
            intro rs h id hid
            cases h
            cases List.mem_singleton.mp hid
          | some addr =>
            refine Program.Asks.bindExcept (Q := fun _ => True) (asks_replicateFrom _ _ _ _ _)
              (fun _ _ rs h id hid => ?_) fun e _ => noAck_error e
            cases h
            cases List.mem_singleton.mp hid
    | _ => exact noAck_error _

/-- Whatever a node answers, the objects it acknowledges have been claimed. -/
lemma pre_handlePeer {me : NodeInfo} (hme : me.nodeId = t.node) {m : Message}
    (hm : m.msgType ≠ .migrate) :
    Pre addr t (Node.handlePeer me m) (fun x c => ∀ rs, x = .ok rs → AcksClaimed rs c) c := by
  have hasks {p : Program NodeReq.Resp (Except Error (List Message))} (h : p.Asks Plain NoAck) :
      Pre addr t p (fun x c => ∀ rs, x = .ok rs → AcksClaimed rs c) c :=
    Wp.mono (fun x c hx rs hrs id hid => absurd hid (hx rs hrs id)) (pre_of_asks h)
  cases m with
  | store nameSpace key generation data crc compat source =>
    exact pre_handleStore hme nameSpace key generation data crc compat
  | fetch objectId compat => exact hasks (asks_handleFetch objectId compat)
  | lookup nameSpace key generation compat =>
    exact hasks (asks_handleLookup me nameSpace key generation compat)
  | migrate => exact absurd rfl hm
  | register => exact fun rs h => by cases h
  | _ =>
    intro rs h id hid
    cases h
    cases List.mem_singleton.mp hid

lemma Settled.finished {rs : List Message} (h : Settled c) (hacks : AcksClaimed rs c) :
    Settled ⟨{ c.now with replies := (t.conn, rs) :: c.now.replies }, .finished t rs :: c.past⟩ where
  settled := h.settled
  owners := h.owners
  late m hm := ⟨(h.late m hm).1, fun hc => ((h.late m hm).2 hc).cons⟩
  logged p hp hc := (h.logged p hp hc).cons
  calls := h.calls
  sent t' m' x' earlier hsuffix hc := by
    rcases List.suffix_cons_iff.mp hsuffix with heq | hsuffix
    · cases heq
    · exact h.sent t' m' x' earlier hsuffix hc
  acked t' rs' id hfin hack := by
    rcases List.mem_cons.mp hfin with heq | hfin
    · cases heq
      exact hacks id hack
    · exact h.acked t' rs' id hfin hack

/-- The work on any message but a migration is safe. -/
lemma safe_serve {me : NodeInfo} (hme : me.nodeId = t.node) {m : Message}
    (hm : m.msgType ≠ .migrate) :
    Process.Safe (world quiet addr) Settled Later t (Node.serve me m) c := by
  refine Wp.bind (Wp.mono (fun x c₀ hx => ?_) (pre_handlePeer hme hm))
  intro c₁ hlater hI s' hfin
  cases hfin
  refine ⟨hI.finished fun id hid => ?_, List.suffix_cons _ _, List.suffix_rfl⟩
  cases x with
  | error e => cases List.mem_singleton.mp hid
  | ok rs => exact firstClaim_isSome_of_suffix (hx rs rfl id hid) hlater.2

end Programs

/-! ### Runs -/

lemma system_quiet (addr : Str → Str) : System (world quiet addr) Settled Later where
  refl := Later.refl
  trans _ _ _ := Later.trans
  arrive c t p s' hI harrive := by
    cases harrive with
    | client node m hm =>
      refine ⟨Settled.congr hI rfl rfl (fun m' hm' => .inl hm') fun p hp => .inl hp,
        Later.refl _, safe_serve rfl hm⟩
    | peer l l' conn node m hcalls =>
      have hmem : (conn, addr node, m) ∈ c.now.calls := by rw [hcalls]; simp
      refine ⟨Settled.congr hI rfl rfl (fun m' hm' => .inl hm') fun p hp => .inl ?_,
        Later.refl _, safe_serve rfl (hI.calls _ hmem)⟩
      rw [hcalls]
      simp only [List.mem_append, List.mem_cons] at hp ⊢
      tauto
  move c s' hI hmove := by
    cases hmove with
    | late l l' m now hlate =>
      have hmem : m ∈ c.now.late := by rw [hlate]; simp
      have htaken : Settled ⟨{ c.now with late := l ++ l' }, c.past⟩ := by
        refine Settled.congr hI rfl rfl (fun m' hm' => .inl ?_) fun p hp => .inl hp
        rw [hlate]
        simp only [List.mem_append, List.mem_cons] at hm' ⊢
        tauto
      exact ⟨htaken.deliver (hI.late m hmem) now, List.suffix_rfl, List.suffix_cons _ _⟩
    | direct m now hm =>
      exact ⟨Settled.deliver hI ⟨hm.2, fun hc => absurd hc hm.1⟩ now, List.suffix_rfl,
        List.suffix_cons _ _⟩
    | called node ev _ =>
      exact ⟨Settled.congr hI rfl rfl (fun m' hm' => .inl hm') fun p hp => .inl hp, Later.refl _⟩

lemma good_start (addr : Str → Str) (boot : BootId) (leaseNs : UInt64) (nodes : Str → Runtime) :
    Good (world quiet addr) Settled Later (start boot leaseNs nodes) := by
  refine ⟨⟨rfl, fun _ => rfl, ?_, ?_, ?_, ?_, ?_⟩, ?_⟩ <;> simp [start]

/-- The first writer becomes the only owner. When a node has acknowledged the storage of an
object, the object has an owner: the node whose claim the coordinator handled first. The node held
the object before it sent the claim. From then on the owner does not change, and a claim that the
owner sends again returns the current fence and changes nothing. -/
theorem first_writer_owns (addr : Str → Str) (boot : BootId) (leaseNs : UInt64)
    (nodes : Str → Runtime) {c : Config Task Cluster NodeReq.Resp (List Message)}
    (hrun : Steps (world quiet addr) (start boot leaseNs nodes) c) {t : Task} {rs : List Message}
    {id : Str} (hfinished : .finished t rs ∈ c.scene.past) (hack : .storeAck id ∈ rs) :
    ∃ n m, firstClaim id c.scene.now.log = some m ∧ claimant id m = some n ∧
      c.scene.now.coord.owners id = some (n, 0) ∧
      (Sent m c.scene.past ∧
        ∀ t' x earlier, .did t' (.coordinator m) x :: earlier <:+ c.scene.past →
          t'.node = n ∧ ∃ r : Registration, r.address.objectId.toHex = id ∧ Held t' r earlier) ∧
      ∀ c', Steps (world quiet addr) c c' →
        c'.scene.now.coord.owners id = some (n, 0) ∧
        ∀ now nameSpace key generation byteLen compat,
          Coordinator.objectId nameSpace key generation = id →
          c'.scene.now.coord.handle now (.create nameSpace key generation byteLen compat n) =
            .ok [.createAck id c'.scene.now.coord.epoch 0 n] c'.scene.now.coord := by
  obtain ⟨hgood, -⟩ := (system_quiet addr).run_rule (good_start addr boot leaseNs nodes) hrun
  obtain ⟨m, hm⟩ := Option.isSome_iff_exists.mp (hgood.1.acked t rs id hfinished hack)
  obtain ⟨hclaim, x, hlogged⟩ := claimant_of_firstClaim hm
  obtain ⟨n, hn⟩ := Option.isSome_iff_exists.mp hclaim
  have hcreate := isCreate_of_claimant hclaim
  refine ⟨n, m, hm, hn, ?_, ⟨hgood.1.logged _ hlogged hcreate, ?_⟩, ?_⟩
  · rw [hgood.1.owners, hm]
    simp [hn]
  · intro t' x' earlier hsuffix
    obtain ⟨r, compat, -, rfl, hheld⟩ := hgood.1.sent t' m x' earlier hsuffix hcreate
    simp only [claimant] at hn
    split_ifs at hn with hid
    cases hn
    exact ⟨rfl, r, hid, hheld⟩
  · intro c' hrun'
    obtain ⟨hgood', hlater⟩ := (system_quiet addr).run_rule hgood hrun'
    have howner : c'.scene.now.coord.owners id = some (n, 0) := by
      rw [hgood'.1.owners, firstClaim_of_suffix hm hlater.2]
      simp [hn]
    refine ⟨howner, fun now nameSpace key generation byteLen compat hid => ?_⟩
    exact Coordinator.handle_create_owner (by rw [hid]; exact howner) |>.trans (by rw [hid])

/-- Nodes with small caches. -/
def smallNodes (_ : Str) : Runtime := .initial smallConfig [] none

theorem first_writer_owns_bytePair :
    ∃ c t n m, Steps (world quiet id) (start (.lit "") 0 smallNodes) c ∧
      .finished t (storeAckOf (bytePair 0 1 2)) ∈ c.scene.past ∧
      firstClaim (bytePair 0 1 2).address.objectId.toHex c.scene.now.log = some m ∧
      claimant (bytePair 0 1 2).address.objectId.toHex m = some n := by
  let t : Task := ⟨0, .lit "a", storeMessage (bytePair 0 1 2) (.lit "")⟩
  have harrive : Arrives quiet id (start (.lit "") 0 smallNodes).scene.now t
      (Node.serve ⟨t.node, id t.node⟩ t.msg)
      { (start (.lit "") 0 smallNodes).scene.now with fresh := 1 } :=
    .client _ _ _ (by simp [quiet, storeMessage, Message.msgType])
  have hreg : outcome (Runtime.register {} (bytePair 0 1 2) (smallNodes (.lit "a")).beginCall)
      = .ok (bytePair 0 1 2).address.objectId := by decide +kernel
  obtain ⟨past, hstore⟩ := steps_store quiet id
    { (start (.lit "") 0 smallNodes).scene.now with fresh := 1 } [] t (.lit "") rfl hreg rfl []
  have hrun : Steps (world quiet id) (start (.lit "") 0 smallNodes) _ :=
    .head (Step.arrive [] harrive) hstore
  have hfinished : .finished t (storeAckOf (bytePair 0 1 2)) ∈
      .finished t (storeAckOf (bytePair 0 1 2)) :: past := List.mem_cons_self
  obtain ⟨n, m, hm, hn, -⟩ := first_writer_owns id (.lit "") 0 smallNodes hrun hfinished
    (List.mem_singleton.mpr rfl)
  exact ⟨_, t, n, m, hrun, hfinished, hm, hn⟩

end Cluster

end TensorCache
