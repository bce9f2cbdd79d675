import TensorCache.Cluster.FirstWriter
import TensorCache.Cluster.Serving

/-!
# Who holds what in a cluster

Clients store tensors on nodes, nodes fetch replicas from each other and push objects to new
owners, and many of these exchanges are under way at once. Every connection carries one request
and its answer. The invariant `Sound` says what all the caches hold stems from what clients have
stored, that every answer on a connection is right for the request that was sent on it, and that
the coordinator and the messages on their way to it name only owners that hold the object.
-/

namespace TensorCache

open Codec EStateM Process TensorCache.Runtime

/-- Two registrations that put the same bytes under the same object id and compatibility id. -/
structure Registration.Same (r r' : Registration) : Prop where
  objectId : r.address.objectId = r'.address.objectId
  compatId : r.compat.compatId = r'.compat.compatId
  payload : r.payload = r'.payload

namespace Registration.Same

variable {r r₁ r₂ : Registration}

lemma refl (r : Registration) : r.Same r := ⟨rfl, rfl, rfl⟩

lemma trans (h : r.Same r₁) (h' : r₁.Same r₂) : r.Same r₂ :=
  ⟨h.objectId.trans h'.objectId, h.compatId.trans h'.compatId, h.payload.trans h'.payload⟩

end Registration.Same

/-- Nodes with their addresses and configurations, and what reaches them from outside. -/
structure Deployment where
  traffic : Traffic
  addr : Str → Str
  config : Str → RuntimeConfig

namespace Deployment

variable (D : Deployment)

/-- A client stores the tensor. -/
def ClientStores (r : Registration) : Prop :=
  ∃ source, D.traffic.client (Cluster.storeMessage r source)

/-- The tensors of the clients, and the block sizes of the nodes. -/
def scope : Scope where
  registered := { r | ∃ r₀, D.ClientStores r₀ ∧ r.Same r₀ }
  sizes := { n | ∃ node, n = (D.config node).blockSize.toNat }

/-- No two blocks share a digest, and nothing but the programs of the nodes registers or deletes
objects. -/
structure Tame : Prop where
  collisionFree : CollisionFree D.scope.blocks
  calls : ∀ ev, D.traffic.calls ev → (∀ oid, ev.call ≠ .delete oid) ∧ ∀ r, ev.call ≠ .register r

/-- Addresses name one node, clients name the address of the new owner, and nobody but the nodes
claims an object or acknowledges a migration. -/
structure Directed : Prop where
  injective : Function.Injective D.addr
  target : ∀ id newOwner newOwnerAddr fence,
    D.traffic.client (.migrate id newOwner newOwnerAddr fence) → newOwnerAddr = D.addr newOwner
  direct : ∀ m, D.traffic.direct m → m.msgType ≠ .create ∧ m.msgType ≠ .migrateAck

/-- The node holds the tensor. -/
def Holds (node : Str) (r : Registration) (s : Runtime) : Prop :=
  Retains D.scope (D.config node) r s

/-- The cache of a node: its entries stem from tensors of the clients and can be read. -/
structure SoundCache (node : Str) (s : Runtime) : Prop where
  safe : ∃ o, Safe D.scope (D.config node) o s
  readable : Readable s
  cut : CutWith D.scope (D.config node).blockSize.toNat s

variable {D} {node : Str} {s : Runtime} {r : Registration}

lemma scope_of_same {r' : Registration} (h : r ∈ D.scope.registered) (hsame : r'.Same r) :
    r' ∈ D.scope.registered := by
  obtain ⟨r₀, hclient, hsame₀⟩ := h
  exact ⟨r₀, hclient, hsame.trans hsame₀⟩

/-- A new cache is sound. -/
lemma soundCache_new (hD : D.Tame) {env : Env} {extra : List Backend} {pid : ℕ}
    (hnew : Runtime.new env (D.config node) extra ∅ pid = .ok s) : D.SoundCache node s := by
  have hfiles : AllFiles (FileOk D.scope.blocks (ManifestOk D.scope)) ∅ := by
    intro path c hc
    simp at hc
  obtain ⟨hfresh, o, hsafe⟩ := new_spec hD.collisionFree hfiles ⟨node, rfl⟩ hnew
  have hcut : ManifestsCutWith (D.config node).blockSize.toNat [] ∅ := by
    intro path c m hc
    simp at hc
  exact ⟨⟨o, hsafe⟩, hfresh.readable,
    hcut.cutWith hD.collisionFree hfiles (by simp) hnew⟩

/-- A call that registers only tensors of the clients keeps a cache sound. -/
lemma SoundCache.exec (hD : D.Tame) (h : D.SoundCache node s) {ev : Event}
    (hreg : ∀ r, ev.call = .register r → r ∈ D.scope.registered) :
    D.SoundCache node (s.exec ev) := by
  obtain ⟨o, hsafe⟩ := h.safe
  have hregistered : ∀ r ∈ s.registration ev, r ∈ D.scope.registered := by
    intro r hr
    exact hreg r (lookup_of_registration hr).1
  obtain ⟨hsafe', hread, hcut⟩ := hsafe.exec_rule hD.collisionFree hregistered
    (CutWith.extension hD.collisionFree hsafe.beginCall h.readable.beginCall h.cut)
  exact ⟨⟨_, hsafe'⟩, hread, hcut⟩

/-- Every entry is that of a tensor of the clients. -/
lemma SoundCache.holds (h : D.SoundCache node s) {k : Str} {e : Entry}
    (he : s.entries.lookup k = some e) :
    ∃ r ∈ D.scope.registered, k = r.address.objectId.toHex ∧ D.Holds node r s := by
  obtain ⟨o, hsafe⟩ := h.safe
  obtain ⟨r, ho, hok⟩ := hsafe.entry k e he
  refine ⟨r, hok.registered, hok.key, o, e, hsafe, ?_, ?_⟩
  · rw [← hok.key]
    exact he
  · rw [← hok.key]
    exact ho

/-- Every listed placement of a tensor that a node holds gives its bytes. -/
lemma Holds.materializeFrom (hD : D.Tame) (h : D.Holds node r s) (hr : Readable s) {e : Entry}
    (he : s.entries.lookup r.address.objectId.toHex = some e) {t : Tier}
    (ht : t ∈ e.placementTiers) : s.materializeFrom r.address.objectId t = .ok r.payload := by
  obtain ⟨o, e', hsafe, he', ho⟩ := h
  rw [he'] at he
  cases he
  exact hsafe.materializeFrom hD.collisionFree hr he' ho ht

lemma Holds.mem_registered (h : D.Holds node r s) : r ∈ D.scope.registered := by
  obtain ⟨o, e, hsafe, he, ho⟩ := h
  exact (hsafe.entryOk he ho).registered

/-- What a node holds it keeps. -/
lemma Holds.exec (hD : D.Tame) (h : D.Holds node r s) {ev : Event}
    (hreg : ∀ r, ev.call = .register r → r ∈ D.scope.registered)
    (hev : ∀ oid, ev.call ≠ .delete oid) : D.Holds node r (s.exec ev) :=
  Retains.exec hD.collisionFree h (fun r hr => hreg r (lookup_of_registration hr).1) (hev _)

end Deployment

namespace Cluster

/-! ### The invariant -/

/-- A state of the cluster and what has happened so far. -/
abbrev Moment := Scene Task Cluster NodeReq.Resp (List Message)

/-- The request was sent to the address on the connection. -/
def Asked (past : Past) (conn : ℕ) (a : Str) (m : Message) : Prop :=
  ∃ t, .did t (.send a m) (.ok conn) ∈ past

variable (D : Deployment)

/-- The tensors that a message asks a node to take in are tensors of the clients, and a migration
goes where the coordinator is told it goes. -/
def Carried : Message → Prop
  | .store nameSpace key generation data crc compat _ => ∀ r : Registration,
      r.address = ⟨nameSpace, key, generation⟩ →
      decodeKey compat = .ok ⟨r.compat, r.compat_small⟩ → r.payload = data.val →
      crc = crc32c data.val → r ∈ D.scope.registered
  | .migrate _ newOwner newOwnerAddr _ => D.Directed → newOwnerAddr = D.addr newOwner
  | _ => True

/-- The answers a node may give to a message: it acknowledges a store only if it holds the tensor,
it sends the bytes of a tensor it holds, and it reports a migration only if the target holds what
it holds itself. -/
def Right (node : Str) (s : Cluster) : Message → List Message → Prop
  | .store nameSpace key generation data _ compat _, rs => ∀ id, .storeAck id ∈ rs →
      ∃ k r, CompatKey.decode compat.val = .ok k ∧ D.Holds node r (s.nodes node) ∧
        r.address.objectId = Address.objectId ⟨nameSpace, key, generation⟩ ∧
        id = r.address.objectId.toHex ∧ r.compat.compatId = k.compatId ∧ r.payload = data.val
  | .fetch objectId compat, rs => ∀ id data crc, .fetchReply id data crc ∈ rs →
      ∃ k r, CompatKey.decode compat.val = .ok k ∧ D.Holds node r (s.nodes node) ∧
        ObjectId.fromHex objectId = .ok r.address.objectId ∧ id = objectId ∧
        r.compat.compatId = k.compatId ∧ r.payload = data.val ∧ crc = crc32c data.val
  | .migrate objectId newOwner newOwnerAddr _, rs => ∀ id owner fence,
      .migrateAck id owner fence ∈ rs → id = objectId ∧ owner = newOwner ∧
      ∃ r target r', ObjectId.fromHex objectId = .ok r.address.objectId ∧
        D.Holds node r (s.nodes node) ∧ D.addr target = newOwnerAddr ∧
        D.Holds target r' (s.nodes target) ∧ r'.Same r
  | _, _ => True

/-- Whom a message makes the owner of an object holds it. -/
def Warranted (s : Cluster) : Message → Prop
  | .create nameSpace key generation _ _ nodeId => ∃ r : Registration,
      r.address.objectId.toHex = Coordinator.objectId nameSpace key generation ∧
        D.Holds nodeId r (s.nodes nodeId)
  | .migrateAck id newOwner _ => ∃ r : Registration,
      r.address.objectId.toHex = id ∧ D.Holds newOwner r (s.nodes newOwner)
  | _ => True

structure Sound (c : Moment) : Prop where
  caches : ∀ node, D.SoundCache node (c.now.nodes node)
  fresh : ∀ conn a m, Asked c.past conn a m → conn < c.now.fresh
  unique : ∀ conn a m a' m', Asked c.past conn a m → Asked c.past conn a' m' → a' = a ∧ m' = m
  calls : ∀ p ∈ c.now.calls, Asked c.past p.1 p.2.1 p.2.2
  carried : ∀ conn a m, Asked c.past conn a m → Carried D m
  replied : ∀ p ∈ c.now.replies, p.1 < c.now.fresh
  replies : ∀ p ∈ c.now.replies, ∀ a m, Asked c.past p.1 a m →
    ∃ node, D.addr node = a ∧ Right D node c.now m p.2
  finished : ∀ t rs, .finished t rs ∈ c.past → Right D t.node c.now t.msg rs
  named : ∀ id, (c.now.coord.owners id).isSome → ∃ oid : ObjectId, id = oid.toHex
  owners : D.Directed → ∀ id n f, c.now.coord.owners id = some (n, f) →
    ∃ r : Registration, r.address.objectId.toHex = id ∧ D.Holds n r (c.now.nodes n)
  late : D.Directed → ∀ m ∈ c.now.late, Warranted D c.now m

/-- No node gives up what it holds. -/
def Grows (s s' : Cluster) : Prop :=
  ∀ node r, D.Holds node r (s.nodes node) → D.Holds node r (s'.nodes node)

/-- How the system moves on: connections are new, and what has happened or is held stays so. -/
structure Onward (c c' : Moment) : Prop where
  past : c.past <:+ c'.past
  fresh : c.now.fresh ≤ c'.now.fresh
  asked : ∀ conn a m, Asked c'.past conn a m → conn < c.now.fresh → Asked c.past conn a m
  grows : Grows D c.now c'.now

variable {D} {s s' : Cluster} {past : Past} {t : Task} {m : Message} {c c' c'' : Moment}

lemma Onward.refl (c : Moment) : Onward D c c :=
  ⟨List.suffix_rfl, le_rfl, fun _ _ _ h _ => h, fun _ _ h => h⟩

lemma Onward.trans (h : Onward D c c') (h' : Onward D c' c'') : Onward D c c'' where
  past := h.past.trans h'.past
  fresh := h.fresh.trans h'.fresh
  asked conn a m hasked hlt := h.asked conn a m (h'.asked conn a m hasked (hlt.trans_le h.fresh)) hlt
  grows node r hr := h'.grows node r (h.grows node r hr)

lemma Asked.later {conn : ℕ} {a : Str} {past' : Past} (h : Asked past conn a m)
    (hsuffix : past <:+ past') : Asked past' conn a m := by
  obtain ⟨t, ht⟩ := h
  exact ⟨t, hsuffix.subset ht⟩

lemma Right.grows (hgrows : Grows D s s') {node : Str} {rs : List Message}
    (h : Right D node s m rs) : Right D node s' m rs := by
  cases m with
  | store =>
    intro id hid
    obtain ⟨k, r, hk, hr, rest⟩ := h id hid
    exact ⟨k, r, hk, hgrows _ _ hr, rest⟩
  | fetch =>
    intro id data crc hid
    obtain ⟨k, r, hk, hr, rest⟩ := h id data crc hid
    exact ⟨k, r, hk, hgrows _ _ hr, rest⟩
  | migrate =>
    intro id owner fence hid
    obtain ⟨hid', howner, r, target, r', hoid, hr, htarget, hr', hsame⟩ := h id owner fence hid
    exact ⟨hid', howner, r, target, r', hoid, hgrows _ _ hr, htarget, hgrows _ _ hr', hsame⟩
  | _ => trivial

lemma Warranted.grows (hgrows : Grows D s s') (h : Warranted D s m) : Warranted D s' m := by
  cases m with
  | create =>
    obtain ⟨r, hid, hr⟩ := h
    exact ⟨r, hid, hgrows _ _ hr⟩
  | migrateAck =>
    obtain ⟨r, hid, hr⟩ := h
    exact ⟨r, hid, hgrows _ _ hr⟩
  | _ => trivial

/-! ### Steps -/

/-- A step that the coordinator takes no part in and that sends nothing. -/
lemma Sound.congr (h : Sound D ⟨s, past⟩) (hcaches : ∀ node, D.SoundCache node (s'.nodes node))
    (hgrows : Grows D s s') (hcoord : s'.coord = s.coord) (hfresh : s.fresh ≤ s'.fresh)
    (hcalls : ∀ p ∈ s'.calls, p ∈ s.calls) (hreplies : s'.replies = s.replies)
    (hlate : D.Directed → ∀ m ∈ s'.late, m ∈ s.late ∨ Warranted D s' m) :
    Sound D ⟨s', past⟩ where
  caches := hcaches
  fresh conn a m hasked := (h.fresh conn a m hasked).trans_le hfresh
  unique := h.unique
  calls p hp := h.calls p (hcalls p hp)
  carried := h.carried
  replied := by
    rw [hreplies]
    exact fun p hp => (h.replied p hp).trans_le hfresh
  replies := by
    intro p hp a m hasked
    rw [hreplies] at hp
    obtain ⟨node, hnode, hright⟩ := h.replies p hp a m hasked
    exact ⟨node, hnode, hright.grows hgrows⟩
  finished t rs hfin := (h.finished t rs hfin).grows hgrows
  named := by
    rw [hcoord]
    exact h.named
  owners := by
    rw [hcoord]
    intro hdirected id n f howner
    obtain ⟨r, hid, hr⟩ := h.owners hdirected id n f howner
    exact ⟨r, hid, hgrows _ _ hr⟩
  late hdirected m hm := (hlate hdirected m hm).elim
    (fun hm => (h.late hdirected m hm).grows hgrows) id

@[simp] lemma nodes_setNode (node : Str) (tc : Runtime) (s : Cluster) :
    (s.setNode node tc).nodes = Function.update s.nodes node tc := rfl

/-- A cache takes a call. -/
lemma grows_setNode (hD : D.Tame) {node : Str} {ev : Event}
    (hreg : ∀ r, ev.call = .register r → r ∈ D.scope.registered)
    (hev : ∀ oid, ev.call ≠ .delete oid) : Grows D s (s.setNode node ((s.nodes node).exec ev)) := by
  intro node' r hr
  rw [nodes_setNode]
  by_cases hnode : node' = node
  · subst hnode
    rw [Function.update_self]
    exact hr.exec hD hreg hev
  · rw [Function.update_of_ne hnode]
    exact hr

lemma Sound.setNode (hD : D.Tame) (h : Sound D ⟨s, past⟩) {node : Str} {ev : Event}
    (hreg : ∀ r, ev.call = .register r → r ∈ D.scope.registered)
    (hev : ∀ oid, ev.call ≠ .delete oid) :
    Sound D ⟨s.setNode node ((s.nodes node).exec ev), past⟩ := by
  refine h.congr (fun node' => ?_) (grows_setNode hD hreg hev) rfl le_rfl (fun _ hp => hp) rfl
    fun _ _ hm => .inl hm
  rw [nodes_setNode]
  by_cases hnode : node' = node
  · subst hnode
    rw [Function.update_self]
    exact (h.caches node').exec hD hreg
  · rw [Function.update_of_ne hnode]
    exact h.caches node'

/-- The owner of an object after a message is the one it had, or the one the message names. -/
lemma owner_of_handle {c : Coordinator} {now : UInt64} {id n : Str} {f : UInt64}
    (h : (c.handle now m).state.owners id = some (n, f)) :
    c.owners id = some (n, f) ∨
      (∃ nameSpace key generation byteLen compat, m = .create nameSpace key generation byteLen
        compat n ∧ id = Coordinator.objectId nameSpace key generation) ∨
      m = .migrateAck id n f ∧ (c.owners id).isSome := by
  have hcases := c.handled now m
  generalize c.handle now m = res at hcases h
  cases hcases with
  | created nameSpace key generation byteLen compat nodeId hnone =>
    by_cases hid : id = Coordinator.objectId nameSpace key generation
    · subst hid
      simp only [Result.state_ok, Coordinator.owners, AList.lookup_insert, Option.map_some,
        Option.some.injEq, Prod.mk.injEq] at h
      obtain ⟨rfl, rfl⟩ := h
      exact .inr (.inl ⟨_, _, _, _, _, rfl, rfl⟩)
    · left
      simpa [Coordinator.owners, AList.lookup_insert_ne hid] using h
  | migrated id' newOwner fence hpending =>
    by_cases hid : id = id'
    · subst hid
      simp only [Result.state_ok, Coordinator.owners, AList.lookup_modify_self,
        Option.map_map] at h
      obtain ⟨state, hstate, heq⟩ := Option.map_eq_some_iff.mp h
      cases heq
      refine .inr (.inr ⟨rfl, ?_⟩)
      rw [Coordinator.owners, hstate]
      rfl
    · left
      simpa [Coordinator.owners, AList.lookup_modify_ne hid] using h
  | _ => exact .inl h

/-- The coordinator handles a message. -/
lemma Sound.deliver (h : Sound D ⟨s, past⟩) (hm : D.Directed → Warranted D s m) (now : UInt64) :
    Sound D ⟨s.deliver now m, past⟩ where
  caches := h.caches
  fresh := h.fresh
  unique := h.unique
  calls := h.calls
  carried := h.carried
  replied := h.replied
  replies := h.replies
  finished := h.finished
  named := by
    intro id hsome
    obtain ⟨⟨n, f⟩, howner⟩ := Option.isSome_iff_exists.mp hsome
    rcases owner_of_handle howner with hold | ⟨_, _, _, _, _, -, hid⟩ | ⟨-, hold⟩
    · exact h.named id (by rw [hold]; rfl)
    · exact ⟨_, hid⟩
    · exact h.named id hold
  owners := by
    intro hdirected id n f howner
    rcases owner_of_handle howner with hold | ⟨_, _, _, _, _, rfl, rfl⟩ | ⟨rfl, -⟩
    · exact h.owners hdirected id n f hold
    · exact hm hdirected
    · exact hm hdirected
  late := h.late

/-- The event is not a request that was sent to a peer. -/
def Quiet : Process.Event Task NodeReq.Resp (List Message) → Prop
  | .did _ (.send ..) (.ok _) => False
  | _ => True

lemma asked_cons {ev : Process.Event Task NodeReq.Resp (List Message)} (hev : Quiet ev) {conn : ℕ}
    {a : Str} : Asked (ev :: past) conn a m ↔ Asked past conn a m := by
  constructor
  · rintro ⟨t, ht⟩
    rcases List.mem_cons.mp ht with rfl | ht
    · exact hev.elim
    · exact ⟨t, ht⟩
  · exact fun h => h.later (List.suffix_cons _ _)

/-- Something has happened that is not a request to a peer. -/
lemma Sound.did (h : Sound D ⟨s, past⟩) {r : NodeReq} {x : r.Resp} (hev : Quiet (.did t r x)) :
    Sound D ⟨s, .did t r x :: past⟩ where
  caches := h.caches
  fresh conn a m hasked := h.fresh conn a m ((asked_cons hev).mp hasked)
  unique conn a m a' m' hasked hasked' :=
    h.unique conn a m a' m' ((asked_cons hev).mp hasked) ((asked_cons hev).mp hasked')
  calls p hp := (asked_cons hev).mpr (h.calls p hp)
  carried conn a m hasked := h.carried conn a m ((asked_cons hev).mp hasked)
  replied := h.replied
  replies p hp a m hasked := h.replies p hp a m ((asked_cons hev).mp hasked)
  finished t' rs hfin := by
    rcases List.mem_cons.mp hfin with heq | hfin
    · cases heq
    · exact h.finished t' rs hfin
  named := h.named
  owners := h.owners
  late := h.late

/-- A request is sent to a peer. -/
lemma Sound.sent (h : Sound D ⟨s, past⟩) {a : Str} (hm : Carried D m) :
    Sound D ⟨{ s with calls := (s.fresh, a, m) :: s.calls, fresh := s.fresh + 1 },
      .did t (.send a m) (.ok s.fresh) :: past⟩ := by
  have hcases : ∀ {conn a' m'}, Asked (.did t (.send a m) (.ok s.fresh) :: past) conn a' m' →
      (conn = s.fresh ∧ a' = a ∧ m' = m) ∨ Asked past conn a' m' := by
    rintro conn a' m' ⟨t', ht'⟩
    rcases List.mem_cons.mp ht' with heq | ht'
    · cases heq
      exact .inl ⟨rfl, rfl, rfl⟩
    · exact .inr ⟨t', ht'⟩
  have hnew : ∀ {a' m'}, ¬Asked past s.fresh a' m' := fun hasked =>
    lt_irrefl _ (h.fresh _ _ _ hasked)
  refine ⟨h.caches, fun conn a' m' hasked => ?_, fun conn a₁ m₁ a₂ m₂ h₁ h₂ => ?_,
    fun p hp => ?_, fun conn a' m' hasked => ?_,
    fun p hp => (h.replied p hp).trans (Nat.lt_succ_self _), fun p hp a' m' hasked => ?_,
    fun t' rs hfin => ?_, h.named, h.owners, h.late⟩
  · rcases hcases hasked with ⟨rfl, -, -⟩ | hasked
    · exact Nat.lt_succ_self _
    · exact (h.fresh _ _ _ hasked).trans (Nat.lt_succ_self _)
  · rcases hcases h₁ with ⟨rfl, rfl, rfl⟩ | h₁
    · rcases hcases h₂ with ⟨-, rfl, rfl⟩ | h₂
      · exact ⟨rfl, rfl⟩
      · exact absurd h₂ hnew
    · rcases hcases h₂ with ⟨rfl, -, -⟩ | h₂
      · exact absurd h₁ hnew
      · exact h.unique _ _ _ _ _ h₁ h₂
  · rcases List.mem_cons.mp hp with rfl | hp
    · exact ⟨t, List.mem_cons_self⟩
    · exact (h.calls p hp).later (List.suffix_cons _ _)
  · rcases hcases hasked with ⟨-, -, rfl⟩ | hasked
    · exact hm
    · exact h.carried _ _ _ hasked
  · rcases hcases hasked with ⟨heq, -, -⟩ | hasked
    · exact absurd (h.replied p hp) (by rw [heq]; exact lt_irrefl _)
    · exact h.replies p hp a' m' hasked
  · rcases List.mem_cons.mp hfin with heq | hfin
    · cases heq
    · exact h.finished t' rs hfin

/-- A registration leaves the state that the call leaves. -/
lemma state_register (env : Env) (r : Registration) (s : Runtime) :
    (Runtime.register env r s.beginCall).state = s.exec ⟨env, .register r⟩ := by
  change _ = (EStateM.bind (Runtime.register env r) _ s.beginCall).state
  unfold EStateM.bind
  cases Runtime.register env r s.beginCall <;> rfl

lemma state_restore (env : Env) (oid : ObjectId) (tier : Tier) (s : Runtime) :
    (Runtime.restore env oid tier s.beginCall).state = s.exec ⟨env, .restore oid tier⟩ := by
  change _ = (EStateM.bind (Runtime.restore env oid tier) _ s.beginCall).state
  unfold EStateM.bind
  cases Runtime.restore env oid tier s.beginCall <;> rfl

variable (D) in
/-- What a program has to make sure of before it asks. -/
def Fine (s : Cluster) : NodeReq → Prop
  | .register r => r ∈ D.scope.registered
  | .coordinator m | .notify m => D.Directed → Warranted D s m
  | .send _ m => Carried D m
  | _ => True

lemma onward_did {r : NodeReq} {x : r.Resp} (hev : Quiet (.did t r x)) (hfresh : s.fresh ≤ s'.fresh)
    (hgrows : Grows D s s') : Onward D ⟨s, past⟩ ⟨s', .did t r x :: past⟩ :=
  ⟨List.suffix_cons _ _, hfresh, fun _ _ _ hasked _ => (asked_cons hev).mp hasked, hgrows⟩

lemma grows_of_nodes (h : s'.nodes = s.nodes) : Grows D s s' := by
  intro node r hr
  rw [h]
  exact hr

/-- Late messages are taken note of. -/
lemma Sound.addLate (h : Sound D ⟨s, past⟩) (hm : D.Directed → Warranted D s m) :
    Sound D ⟨{ s with late := m :: s.late }, past⟩ := by
  refine h.congr h.caches (grows_of_nodes rfl) rfl le_rfl (fun _ hp => hp) rfl
    fun hdirected m' hm' => ?_
  rcases List.mem_cons.mp hm' with rfl | hm'
  · exact .inr (hm hdirected)
  · exact .inl hm'

/-- One question of a program is answered. -/
lemma Sound.does (hD : D.Tame) (h : Sound D ⟨s, past⟩) {r : NodeReq} {x : r.Resp}
    (hfine : Fine D s r) (hdoes : Does t r s x s') :
    Sound D ⟨s', .did t r x :: past⟩ ∧ Onward D ⟨s, past⟩ ⟨s', .did t r x :: past⟩ := by
  have hcall : ∀ {ev : Runtime.Event} {r : NodeReq} {x : r.Resp}, Quiet (.did t r x) →
      (∀ r, ev.call = .register r → r ∈ D.scope.registered) → (∀ oid, ev.call ≠ .delete oid) →
      Sound D ⟨s.setNode t.node ((s.nodes t.node).exec ev), .did t r x :: past⟩ ∧
        Onward D ⟨s, past⟩ ⟨s.setNode t.node ((s.nodes t.node).exec ev), .did t r x :: past⟩ :=
    fun hev hreg hdel => ⟨(h.did hev).setNode hD hreg hdel,
      onward_did hev le_rfl (grows_setNode hD hreg hdel)⟩
  have hsame : ∀ {r : NodeReq} {x : r.Resp}, Quiet (.did t r x) →
      Sound D ⟨s, .did t r x :: past⟩ ∧ Onward D ⟨s, past⟩ ⟨s, .did t r x :: past⟩ :=
    fun hev => ⟨h.did hev, onward_did hev le_rfl (grows_of_nodes rfl)⟩
  have hlate : ∀ {r : NodeReq} {x : r.Resp} {m : Message}, Quiet (.did t r x) →
      (D.Directed → Warranted D s m) →
      Sound D ⟨{ s with late := m :: s.late }, .did t r x :: past⟩ ∧
        Onward D ⟨s, past⟩ ⟨{ s with late := m :: s.late }, .did t r x :: past⟩ :=
    fun hev hm => ⟨(h.did hev).addLate hm, onward_did hev le_rfl (grows_of_nodes rfl)⟩
  cases hdoes with
  | register r env =>
    rw [state_register]
    refine hcall trivial (fun r' hr' => ?_) (by simp)
    cases hr'
    exact hfine
  | restore oid tier env =>
    rw [state_restore]
    exact hcall trivial (by simp) (by simp)
  | getMeta => exact hsame trivial
  | answered m now =>
    have hev : Quiet (.did t (.coordinator m) (.ok (s.reply now m).head?)) := trivial
    exact ⟨(h.did hev).deliver hfine now, onward_did hev le_rfl (grows_of_nodes rfl)⟩
  | closed | failed => exact hsame trivial
  | closedLate | failedLate => exact hlate trivial hfine
  | notified => exact hlate trivial hfine
  | notifyLost => exact hsame trivial
  | sent a m =>
    refine ⟨h.sent hfine, List.suffix_cons _ _, Nat.le_succ _, fun conn a' m' hasked hlt => ?_,
      grows_of_nodes rfl⟩
    obtain ⟨t', ht'⟩ := hasked
    rcases List.mem_cons.mp ht' with heq | ht'
    · cases heq
      exact absurd hlt (lt_irrefl _)
    · exact ⟨t', ht'⟩
  | sendFailed | received | receiveClosed | receiveFailed => exact hsame trivial

variable (D) in
/-- A task works on the request of its connection, if one was sent on it. -/
structure AtWork (t : Task) (c : Moment) : Prop where
  fresh : t.conn < c.now.fresh
  asked : ∀ a m, Asked c.past t.conn a m → a = D.addr t.node ∧ m = t.msg

lemma AtWork.onward (h : AtWork D t c) (honward : Onward D c c') : AtWork D t c' :=
  ⟨h.fresh.trans_le honward.fresh, fun a m hasked => h.asked a m (honward.asked _ a m hasked h.fresh)⟩

/-- A task comes to its end. -/
lemma Sound.finish (h : Sound D ⟨s, past⟩) (htask : AtWork D t ⟨s, past⟩) {rs : List Message}
    (hright : Right D t.node s t.msg rs) :
    Sound D ⟨{ s with replies := (t.conn, rs) :: s.replies }, .finished t rs :: past⟩ ∧
      Onward D ⟨s, past⟩
        ⟨{ s with replies := (t.conn, rs) :: s.replies }, .finished t rs :: past⟩ := by
  have hev : Quiet (.finished t rs) := trivial
  have hasked : ∀ {conn a m}, Asked (.finished t rs :: past) conn a m → Asked past conn a m :=
    (asked_cons hev).mp
  refine ⟨⟨h.caches, fun conn a m hc => h.fresh _ _ _ (hasked hc), fun conn a m a' m' hc hc' =>
    h.unique _ _ _ _ _ (hasked hc) (hasked hc'), fun p hp => (h.calls p hp).later
    (List.suffix_cons _ _), fun conn a m hc => h.carried _ _ _ (hasked hc), fun p hp => ?_,
    fun p hp a m hc => ?_, fun t' rs' hfin => ?_, h.named, h.owners, h.late⟩,
    List.suffix_cons _ _, le_rfl, fun _ _ _ hc _ => hasked hc, fun _ _ hr => hr⟩
  · rcases List.mem_cons.mp hp with rfl | hp
    · exact htask.fresh
    · exact h.replied p hp
  · rcases List.mem_cons.mp hp with rfl | hp
    · obtain ⟨rfl, rfl⟩ := htask.asked a m (hasked hc)
      exact ⟨t.node, rfl, hright⟩
    · exact h.replies p hp a m (hasked hc)
  · rcases List.mem_cons.mp hfin with heq | hfin
    · cases heq
      exact hright
    · exact h.finished t' rs' hfin

/-- A client's connection is a new one. -/
lemma Sound.accept (h : Sound D ⟨s, past⟩) (node : Str) (m : Message) :
    Sound D ⟨{ s with fresh := s.fresh + 1 }, past⟩ ∧
      Onward D ⟨s, past⟩ ⟨{ s with fresh := s.fresh + 1 }, past⟩ ∧
      AtWork D ⟨s.fresh, node, m⟩ ⟨{ s with fresh := s.fresh + 1 }, past⟩ := by
  refine ⟨h.congr h.caches (grows_of_nodes rfl) rfl (Nat.le_succ _) (fun _ hp => hp) rfl
    fun _ _ hm => .inl hm, ⟨List.suffix_rfl, Nat.le_succ _, fun _ _ _ hc _ => hc, fun _ _ hr => hr⟩,
    Nat.lt_succ_self _, fun a m hasked => ?_⟩
  exact absurd (h.fresh _ _ _ hasked) (lt_irrefl _)

/-- A request reaches the node at its address. -/
lemma Sound.acceptCall (h : Sound D ⟨s, past⟩) {l l' : List (ℕ × Str × Message)} {conn : ℕ}
    {node : Str} (hcalls : s.calls = l ++ (conn, D.addr node, m) :: l') :
    Sound D ⟨{ s with calls := l ++ l' }, past⟩ ∧
      Onward D ⟨s, past⟩ ⟨{ s with calls := l ++ l' }, past⟩ ∧
      AtWork D ⟨conn, node, m⟩ ⟨{ s with calls := l ++ l' }, past⟩ ∧ Carried D m := by
  have hmem : (conn, D.addr node, m) ∈ s.calls := by
    rw [hcalls]
    simp
  have hasked : Asked past conn (D.addr node) m := h.calls _ hmem
  refine ⟨h.congr h.caches (grows_of_nodes rfl) rfl le_rfl (fun p hp => ?_) rfl
    fun _ _ hm => .inl hm, ⟨List.suffix_rfl, le_rfl, fun _ _ _ hc _ => hc, fun _ _ hr => hr⟩,
    ⟨h.fresh _ _ _ hasked, fun a m' hasked' => h.unique _ _ _ _ _ hasked hasked'⟩,
    h.carried _ _ _ hasked⟩
  rw [hcalls]
  simp only [List.mem_append, List.mem_cons] at hp ⊢
  tauto

/-- The messages of clients may be carried out. -/
lemma carried_client (hm : D.traffic.client m) : Carried D m := by
  cases m with
  | store nameSpace key generation data crc compat source =>
    intro r haddress hk hpayload hcrc
    refine ⟨r, ⟨source, ?_⟩, .refl _⟩
    have hcompat : (⟨r.compat.encode, r.compat_small⟩ : Blob) = compat := by
      cases compat
      congr 1
      exact (encode_of_decodeKey hk).symm
    have hdata : (⟨r.payload, r.payload_small⟩ : Blob) = data := by
      cases data
      congr 1
    rw [storeMessage, hcompat, hdata, hpayload, ← hcrc, haddress]
    exact hm
  | migrate => exact fun hdirected => hdirected.target _ _ _ _ hm
  | _ => trivial

/-- The state moves by itself. -/
lemma Sound.move (hD : D.Tame) (h : Sound D ⟨s, past⟩) (hmove : Moves D.traffic s s') :
    Sound D ⟨s', past⟩ ∧ Onward D ⟨s, past⟩ ⟨s', past⟩ := by
  cases hmove with
  | late l l' m now hlate =>
    have hmem : m ∈ s.late := by
      rw [hlate]
      simp
    have htaken : Sound D ⟨{ s with late := l ++ l' }, past⟩ := by
      refine h.congr h.caches (grows_of_nodes rfl) rfl le_rfl (fun _ hp => hp) rfl
        fun _ m' hm' => .inl ?_
      rw [hlate]
      simp only [List.mem_append, List.mem_cons] at hm' ⊢
      tauto
    exact ⟨htaken.deliver (fun hdirected => h.late hdirected m hmem) now, List.suffix_rfl, le_rfl,
      fun _ _ _ hc _ => hc, fun _ _ hr => hr⟩
  | direct m now hm =>
    refine ⟨h.deliver (fun hdirected => ?_) now, List.suffix_rfl, le_rfl, fun _ _ _ hc _ => hc,
      fun _ _ hr => hr⟩
    obtain ⟨hcreate, hack⟩ := hdirected.direct m hm
    cases m with
    | create => exact absurd rfl hcreate
    | migrateAck => exact absurd rfl hack
    | _ => trivial
  | called node ev hev =>
    obtain ⟨hdel, hreg⟩ := hD.calls ev hev
    have hreg' : ∀ r, ev.call = .register r → r ∈ D.scope.registered :=
      fun r hr => absurd hr (hreg r)
    exact ⟨h.setNode hD hreg' hdel, List.suffix_rfl, le_rfl, fun _ _ _ hc _ => hc,
      grows_setNode hD hreg' hdel⟩

end Cluster

end TensorCache
