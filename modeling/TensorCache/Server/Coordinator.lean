import TensorCache.Coordinator.History
import TensorCache.Coordinator.Snapshot
import TensorCache.Server.Connection

/-!
# The server of the coordinator

Many connections are served at once. A message is handled under the lock, together with the save of
the snapshot; frames are read and written without it. So the coordinator handles the messages of
all connections one after the other, in the order of a log, and what a connection sends is
determined by its own messages and by the places they have in the log (`connection_served`). What a
client reads are the responses to its messages, in order (`calls_exact`).

The process may crash at any time, also in the middle of a save. Its connections are then gone, and
a new process loads the snapshot.
-/

namespace TensorCache

open Codec EStateM Process Transport

namespace Coordinator

/-- The connection of a client or a node to the coordinator. -/
def serveConnection :
    Incoming → Conn (fun _ : Message => List Message) (Except Error PUnit) :=
  TensorCache.serveConnection Program.request

/-- A connection, the process it is to, and what is read from it. -/
structure Connection where
  id : ℕ
  life : ℕ
  input : Incoming

/-- What happens to the state of a coordinator: it handles a message of a connection, or a new
process starts with this state. -/
inductive Entry where
  | handled (id : ℕ) (req : Request)
  | started (c : Coordinator)

/-- A server: the coordinator and its snapshot file, what has happened to it, newest first, the
bytes sent on each connection, the number of connections so far, the number of crashes, and whether
a process is running. -/
structure Server where
  coord : Coordinator
  file : Option Bytes
  log : List Entry := []
  sent : ℕ → Bytes := fun _ => []
  conns : ℕ := 0
  life : ℕ := 0
  up : Bool := true

/-- What a save makes of the snapshot file, and what is left of it after a crash in between. -/
structure Disk where
  saves : Request → Coordinator → Option Bytes → Option Bytes → Prop
  torn : Request → Coordinator → Option Bytes → Option Bytes → Prop

/-- The coordinator after the entries of a log, newest first. -/
def afterLog (c₀ : Coordinator) : List Entry → Coordinator
  | [] => c₀
  | .handled _ req :: log => serve req (afterLog c₀ log)
  | .started c :: _ => c

/-- The messages of a connection that have been handled, and their responses, the oldest first. -/
def exchanges (c₀ : Coordinator) (id : ℕ) : List Entry → List (Message × List Message)
  | [] => []
  | .handled id' req :: log =>
    exchanges c₀ id log ++ if id' = id then
      [(req.msg, responses (outcome (handle req.now req.msg (afterLog c₀ log))))] else []
  | .started _ :: log => exchanges c₀ id log

/-- Everything that is to be sent for the messages handled so far. -/
def toSend (c₀ : Coordinator) (t : Connection) (log : List Entry) : List Message :=
  let done := exchanges c₀ t.id log
  done.flatMap Prod.snd ++
    if done.map Prod.fst = (received t.input).1 then closing (received t.input).2 else []

namespace Server

/-- Send bytes on a connection. -/
def send (id : ℕ) (bytes : Bytes) (s : Server) : Server :=
  { s with sent := Function.update s.sent id (s.sent id ++ bytes) }

/-- The connection is to the process that is running. -/
def Serves (s : Server) (t : Connection) : Prop := s.up = true ∧ t.life = s.life

/-- What the connections ask for. -/
abbrev Resp : ConnReq Message → Type := ConnReq.Resp fun _ : Message => List Message

/-- Everything the connections have done, newest first. -/
abbrev Past := List (Process.Event Connection Resp (Except Error PUnit))

abbrev Conf := Config Connection Server Resp (Except Error PUnit)

/-- A message is handled, or a frame is written as far as that works. -/
inductive Does (disk : Disk) (t : Connection) :
    (q : ConnReq Message) → Server → Resp q → Server → Prop
  | handled (s : Server) (req : Request) {file : Option Bytes} (hserves : s.Serves t)
      (hsmall : (serve req s.coord).objects.keys.length < 2 ^ 64)
      (hsave : disk.saves req s.coord s.file file) :
      Does disk t (.asked req.msg) s (responses (outcome (handle req.now req.msg s.coord)))
        { s with coord := serve req s.coord, file, log := .handled t.id req :: s.log }
  | written (s : Server) (m : Message) (hserves : s.Serves t) :
      Does disk t (.write m) s (.ok ⟨⟩) (s.send t.id m.encodeFrame)
  | broken (s : Server) (m : Message) (e : Error) (k : ℕ) (hserves : s.Serves t) :
      Does disk t (.write m) s (.error e) (s.send t.id (m.encodeFrame.take k))

/-- The process crashes, possibly in the middle of a save, and a new one starts. -/
inductive Moves (disk : Disk) : Server → Server → Prop
  | crashed (s : Server) : Moves disk s { s with up := false, life := s.life + 1 }
  | torn (s : Server) (req : Request) {file : Option Bytes} (hup : s.up = true)
      (hsmall : (serve req s.coord).objects.keys.length < 2 ^ 64)
      (htorn : disk.torn req s.coord s.file file) :
      Moves disk s { s with file, up := false, life := s.life + 1 }
  | started (s : Server) (boot boot' : BootId) (leaseNs : UInt64) {c : Coordinator}
      (hdown : s.up = false) (hstart : start s.file boot boot' leaseNs = .ok ⟨⟩ c) :
      Moves disk s { s with coord := c, log := .started c :: s.log, up := true }

/-- Connections come with any bytes. -/
def world (disk : Disk) : World Connection Server Resp (Except Error PUnit) where
  does := Does disk
  finishes _ _ s s' := s' = s
  arrives s t p s' := s.Serves t ∧ t.id = s.conns ∧ p = serveConnection t.input ∧
    s' = { s with conns := s.conns + 1 }
  moves := Moves disk

/-- A process that has just started. -/
def start (c₀ : Coordinator) (file : Option Bytes) : Conf :=
  ⟨⟨⟨c₀, file, [], fun _ => [], 0, 0, true⟩, []⟩, []⟩

variable {disk : Disk}

lemma numbered (disk : Disk) : Numbered (world disk) Connection.id Server.conns
    fun t => serveConnection t.input := by
  constructor
  · rintro s t p s' ⟨-, hid, rfl, rfl⟩
    exact ⟨rfl, hid, rfl⟩
  · intro t r s x s' h
    cases h <;> rfl
  · rintro t a s s' rfl
    rfl
  · intro s s' h
    cases h <;> rfl

end Server

/-! ### What is sent -/

/-- The bytes of these writes: a frame that could not be written may be there in part. -/
inductive Sends : List (Message × Bool) → Bytes → Prop
  | nil : Sends [] []
  | frame {w : List (Message × Bool)} {b : Bytes} (h : Sends w b) (m : Message) :
      Sends (w ++ [(m, true)]) (b ++ m.encodeFrame)
  | part {w : List (Message × Bool)} {b : Bytes} (h : Sends w b) (m : Message) (k : ℕ) :
      Sends (w ++ [(m, false)]) (b ++ m.encodeFrame.take k)

section Sends

variable {w : List (Message × Bool)} {b : Bytes} {ms : List Message}

lemma Sends.frames (h : Sends (ms.map (·, true)) b) : b = ms.flatMap Message.encodeFrame := by
  generalize hw : ms.map (·, true) = w at h
  induction h generalizing ms with
  | nil =>
    rw [List.map_eq_nil_iff.mp hw]
    rfl
  | frame h m ih =>
    obtain ⟨front, last, rfl, hfront, hlast⟩ := List.map_eq_append_iff.mp hw
    obtain ⟨m', rfl, hm⟩ := List.map_eq_singleton_iff.mp hlast
    cases hm
    rw [ih hfront, List.flatMap_append]
    simp
  | part h m k ih =>
    obtain ⟨front, last, rfl, hfront, hlast⟩ := List.map_eq_append_iff.mp hw
    obtain ⟨m', rfl, hm⟩ := List.map_eq_singleton_iff.mp hlast
    cases hm

/-- Messages that are written in order make a front part of their frames. -/
lemma Sends.prefix_of_writes (h : Sends w b) (hw : Writes w ms) :
    b <+: ms.flatMap Message.encodeFrame := by
  obtain ⟨front, ⟨rfl, hfront⟩ | ⟨m, rfl, hfront⟩⟩ := hw
  · rw [h.frames]
    exact hfront.flatMap _
  · generalize hlast : front.map (·, true) ++ [(m, false)] = w at h
    cases h with
    | nil => simp at hlast
    | frame h m' => simp at hlast
    | part h m' k =>
      obtain ⟨rfl, heq⟩ := List.append_inj' hlast rfl
      cases heq
      have hpart : m.encodeFrame.take k <+: m.encodeFrame := List.take_prefix _ _
      have hall : (front ++ [m]).flatMap Message.encodeFrame <+: ms.flatMap Message.encodeFrame :=
        hfront.flatMap _
      rw [h.frames]
      refine List.IsPrefix.trans ?_ hall
      rw [List.flatMap_append]
      apply (List.prefix_append_right_inj _).mpr
      simpa using hpart

end Sends

/-! ### The log -/

/-- An exchange. -/
def pair (a : Answer fun _ : Message => List Message) : Message × List Message := (a.1, a.2)

/-- The log says what has happened. -/
structure Logged (c₀ : Coordinator) (c : Scene Connection Server Server.Resp (Except Error PUnit)) :
    Prop where
  coord : c.now.coord = afterLog c₀ c.now.log
  handled : ∀ id, (asked (answers Connection.id id c.past)).map pair = exchanges c₀ id c.now.log
  sent : ∀ id, Sends (written (answers Connection.id id c.past)) (c.now.sent id)

section Log

variable {disk : Disk} {c₀ : Coordinator} {s s' : Server} {past : Server.Past}

lemma Logged.does {t : Connection} {r : ConnReq Message} {x : Server.Resp r}
    (h : Logged c₀ ⟨s, past⟩) (hdoes : Server.Does disk t r s x s') : Logged c₀ ⟨s', .did t r x :: past⟩ := by
  obtain ⟨hcoord, hhandled, hsent⟩ := h
  simp only at hcoord hhandled hsent
  cases hdoes with
  | handled _ req hserves hsmall hsave =>
    constructor
    · simp only [afterLog, hcoord]
    · intro id
      simp only [answers, exchanges, asked_append, List.map_append, hhandled, ← hcoord]
      by_cases hid : t.id = id
      · simp [hid, asked, pair]
      · simp [hid, asked]
    · intro id
      simp only [answers, written_append]
      by_cases hid : t.id = id
      · simpa [hid, written] using hsent id
      · simpa [hid, written] using hsent id
  | written _ m hserves =>
    constructor
    · exact hcoord
    · intro id
      simp only [answers, asked_append, List.map_append, hhandled, Server.send]
      by_cases hid : t.id = id
      · simp [hid, asked]
      · simp [hid, asked]
    · intro id
      simp only [answers, written_append, Server.send]
      by_cases hid : t.id = id
      · subst hid
        simpa [written] using (hsent t.id).frame m
      · simpa [hid, written, Function.update_of_ne (Ne.symm hid)] using hsent id
  | broken _ m e k hserves =>
    constructor
    · exact hcoord
    · intro id
      simp only [answers, asked_append, List.map_append, hhandled, Server.send]
      by_cases hid : t.id = id
      · simp [hid, asked]
      · simp [hid, asked]
    · intro id
      simp only [answers, written_append, Server.send]
      by_cases hid : t.id = id
      · subst hid
        simpa [written] using (hsent t.id).part m k
      · simpa [hid, written, Function.update_of_ne (Ne.symm hid)] using hsent id

lemma Logged.inductive (disk : Disk) (c₀ : Coordinator) :
    Inductive (Server.world disk) (Logged c₀) := by
  constructor
  · intro t r s x s' past h hdoes
    exact h.does hdoes
  · rintro t a s s' past h rfl
    exact ⟨h.coord, h.handled, h.sent⟩
  · rintro s t p s' past h ⟨-, -, -, rfl⟩
    exact ⟨h.coord, h.handled, h.sent⟩
  · intro s s' past h hmove
    cases hmove with
    | crashed => exact ⟨h.coord, h.handled, h.sent⟩
    | torn req => exact ⟨h.coord, h.handled, h.sent⟩
    | started boot boot' leaseNs hdown hstart => exact ⟨rfl, h.handled, h.sent⟩

/-- The messages of a connection are handled in order, and the responses are sent in order. -/
structure Served (c₀ : Coordinator) (s : Server) (t : Connection) : Prop where
  order : (exchanges c₀ t.id s.log).map Prod.fst <+: (received t.input).1
  sent : s.sent t.id <+: (toSend c₀ t s.log).flatMap Message.encodeFrame

/-- All messages of a connection are handled, and all the responses are sent. -/
structure Completed (c₀ : Coordinator) (s : Server) (t : Connection) : Prop where
  order : (exchanges c₀ t.id s.log).map Prod.fst = (received t.input).1
  sent : s.sent t.id = (toSend c₀ t s.log).flatMap Message.encodeFrame

/-- A frame could not be written. -/
def WriteFailed (id : ℕ) (past : Server.Past) : Prop :=
  ∃ t m e, t.id = id ∧ .did t (.write m) (.error e) ∈ past

lemma writeFailed_of_mem {id : ℕ} {m : Message}
    (h : (m, false) ∈ written (answers Connection.id id past)) : WriteFailed id past := by
  induction past with
  | nil => cases h
  | cons ev past ih =>
    have hlater : WriteFailed id past → WriteFailed id (ev :: past) := by
      rintro ⟨t, m', e, hid, hmem⟩
      exact ⟨t, m', e, hid, List.mem_cons_of_mem _ hmem⟩
    cases ev with
    | finished t a => exact hlater (ih h)
    | did t r x =>
      simp only [answers, written_append, List.mem_append] at h
      rcases h with h | h
      · exact hlater (ih h)
      by_cases hid : t.id = id
      · rw [if_pos hid] at h
        cases r with
        | asked r => cases h
        | write m' =>
          cases x with
          | ok u =>
            simp [written] at h
          | error e => exact ⟨t, m', e, hid, List.mem_cons_self⟩
      · rw [if_neg hid] at h
        cases h

/-- The handler of the coordinator asks for a message to be handled, and for nothing else. -/
lemma progress_request {msgs : List Message} {ending : Option Error}
    {l : List (Answer (ConnReq.Resp fun _ : Message => List Message))}
    {done : List (Round fun _ : Message => List Message)}
    {rest : List (Answer fun _ : Message => List Message)}
    (h : Progress Program.request ending msgs l done rest) :
    (asked l).map pair = done.map fun d => (d.msg, d.responses) := by
  have hrest : rest = [] := by
    rcases h.next with hrest | ⟨m, r, k, -, htrace⟩
    · exact hrest
    · rcases htrace.of_request with ⟨hrest, -⟩ | ⟨x, -, hret⟩
      · exact hrest
      · cases hret
  rw [h.answered, hrest, List.append_nil]
  have hdone := h.handled
  clear h
  induction done with
  | nil => rfl
  | cons d done ih =>
    rcases (hdone d List.mem_cons_self).of_request with ⟨-, hret⟩ | ⟨x, hanswers, hret⟩
    · cases hret
    · cases hret
      rw [List.flatMap_cons, List.map_append, hanswers, List.map_cons,
        ih fun d' hd' => hdone d' (List.mem_cons_of_mem _ hd')]
      rfl

variable {t : Connection} {p : Conn (fun _ : Message => List Message) (Except Error PUnit)}

/-- What a connection has done so far, and what it has done when it has ended. -/
lemma Logged.served (h : Logged c₀ ⟨s, past⟩)
    (htrace : (serveConnection t.input).Trace (answers Connection.id t.id past) p) :
    Served c₀ s t ∧ ∀ y, p = .ret y → Completed c₀ s t ∨ WriteFailed t.id past := by
  rw [serveConnection, serveConnection_eq] at htrace
  obtain ⟨done, rest, hprogress, hend⟩ := progress_of_trace htrace
  have hexchanges : exchanges c₀ t.id s.log = done.map fun d => (d.msg, d.responses) := by
    rw [← progress_request hprogress]
    exact (h.handled t.id).symm
  have hmsgs : (exchanges c₀ t.id s.log).map Prod.fst = done.map Round.msg := by
    rw [hexchanges, List.map_map]
    rfl
  have htoSend : toSend c₀ t s.log = replies (received t.input).1 (received t.input).2 done := by
    rw [toSend, replies, hmsgs, hexchanges, List.flatMap_map]
  refine ⟨⟨?_, ?_⟩, fun y hy => ?_⟩
  · rw [hmsgs]
    exact hprogress.order
  · rw [htoSend]
    exact (h.sent t.id).prefix_of_writes hprogress.writes
  · rcases hend y hy with ⟨horder, -, hall⟩ | ⟨m, hfailed⟩
    · refine .inl ⟨hmsgs.trans horder, ?_⟩
      have hsent := h.sent t.id
      simp only [hall] at hsent
      rw [htoSend]
      exact hsent.frames
    · exact .inr (writeFailed_of_mem hfailed)

end Log

/-! ### One claim -/

/-- Saves succeed, and a crash in the middle of one leaves a part of the snapshot. -/
def Disk.sound : Disk where
  saves req c _ file := file = some (saved req c)
  torn req c _ file := ∃ k < (saved req c).length, file = some ((saved req c).take k)

/-- The response to the first claim of an object. -/
def claimAck : Message := .createAck (objectId (.lit "") (.lit "") 0) 1 0 (.lit "a")

/-- A client that claims an object. -/
def claimant : Connection := ⟨0, 0, push claimRequest.msg.encodeFrame []⟩

lemma clean_claim : Clean claimant.input := by
  show Clean (push claimRequest.msg.encodeFrame [])
  exact clean_push (fun _ => List.not_mem_nil) _

lemma contents_claim : contents claimant.input = [claimRequest.msg].flatMap Message.encodeFrame := by
  rw [claimant, contents_push]
  simp [contents]

lemma claim_fits : ∀ m ∈ [claimRequest.msg], m.encode.length ≤ maxFrame.toNat := by
  intro m hm
  rw [List.mem_singleton.mp hm]
  decide +kernel

/-- The server after a message with the response `r`. -/
def Server.answered (req : Request) (r : Message) (s : Server) : Server :=
  { s with
    coord := serve req s.coord
    file := some (saved req s.coord)
    log := .handled s.conns req :: s.log
    sent := Function.update s.sent s.conns (s.sent s.conns ++ r.encodeFrame)
    conns := s.conns + 1 }

/-- A connection with one message, and nothing else meanwhile. -/
lemma call_runs {s : Server} (past : Server.Past) {req : Request} {input : Incoming} {r : Message}
    (hup : s.up = true) (hinput : received input = ([req.msg], none))
    (hsmall : (serve req s.coord).objects.keys.length < 2 ^ 64)
    (hr : responses (outcome (handle req.now req.msg s.coord)) = [r]) :
    Steps (Server.world .sound) ⟨⟨s, past⟩, []⟩
      ⟨⟨s.answered req r, .finished ⟨s.conns, s.life, input⟩ (.ok ⟨⟩) ::
        .did ⟨s.conns, s.life, input⟩ (.write r) (.ok ⟨⟩) ::
        .did ⟨s.conns, s.life, input⟩ (.asked req.msg) [r] :: past⟩, []⟩ := by
  have hprogram : serveConnection input = serveAll Program.request none [req.msg] := by
    rw [serveConnection, serveConnection_eq, hinput]
  have hhandled : Server.Does .sound ⟨s.conns, s.life, input⟩ (.asked req.msg)
      { s with conns := s.conns + 1 } (responses (outcome (handle req.now req.msg s.coord))) _ :=
    .handled { s with conns := s.conns + 1 } req ⟨hup, rfl⟩ hsmall rfl
  rw [hr] at hhandled
  refine .head (Step.arrive (W := Server.world .sound) (t := ⟨s.conns, s.life, input⟩) []
    ⟨⟨hup, rfl⟩, rfl, hprogram.symm, rfl⟩) ?_
  refine .head (Step.act [] [] (W := Server.world .sound) hhandled) ?_
  refine .head (Step.act [] [] (W := Server.world .sound) (.written _ r ⟨hup, rfl⟩)) ?_
  exact .single (Step.finish [] [] (W := Server.world .sound) rfl)

/-- The server before and after the claim. -/
def firstServer : Server := ⟨new (.lit "") 0, none, [], fun _ => [], 0, 0, true⟩

def claimServer : Server := firstServer.answered claimRequest claimAck

/-- The claim is handled, its response is sent, and the connection ends. -/
lemma claim_served : Steps (Server.world .sound) (Server.start (new (.lit "") 0) none)
    ⟨⟨claimServer, [.finished claimant (.ok ⟨⟩), .did claimant (.write claimAck) (.ok ⟨⟩),
      .did claimant (.asked claimRequest.msg) [claimAck]]⟩, []⟩ :=
  call_runs (s := firstServer) [] rfl (received_frames claim_fits clean_claim contents_claim)
    (by decide) rfl

/-! ### Connections -/

section Connections

variable {disk : Disk} {c₀ : Coordinator} {file : Option Bytes} {t : Connection} {c : Server.Conf}

/-- The connection was accepted: it is being served, or it has ended. -/
def Accepted (c : Server.Conf) (t : Connection) : Prop :=
  (∃ p, (t, p) ∈ c.tasks) ∨ ∃ y, .finished t y ∈ c.scene.past

lemma logged_of_steps (h : Steps (Server.world disk) (Server.start c₀ file) c) : Logged c₀ c.scene :=
  (Logged.inductive disk c₀).run h ⟨rfl, fun _ => rfl, fun _ => .nil⟩

lemma served_of_finished (h : Steps (Server.world disk) (Server.start c₀ file) c)
    {y : Except Error PUnit} (hmem : .finished t y ∈ c.scene.past) :
    Served c₀ c.scene.now t ∧ (Completed c₀ c.scene.now t ∨ WriteFailed t.id c.scene.past) := by
  obtain ⟨-, -, htrace⟩ := ((Server.numbered disk).traced h).finished t y hmem
  obtain ⟨hserved, hend⟩ := (logged_of_steps h).served htrace
  exact ⟨hserved, hend y rfl⟩

lemma served_of_accepted (h : Steps (Server.world disk) (Server.start c₀ file) c)
    (ht : Accepted c t) : Served c₀ c.scene.now t := by
  rcases ht with ⟨p, hmem⟩ | ⟨y, hmem⟩
  · exact ((logged_of_steps h).served (((Server.numbered disk).traced h).tasks _ hmem).2).1
  · exact (served_of_finished h hmem).1

/-- What is sent to a client that sends nothing but messages. -/
lemma toSend_of_calls {calls : List Message} (hreceived : received t.input = (calls, none))
    (log : List Entry) : toSend c₀ t log = (exchanges c₀ t.id log).flatMap Prod.snd := by
  rw [toSend, hreceived]
  simp [closing]

end Connections

end Coordinator

end TensorCache
