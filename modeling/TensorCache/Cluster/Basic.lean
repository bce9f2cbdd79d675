import TensorCache.Cluster.Node

/-!
# Nodes around a coordinator

Any number of nodes share one coordinator. A node works on many messages at once, one program for
each, and the programs of all nodes are interleaved. A request to the coordinator is handled in one
step, with its response; or it fails for the node and is lost, or is handled later. A request to
a peer starts a program on the node that listens at the address.
-/

namespace TensorCache

open Codec Process

/-- The work on one message: the connection it came on, the node and the message. -/
structure Task where
  conn : ℕ
  node : Str
  msg : Message

/-- What the coordinator did with a message. -/
abbrev Outcome := Except Error (List Message)

structure Cluster where
  coord : Coordinator
  /-- The cache of every node. -/
  nodes : Str → Runtime
  /-- Messages to the coordinator that nobody waits for any more. -/
  late : List Message
  /-- What the coordinator has handled, newest first. -/
  log : List (Message × Outcome)
  /-- Requests to peers on their way, each with its connection. -/
  calls : List (ℕ × Str × Message)
  /-- What peers have answered. -/
  replies : List (ℕ × List Message)
  /-- The next connection. -/
  fresh : ℕ

/-- What happens besides the programs of the nodes: the messages clients send to nodes, the
messages that reach the coordinator otherwise, and other calls of the caches. -/
structure Traffic where
  client : Message → Prop
  direct : Message → Prop
  calls : Runtime.Event → Prop

namespace Cluster

/-- The coordinator handles a message. -/
def deliver (now : UInt64) (m : Message) (s : Cluster) : Cluster :=
  { s with
    coord := (s.coord.handle now m).state
    log := (m, outcome (s.coord.handle now m)) :: s.log }

/-- What the coordinator's server answers. -/
def reply (now : UInt64) (m : Message) (s : Cluster) : List Message :=
  responses (outcome (s.coord.handle now m))

def setNode (node : Str) (tc : Runtime) (s : Cluster) : Cluster :=
  { s with nodes := Function.update s.nodes node tc }

/-- How the questions of a program are answered. -/
inductive Does (t : Task) : (r : NodeReq) → Cluster → r.Resp → Cluster → Prop
  | register (r : Registration) (env : Env) (s : Cluster) :
      Does t (.register r) s (outcome (Runtime.register env r (s.nodes t.node).beginCall))
        (s.setNode t.node (Runtime.register env r (s.nodes t.node).beginCall).state)
  | getMeta (oid : ObjectId) (s : Cluster) :
      Does t (.getMeta oid) s ((s.nodes t.node).getMeta oid) s
  | restore (oid : ObjectId) (tier : Tier) (env : Env) (s : Cluster) :
      Does t (.restore oid tier) s (outcome (Runtime.restore env oid tier (s.nodes t.node).beginCall))
        (s.setNode t.node (Runtime.restore env oid tier (s.nodes t.node).beginCall).state)
  | answered (m : Message) (now : UInt64) (s : Cluster) :
      Does t (.coordinator m) s (.ok (s.reply now m).head?) (s.deliver now m)
  | closed (m : Message) (s : Cluster) : Does t (.coordinator m) s (.ok none) s
  | closedLate (m : Message) (s : Cluster) :
      Does t (.coordinator m) s (.ok none) { s with late := m :: s.late }
  | failed (m : Message) (e : Error) (s : Cluster) : Does t (.coordinator m) s (.error e) s
  | failedLate (m : Message) (e : Error) (s : Cluster) :
      Does t (.coordinator m) s (.error e) { s with late := m :: s.late }
  | notified (m : Message) (x : Except Error PUnit) (s : Cluster) :
      Does t (.notify m) s x { s with late := m :: s.late }
  | notifyLost (m : Message) (x : Except Error PUnit) (s : Cluster) : Does t (.notify m) s x s
  | sent (addr : Str) (m : Message) (s : Cluster) :
      Does t (.send addr m) s (.ok s.fresh)
        { s with calls := (s.fresh, addr, m) :: s.calls, fresh := s.fresh + 1 }
  | sendFailed (addr : Str) (m : Message) (e : Error) (s : Cluster) :
      Does t (.send addr m) s (.error e) s
  | received (conn : ℕ) (rs : List Message) (s : Cluster) (h : (conn, rs) ∈ s.replies) :
      Does t (.receive conn) s (.ok rs.head?) s
  | receiveClosed (conn : ℕ) (s : Cluster) : Does t (.receive conn) s (.ok none) s
  | receiveFailed (conn : ℕ) (e : Error) (s : Cluster) : Does t (.receive conn) s (.error e) s

/-- Everything the programs of the nodes have done, newest first. -/
abbrev Past := List (Process.Event Task NodeReq.Resp (List Message))

variable (T : Traffic) (addr : Str → Str)

/-- How work arrives: from a client, or from a peer. -/
inductive Arrives : Cluster → Task → Program NodeReq.Resp (List Message) → Cluster → Prop
  | client (s : Cluster) (node : Str) (m : Message) (h : T.client m) :
      Arrives s ⟨s.fresh, node, m⟩ (Node.serve ⟨node, addr node⟩ m) { s with fresh := s.fresh + 1 }
  | peer (s : Cluster) (l l' : List (ℕ × Str × Message)) (conn : ℕ) (node : Str) (m : Message)
      (h : s.calls = l ++ (conn, addr node, m) :: l') :
      Arrives s ⟨conn, node, m⟩ (Node.serve ⟨node, addr node⟩ m) { s with calls := l ++ l' }

/-- How the state moves by itself. -/
inductive Moves : Cluster → Cluster → Prop
  | late (s : Cluster) (l l' : List Message) (m : Message) (now : UInt64)
      (h : s.late = l ++ m :: l') : Moves s ({ s with late := l ++ l' }.deliver now m)
  | direct (s : Cluster) (m : Message) (now : UInt64) (h : T.direct m) : Moves s (s.deliver now m)
  | called (s : Cluster) (node : Str) (ev : Runtime.Event) (h : T.calls ev) :
      Moves s (s.setNode node ((s.nodes node).exec ev))

/-- The world of the programs of the nodes. -/
def world : World Task Cluster NodeReq.Resp (List Message) where
  does t := Does t
  finishes t rs s s' := s' = { s with replies := (t.conn, rs) :: s.replies }
  arrives := Arrives T addr
  moves := Moves T

/-- A new coordinator, and nodes with any caches. -/
def start (boot : BootId) (leaseNs : UInt64) (nodes : Str → Runtime) :
    Config Task Cluster NodeReq.Resp (List Message) where
  scene := ⟨⟨Coordinator.new boot leaseNs, nodes, [], [], [], [], 0⟩, []⟩
  tasks := []

end Cluster

end TensorCache
