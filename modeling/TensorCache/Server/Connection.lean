import TensorCache.Cluster.Node
import TensorCache.Lib.Trace
import TensorCache.Protocol.Frame

/-!
# A connection to a server

The servers of the coordinator and of the nodes work in the same way. A connection is read frame
by frame; every message is handled and its responses are written before the next frame is read. A
frame that cannot be read ends the connection, and so does a body that cannot be decoded, after one
error message.

What a connection does depends on the bytes of the client only, and not on the pieces they come in
(`serveConnection_congr`). At every moment it has handled a front part of the messages in the
stream, and it has written a front part of the responses to them (`progress_of_trace`).
-/

namespace TensorCache

open Codec Process Transport

/-! ### Frames leave the stream -/

lemma weight_readPayload {head payload : Bytes} {s s' : Incoming} {t : MsgType}
    (h : readPayload head s = .ok (some (t, payload), s')) : weight s' ≤ weight s := by
  unfold readPayload at h
  by_cases hmagic : headU32 head 0 ≠ frameMagic
  · rw [if_pos hmagic] at h
    cases h
  rw [if_neg hmagic] at h
  by_cases hversion : head.getD 4 0 ≠ frameVersion
  · rw [if_pos hversion] at h
    cases h
  rw [if_neg hversion] at h
  obtain ⟨t', -, h⟩ := except_bind_eq_ok h
  by_cases hlarge : headU32 head 6 > maxFrame
  · simp only [if_pos hlarge] at h
    cases h
  simp only [if_neg hlarge] at h
  obtain ⟨⟨p, s₁⟩, hread, h⟩ := except_bind_eq_ok h
  dsimp only at h
  split_ifs at h with hcrc
  cases h
  rcases weight_fill (fun _ _ heq => by cases heq) hread with ⟨-, hle⟩ | hlt
  · exact hle
  · exact hlt.le

/-- A frame that is read makes the stream smaller. -/
lemma weight_readFrame {s s' : Incoming} {t : MsgType} {payload : Bytes}
    (h : readFrame s = .ok (some (t, payload), s')) : weight s' < weight s := by
  unfold readFrame at h
  obtain ⟨⟨head, s₁⟩, hhead, h⟩ := except_bind_eq_ok h
  dsimp only at h
  by_cases hempty : head.length = 0
  · rw [if_pos hempty] at h
    cases h
  rw [if_neg hempty] at h
  by_cases hshort : head.length < headerLen
  · rw [if_pos hshort] at h
    cases h
  rw [if_neg hshort] at h
  -- the header is not empty, so the stream is smaller behind it
  have hless : weight s₁ < weight s := by
    rcases weight_fill (fun _ _ heq => (Except.ok.inj heq).symm) hhead with ⟨rfl, -⟩ | hlt
    · exact absurd List.length_nil hempty
    · exact hlt
  exact lt_of_le_of_lt (weight_readPayload h) hless

/-! ### The loop -/

/-- What a connection asks for: what the handler of its messages asks for, and that a frame is
written. -/
inductive ConnReq (Req : Type) where
  | asked (r : Req)
  | write (m : Message)

abbrev ConnReq.Resp {Req : Type} (R : Req → Type) : ConnReq Req → Type
  | asked r => R r
  | write _ => Except Error PUnit

abbrev Conn {Req : Type} (R : Req → Type) (α : Type) := Program (ConnReq.Resp R) α

variable {Req : Type} {Resp : Req → Type} {α : Type}

namespace Conn

/-- A handler as a part of a connection. -/
def lift : Program Resp α → Conn Resp α
  | .ret a => Program.ret a
  | .ask r k => Program.ask (ConnReq.asked r) fun x => lift (k x)

/-- Write the responses one after the other, until one cannot be written. -/
def writeAll : List Message → Conn Resp (Except Error PUnit)
  | [] => pure (.ok ⟨⟩)
  | m :: ms => do
    match ← Program.request (ConnReq.write m) with
    | .ok _ => writeAll ms
    | .error e => pure (.error e)

/-- The message for a body that cannot be decoded. -/
def protocolError (e : Error) : Message := .error (.lit "protocol") (.ofString e.text)

/-- The error message is written, whether or not this works. -/
def writeError (e : Error) : Conn Resp (Except Error PUnit) := do
  let _ ← Program.request (ConnReq.write (protocolError e))
  pure (.ok ⟨⟩)

end Conn

open Conn

/-- Serve one connection. -/
def serveConnection (handle : Message → Program Resp (List Message)) (stream : Incoming) :
    Conn Resp (Except Error PUnit) :=
  match _h : readFrame stream with
  | .ok (some (t, payload), stream') =>
    match Message.decode t payload with
    | .ok msg => do
      let responses ← lift (handle msg)
      match ← writeAll responses with
      | .ok _ => serveConnection handle stream'
      | .error e => pure (.error e)
    | .error e => writeError e
  | _ => pure (.ok ⟨⟩)
termination_by weight stream
decreasing_by exact weight_readFrame _h

/-- The connection of a client or a peer to a node. -/
def Node.serveConnection (me : NodeInfo) : Incoming → Conn NodeReq.Resp (Except Error PUnit) :=
  TensorCache.serveConnection (Node.serve me)

/-! ### What is in a stream -/

/-- The messages a server takes off a stream, and the error if a body cannot be decoded. -/
def received (stream : Incoming) : List Message × Option Error :=
  match _h : readFrame stream with
  | .ok (some (t, payload), stream') =>
    match Message.decode t payload with
    | .ok msg => (msg :: (received stream').1, (received stream').2)
    | .error e => ([], some e)
  | _ => ([], none)
termination_by weight stream
decreasing_by all_goals exact weight_readFrame _h

/-- Handle messages one after the other and write the responses. -/
def serveAll (handle : Message → Program Resp (List Message)) (ending : Option Error) :
    List Message → Conn Resp (Except Error PUnit)
  | [] =>
    match ending with
    | none => pure (.ok ⟨⟩)
    | some e => writeError e
  | msg :: msgs => do
    let responses ← lift (handle msg)
    match ← writeAll responses with
    | .ok _ => serveAll handle ending msgs
    | .error e => pure (.error e)

section Received

variable {s s' : Incoming}

lemma received_message {t : MsgType} {payload : Bytes} {msg : Message}
    (h : readFrame s = .ok (some (t, payload), s')) (hmsg : Message.decode t payload = .ok msg) :
    received s = (msg :: (received s').1, (received s').2) := by
  rw [received]
  split
  · rename_i heq
    rw [h] at heq
    cases heq
    simp only [hmsg]
  · rename_i hend
    exact absurd h (hend t payload s')

lemma received_undecodable {t : MsgType} {payload : Bytes} {e : Error}
    (h : readFrame s = .ok (some (t, payload), s')) (he : Message.decode t payload = .error e) :
    received s = ([], some e) := by
  rw [received]
  split
  · rename_i heq
    rw [h] at heq
    cases heq
    simp only [he]
  · rename_i hend
    exact absurd h (hend t payload s')

lemma received_end (h : ∀ t payload s', readFrame s ≠ .ok (some (t, payload), s')) :
    received s = ([], none) := by
  rw [received]
  split
  · rename_i heq
    exact absurd heq (h _ _ _)
  · rfl

end Received

/-- Reading and handling in turns comes to the same as reading first. -/
lemma serveConnection_eq (handle : Message → Program Resp (List Message)) (s : Incoming) :
    serveConnection handle s = serveAll handle (received s).2 (received s).1 := by
  fun_induction received s with
  | case1 s t payload s' h msg hmsg ih =>
    rw [serveConnection]
    split
    · rename_i heq
      rw [h] at heq
      cases heq
      simp only [hmsg, ih]
      rfl
    · rename_i hend
      exact absurd h (hend t payload s')
  | case2 s t payload s' h e he =>
    rw [serveConnection]
    split
    · rename_i heq
      rw [h] at heq
      cases heq
      simp only [he]
      rfl
    · rename_i hend
      exact absurd h (hend t payload s')
  | case3 s h =>
    rw [serveConnection]
    split
    · rename_i heq
      exact absurd heq (h _ _ _)
    · rfl

/-! ### Bytes -/

section Bytes

variable {s s' : Incoming}

/-- Reading a frame depends on the bytes of the stream only. -/
lemma readFrame_congr (hs : Clean s) (hs' : Clean s') (h : contents s = contents s')
    {t : MsgType} {payload : Bytes} {s₁ : Incoming}
    (hread : readFrame s = .ok (some (t, payload), s₁)) :
    ∃ s₁', readFrame s' = .ok (some (t, payload), s₁') ∧ Clean s₁ ∧ Clean s₁' ∧
      contents s₁ = contents s₁' := by
  have hcase := readFrame_cases hs
  rw [hread] at hcase
  cases hcase with
  | frame _ _ reserved _ hsmall hreserved hclean hcontents =>
    rw [h] at hcontents
    obtain ⟨s₁', hclean', hrest, hread'⟩ := readFrame_frame hs' hsmall hreserved hcontents
    exact ⟨s₁', hread', hclean, hclean', hrest.symm⟩

/-- What a server takes off a stream depends on the bytes only. -/
lemma received_congr (hs : Clean s) (hs' : Clean s') (h : contents s = contents s') :
    received s = received s' := by
  fun_induction received s generalizing s' with
  | case1 s t payload s₁ hread msg hmsg ih =>
    obtain ⟨s₁', hread', hclean, hclean', hrest⟩ := readFrame_congr hs hs' h hread
    rw [received_message hread' hmsg, ih hclean hclean' hrest]
  | case2 s t payload s₁ hread e he =>
    obtain ⟨s₁', hread', -⟩ := readFrame_congr hs hs' h hread
    rw [received_undecodable hread' he]
  | case3 s hend =>
    refine (received_end fun t payload s₁' hread' => ?_).symm
    obtain ⟨s₁, hread, -⟩ := readFrame_congr hs' hs h.symm hread'
    exact hend _ _ _ hread

/-- Messages that a client has framed are the messages that are taken off the stream. -/
lemma received_frames {ms : List Message} (hms : ∀ m ∈ ms, m.encode.length ≤ maxFrame.toNat)
    (hs : Clean s) (h : contents s = ms.flatMap Message.encodeFrame) : received s = (ms, none) := by
  have hreceives := receives_frames ms hms s hs h
  clear hms hs h
  induction hreceives with
  | closed hread =>
    apply received_end
    intro t payload s₁ heq
    rw [hread] at heq
    cases heq
  | message hread hmsg _ ih => rw [received_message hread hmsg, ih]

lemma copyAt_zero (m : Message) : copyAt (encodeFrame m.msgType.tag m.encode) 14 [0, 0] = m.encodeFrame := by
  rw [copyAt_encodeFrame rfl]
  rfl

/-- No frame is read off a part of another frame. -/
lemma received_part {m : Message} (hm : m.encode.length ≤ maxFrame.toNat) (hs : Clean s)
    (h : contents s <+: m.encodeFrame) : (received s).1 <+: [m] := by
  have hcase := readFrame_cases hs
  cases hread : readFrame s with
  | error e =>
    rw [received_end (by simp [hread])]
    exact List.nil_prefix
  | ok out =>
    rw [hread] at hcase
    cases hcase with
    | closed hnil =>
      rw [received_end (by simp [hread])]
      exact List.nil_prefix
    | frame t p reserved s' hsmall hreserved hclean hcontents =>
      obtain ⟨more, hmore⟩ := h
      -- the whole frame as a stream can be read in both ways
      have hwhole : Clean (push m.encodeFrame []) := clean_push (by simp [Clean]) _
      have hbytes : contents (push m.encodeFrame []) = m.encodeFrame := by
        rw [contents_push]
        exact List.append_nil _
      obtain ⟨s₁, -, hrest₁, hread₁⟩ := readFrame_frame hwhole hm rfl
        (hbytes.trans ((List.append_nil _).trans (copyAt_zero m)).symm)
      have hother : contents (push m.encodeFrame [])
          = copyAt (encodeFrame t.tag p) 14 reserved ++ (contents s' ++ more) := by
        rw [hbytes, ← hmore, hcontents, List.append_assoc]
      obtain ⟨s₂, -, hrest₂, hread₂⟩ := readFrame_frame hwhole hsmall hreserved hother
      rw [hread₁] at hread₂
      cases hread₂
      rw [hrest₁] at hrest₂
      have hnil : contents s' = [] := (List.append_eq_nil_iff.mp hrest₂.symm).1
      have hdone : received s' = ([], none) := received_frames (by simp) hclean hnil
      rw [received_message hread (Message.decode_encode m), hdone]

/-- A client that has got a part of the bytes takes the first of the messages off them. -/
lemma received_prefix {ms : List Message} (hms : ∀ m ∈ ms, m.encode.length ≤ maxFrame.toNat)
    (hs : Clean s) (h : contents s <+: ms.flatMap Message.encodeFrame) : (received s).1 <+: ms := by
  induction ms generalizing s with
  | nil =>
    have hdone : received s = ([], none) := received_frames (by simp) hs (List.prefix_nil.mp h)
    rw [hdone]
  | cons m ms ih =>
    have hm := hms m List.mem_cons_self
    rw [List.flatMap_cons] at h
    rcases List.prefix_or_prefix_of_prefix h (List.prefix_append _ _) with hpart | ⟨rest, hcontents⟩
    · exact (received_part hm hs hpart).trans (by simp)
    · rw [← hcontents, List.prefix_append_right_inj] at h
      rw [← copyAt_zero m] at hcontents
      obtain ⟨s', hclean, hleft, hread⟩ := readFrame_frame hs hm rfl hcontents.symm
      rw [received_message hread (Message.decode_encode m)]
      apply (List.prefix_cons_inj m).mpr
      apply ih (fun m hm => hms m (List.mem_cons_of_mem _ hm)) hclean
      rw [hleft]
      exact h

end Bytes

/-- How the transport cuts the bytes of a client into pieces makes no difference to what a server
does. -/
theorem serveConnection_congr (handle : Message → Program Resp (List Message)) {s s' : Incoming}
    (hs : Clean s) (hs' : Clean s') (h : contents s = contents s') :
    serveConnection handle s = serveConnection handle s' := by
  rw [serveConnection_eq, serveConnection_eq, received_congr hs hs' h]

/-- The same bytes, cut in two ways, at a node. -/
theorem serveConnection_congr_pieces :
    serveConnection (Node.serve ⟨.lit "a", .lit "addr"⟩) [.data 84 [67, 84, 78]]
      = serveConnection (Node.serve ⟨.lit "a", .lit "addr"⟩)
          [.data 84 [67], .interrupted, .data 84 [78]] :=
  serveConnection_congr _ (by simp [Clean]) (by simp [Clean]) rfl

/-! ### What a connection has done -/

/-- The answers that the handlers were given. -/
def asked : List (Answer (ConnReq.Resp Resp)) → List (Answer Resp)
  | [] => []
  | ⟨.asked r, x⟩ :: l => ⟨r, x⟩ :: asked l
  | ⟨.write _, _⟩ :: l => asked l

/-- The messages that were written, each with whether this worked. -/
def written : List (Answer (ConnReq.Resp Resp)) → List (Message × Bool)
  | [] => []
  | ⟨.asked _, _⟩ :: l => written l
  | ⟨.write m, .ok _⟩ :: l => (m, true) :: written l
  | ⟨.write m, .error _⟩ :: l => (m, false) :: written l

/-- The messages `ms` are written in order, up to now or until one cannot be written. -/
def Writes (w : List (Message × Bool)) (ms : List Message) : Prop :=
  ∃ front, w = front.map (·, true) ∧ front <+: ms ∨
    ∃ m, w = front.map (·, true) ++ [(m, false)] ∧ front ++ [m] <+: ms

/-- The message that closes a connection. -/
def closing : Option Error → List Message
  | none => []
  | some e => [protocolError e]

section Traces

variable {l l' : List (Answer (ConnReq.Resp Resp))} {w : List (Message × Bool)} {ms ms' : List Message}

@[simp] lemma asked_append : asked (l ++ l') = asked l ++ asked l' := by
  induction l with
  | nil => rfl
  | cons a l ih =>
    obtain ⟨r, x⟩ := a
    cases r with
    | asked r => simp only [List.cons_append, asked, ih]
    | write m => simp only [List.cons_append, asked, ih]

@[simp] lemma written_append : written (l ++ l') = written l ++ written l' := by
  induction l with
  | nil => rfl
  | cons a l ih =>
    obtain ⟨r, x⟩ := a
    cases r with
    | asked r => simp only [List.cons_append, written, ih]
    | write m => cases x <;> simp only [List.cons_append, written, ih]

lemma Writes.nil (ms : List Message) : Writes [] ms := ⟨[], .inl ⟨rfl, List.nil_prefix⟩⟩

lemma Writes.of_prefix (h : Writes w ms) (hms : ms <+: ms') : Writes w ms' := by
  obtain ⟨front, ⟨hw, hfront⟩ | ⟨m, hw, hfront⟩⟩ := h
  · exact ⟨front, .inl ⟨hw, hfront.trans hms⟩⟩
  · exact ⟨front, .inr ⟨m, hw, hfront.trans hms⟩⟩

lemma Writes.append (h : Writes w ms') (ms : List Message) :
    Writes (ms.map (·, true) ++ w) (ms ++ ms') := by
  obtain ⟨front, ⟨rfl, hfront⟩ | ⟨m, rfl, hfront⟩⟩ := h
  · refine ⟨ms ++ front, .inl ⟨by simp, ?_⟩⟩
    exact (List.prefix_append_right_inj ms).mpr hfront
  · refine ⟨ms ++ front, .inr ⟨m, by simp, ?_⟩⟩
    rw [List.append_assoc]
    exact (List.prefix_append_right_inj ms).mpr hfront

/-- A handler asks as it does without a connection. -/
lemma trace_lift {p : Program Resp α} {q : Conn Resp α} (h : Program.Trace (lift p) l q) :
    written l = [] ∧ ∃ p', q = lift p' ∧ p.Trace (asked l) p' := by
  induction p generalizing l with
  | ret a =>
    obtain ⟨rfl, rfl⟩ := Program.Trace.of_ret h
    exact ⟨rfl, .ret a, rfl, .nil _⟩
  | ask r k ih =>
    cases h with
    | nil => exact ⟨rfl, .ask r k, rfl, .nil _⟩
    | @cons _ _ _ l x h =>
      obtain ⟨hwritten, p', hq, htrace⟩ := ih x h
      have hask : (Program.ask r k).Trace (⟨r, x⟩ :: asked l) p' :=
        @Program.Trace.cons Req Resp α r k p' (asked l) x htrace
      exact ⟨hwritten, p', hq, hask⟩

/-- Responses are written one after the other. -/
lemma trace_writeAll {q : Conn Resp (Except Error PUnit)}
    (h : Program.Trace (writeAll ms) l q) :
    asked l = [] ∧ Writes (written l) ms ∧ ∀ y, q = .ret y →
      (y = .ok ⟨⟩ ∧ written l = ms.map (·, true)) ∨ ∃ e m, y = .error e ∧ (m, false) ∈ written l := by
  induction ms generalizing l with
  | nil =>
    obtain ⟨rfl, rfl⟩ := Program.Trace.of_ret h
    refine ⟨rfl, Writes.nil _, ?_⟩
    rintro _ ⟨⟩
    exact .inl ⟨rfl, rfl⟩
  | cons m ms ih =>
    cases h with
    | nil =>
      refine ⟨rfl, Writes.nil _, ?_⟩
      rintro _ ⟨⟩
    | @cons _ _ _ l x h =>
      cases x with
      | ok u =>
        obtain ⟨hasked, hwrites, hend⟩ := ih h
        refine ⟨hasked, hwrites.append [m], fun y hy => ?_⟩
        rcases hend y hy with ⟨hok, hall⟩ | ⟨e, m', herror, hmem⟩
        · exact .inl ⟨hok, congrArg _ hall⟩
        · exact .inr ⟨e, m', herror, List.mem_cons_of_mem _ hmem⟩
      | error e =>
        obtain ⟨rfl, rfl⟩ := Program.Trace.of_ret h
        refine ⟨rfl, ⟨[], .inr ⟨m, rfl, ⟨ms, rfl⟩⟩⟩, ?_⟩
        rintro _ ⟨⟩
        exact .inr ⟨e, m, rfl, List.mem_cons_self⟩

/-- A message that is handled, the answers that its handler was given, and the responses. -/
structure Round (Resp : Req → Type) where
  msg : Message
  answers : List (Answer Resp)
  responses : List Message

/-- Everything a connection writes for its messages, if it comes that far. -/
def replies (msgs : List Message) (ending : Option Error) (done : List (Round Resp)) :
    List Message :=
  done.flatMap Round.responses ++ if done.map Round.msg = msgs then closing ending else []

/-- What a connection has done: the front part `done` of its messages is handled, the handler of the
next message has had the answers `rest`, and the responses are written in order. -/
structure Progress (handle : Message → Program Resp (List Message)) (ending : Option Error)
    (msgs : List Message) (l : List (Answer (ConnReq.Resp Resp)))
    (done : List (Round Resp)) (rest : List (Answer Resp)) : Prop where
  handled : ∀ d ∈ done, (handle d.msg).Trace d.answers (.ret d.responses)
  order : done.map Round.msg <+: msgs
  answered : asked l = done.flatMap Round.answers ++ rest
  next : rest = [] ∨ ∃ m r k, done.map Round.msg ++ [m] <+: msgs ∧
    (handle m).Trace rest (.ask r k)
  writes : Writes (written l) (replies msgs ending done)

variable {handle : Message → Program Resp (List Message)} {ending : Option Error}
  {msgs : List Message}

lemma trace_writeError {e : Error} {q : Conn Resp (Except Error PUnit)}
    (h : Program.Trace (writeError e) l q) :
    asked l = [] ∧ Writes (written l) [protocolError e] ∧ ∀ y, q = .ret y →
      written l = [(protocolError e, true)] ∨ ∃ m, (m, false) ∈ written l := by
  cases h with
  | nil =>
    refine ⟨rfl, Writes.nil _, ?_⟩
    rintro _ ⟨⟩
  | cons x h =>
    obtain ⟨rfl, rfl⟩ := Program.Trace.of_ret h
    cases x with
    | ok u => exact ⟨rfl, ⟨[_], .inl ⟨rfl, List.prefix_rfl⟩⟩, fun _ _ => .inl rfl⟩
    | error e' =>
      exact ⟨rfl, ⟨[], .inr ⟨_, rfl, List.prefix_rfl⟩⟩, fun _ _ => .inr ⟨_, List.mem_cons_self⟩⟩

/-- One more message is handled before. -/
lemma Progress.cons {l₁ l₂ l₃ : List (Answer (ConnReq.Resp Resp))} {done : List (Round Resp)}
    {rest : List (Answer Resp)} {m : Message} {rs : List Message}
    (h : Progress handle ending msgs l₃ done rest) (hhandled : (handle m).Trace (asked l₁) (.ret rs))
    (hwritten : written l₁ = []) (hasked : asked l₂ = []) (hall : written l₂ = rs.map (·, true)) :
    Progress handle ending (m :: msgs) (l₁ ++ (l₂ ++ l₃)) (⟨m, asked l₁, rs⟩ :: done) rest := by
  constructor
  · intro d hd
    rcases List.mem_cons.mp hd with rfl | hd
    · exact hhandled
    · exact h.handled d hd
  · exact (List.prefix_cons_inj m).mpr h.order
  · simp [hasked, h.answered]
  · rcases h.next with hrest | ⟨m', r, k, horder, htrace⟩
    · exact .inl hrest
    · exact .inr ⟨m', r, k, (List.prefix_cons_inj m).mpr horder, htrace⟩
  · rw [written_append, written_append, hwritten, hall, List.nil_append]
    have hreplies : replies (m :: msgs) ending (⟨m, asked l₁, rs⟩ :: done)
        = rs ++ replies msgs ending done := by
      simp [replies]
    rw [hreplies]
    exact h.writes.append rs

/-- Whatever a connection has been answered, it has served a front part of its messages; and if it
has ended, then all of them, unless something could not be written. -/
theorem progress_of_trace {p : Conn Resp (Except Error PUnit)}
    (h : Program.Trace (serveAll handle ending msgs) l p) :
    ∃ done rest, Progress handle ending msgs l done rest ∧ ∀ y, p = .ret y →
      (done.map Round.msg = msgs ∧ rest = [] ∧
        written l = (replies msgs ending done).map (·, true)) ∨ ∃ m, (m, false) ∈ written l := by
  induction msgs generalizing l with
  | nil =>
    have hprogress : asked l = [] → Writes (written l) (closing ending) →
        Progress handle ending [] l [] [] := by
      intro hasked hwrites
      refine ⟨by simp, by simp, by simpa using hasked, .inl rfl, ?_⟩
      simpa [replies] using hwrites
    cases ending with
    | none =>
      obtain ⟨rfl, rfl⟩ := Program.Trace.of_ret h
      refine ⟨[], [], hprogress rfl (Writes.nil _), fun y _ => .inl ⟨rfl, rfl, rfl⟩⟩
    | some e =>
      obtain ⟨hasked, hwrites, hend⟩ := trace_writeError h
      refine ⟨[], [], hprogress hasked hwrites, fun y hy => ?_⟩
      rcases hend y hy with hall | hfailed
      · exact .inl ⟨rfl, rfl, hall⟩
      · exact .inr hfailed
  | cons m msgs ih =>
    rcases Program.Trace.of_bind h with ⟨r, k, htrace, rfl⟩ | ⟨rs, l₁, l₂, rfl, htrace, hrest⟩
    · -- the message is being handled
      obtain ⟨hwritten, p', hp', htrace⟩ := trace_lift htrace
      cases p' with
      | ret a => cases hp'
      | ask r' k' =>
        refine ⟨[], asked l, ⟨by simp, by simp, by simp, ?_, ?_⟩, fun y hy => by cases hy⟩
        · exact .inr ⟨m, r', k', by simp, htrace⟩
        · rw [hwritten]
          exact Writes.nil _
    obtain ⟨hwritten, p', hp', hhandled⟩ := trace_lift htrace
    have hret : p' = .ret rs := by
      cases p' with
      | ret a =>
        cases hp'
        rfl
      | ask r k => cases hp'
    subst hret
    -- only this message is handled, and its responses are written up to some point
    have hfirst : ∀ {l₂ : List (Answer (ConnReq.Resp Resp))}, asked l₂ = [] →
        Writes (written l₂) rs →
        Progress handle ending (m :: msgs) (l₁ ++ l₂) [⟨m, asked l₁, rs⟩] [] := by
      intro l₂ hasked hwrites
      refine ⟨by simpa using hhandled, by simp, by simp [hasked], .inl rfl, ?_⟩
      rw [written_append, hwritten, List.nil_append]
      exact hwrites.of_prefix (by simp [replies])
    rcases Program.Trace.of_bind hrest with ⟨r, k, htrace, rfl⟩ | ⟨y, l₂, l₃, rfl, htrace, hrest⟩
    · -- its responses are being written
      obtain ⟨hasked, hwrites, -⟩ := trace_writeAll htrace
      exact ⟨_, [], hfirst hasked hwrites, fun y hy => by cases hy⟩
    · obtain ⟨hasked, hwrites, hend⟩ := trace_writeAll htrace
      rcases hend y rfl with ⟨rfl, hall⟩ | ⟨e, m', rfl, hfailed⟩
      · obtain ⟨done, rest, hprogress, hdone⟩ := ih hrest
        refine ⟨_, rest, hprogress.cons hhandled hwritten hasked hall, fun y hy => ?_⟩
        rcases hdone y hy with ⟨hmsgs, hrest, hwrites⟩ | ⟨m', hfailed⟩
        · refine .inl ⟨by simp [hmsgs], hrest, ?_⟩
          simp [replies, hwritten, hall, hwrites, hmsgs]
        · exact .inr ⟨m', by simp [hfailed]⟩
      · obtain ⟨rfl, rfl⟩ := Program.Trace.of_ret hrest
        rw [List.append_nil]
        exact ⟨_, [], hfirst hasked hwrites, fun y hy => .inr ⟨m', by simp [hfailed]⟩⟩

end Traces

end TensorCache
