import TensorCache.Crc
import TensorCache.Lib.Transport
import TensorCache.Protocol.Message

/-!
# Frames

A message travels in a frame: a header of sixteen bytes with magic, version, message type,
length and checksum, and the body behind it. The reader takes frames off a stream that delivers
its bytes in pieces. It accepts exactly the frames the writer makes, except that it does not look
at the two reserved bytes of the header.
-/

namespace TensorCache

open Codec Transport

/-- "TCBF". -/
def frameMagic : UInt32 := 0x54434246

def frameVersion : UInt8 := 1

/-- Hard cap on a single frame payload (64 MiB). -/
def maxFrame : UInt32 := 64 * 1024 * 1024

def headerLen : ℕ := 16

/-- The part of the header that the checksum covers, `head[0..10]`. -/
def frameHead (msgType : UInt8) (length : UInt32) : Bytes :=
  Writer.u32 frameMagic ++ ([frameVersion, msgType] ++ Writer.u32 length)

/-- Encode a frame from a message type tag and payload. -/
def encodeFrame (msgType : UInt8) (payload : Bytes) : Bytes :=
  let head := frameHead msgType (UInt32.ofNat payload.length)
  head ++ (Writer.u32 (crc32c (head ++ payload)) ++ ([0, 0] ++ payload))

/-- Encode a full frame: header plus body. -/
def Message.encodeFrame (m : Message) : Bytes := TensorCache.encodeFrame m.msgType.tag m.encode

/-- Fill the buffer, or as much of it as there is before the end of the stream. -/
def readExactOrEof (len : ℕ) (stream : Incoming) : Except Error (Bytes × Incoming) :=
  fill .ok .io len [] stream

/-- Fill the buffer; the end of the stream is an error. -/
def readExact (len : ℕ) (stream : Incoming) : Except Error (Bytes × Incoming) :=
  fill (fun _ => .error (.protocol "connection closed mid-frame")) .io len [] stream

/-- A little-endian `u32` inside the header. -/
def headU32 (head : Bytes) (start : ℕ) : UInt32 := UInt32.ofNat (leNat (slice head start 4))

/-- The checks on a complete header, and the payload behind it. -/
def readPayload (head : Bytes) (stream : Incoming) :
    Except Error (Option (MsgType × Bytes) × Incoming) :=
  if headU32 head 0 ≠ frameMagic then .error (.protocol "bad frame magic")
  else if head.getD 4 0 ≠ frameVersion then
    .error (.protocol s!"bad frame version {head.getD 4 0}")
  else do
    let msgType ← MsgType.fromTag (head.getD 5 0)
    let length := headU32 head 6
    if length > maxFrame then
      .error (.protocol s!"frame length {length} exceeds max {maxFrame}")
    else do
      let (payload, stream) ← readExact length.toNat stream
      if crc32c (slice head 0 10 ++ payload) ≠ headU32 head 10 then
        .error (.protocol "frame CRC mismatch")
      else .ok (some (msgType, payload), stream)

/-- Read exactly one frame from a stream. Nothing is returned when the peer closes cleanly at a
frame boundary. -/
def readFrame (stream : Incoming) : Except Error (Option (MsgType × Bytes) × Incoming) := do
  let (head, stream) ← readExactOrEof headerLen stream
  if head.length = 0 then .ok (none, stream)
  else if head.length < headerLen then .error (.protocol "truncated frame header")
  else readPayload head stream

/-! ### Headers -/

/-- A header with arbitrary fields. -/
def header (magic : UInt32) (version tag : UInt8) (length crc : UInt32) (reserved : Bytes) : Bytes :=
  Writer.u32 magic ++ ([version, tag] ++ (Writer.u32 length ++ (Writer.u32 crc ++ reserved)))

lemma exists_u32 (bs : Bytes) (h : 4 ≤ bs.length) :
    ∃ (v : UInt32) (rest : Bytes), bs = Writer.u32 v ++ rest := by
  have hread : ∃ p, Reader.u32 bs = .ok p := by
    have htake : Reader.take 4 bs = .ok (bs.take 4, bs.drop 4) := by
      rw [Reader.take, if_neg (by omega)]
    exact ⟨_, bind_ok htake⟩
  obtain ⟨⟨v, rest⟩, hread⟩ := hread
  exact ⟨v, rest, canonical_u32 bs v rest hread⟩

@[simp] lemma length_u32 (v : UInt32) : (Writer.u32 v).length = 4 := length_leBytes 4 _

/-- Every sixteen bytes are a header. -/
lemma exists_header {head : Bytes} (h : head.length = 16) :
    ∃ magic version tag length crc reserved, reserved.length = 2 ∧
      head = header magic version tag length crc reserved := by
  obtain ⟨magic, r₁, rfl⟩ := exists_u32 head (by omega)
  rw [List.length_append, length_u32] at h
  match r₁ with
  | [] | [_] => simp at h
  | version :: tag :: r₂ =>
    simp only [List.length_cons] at h
    obtain ⟨length, r₃, rfl⟩ := exists_u32 r₂ (by omega)
    rw [List.length_append, length_u32] at h
    obtain ⟨crc, reserved, rfl⟩ := exists_u32 r₃ (by omega)
    rw [List.length_append, length_u32] at h
    exact ⟨magic, version, tag, length, crc, reserved, by omega, rfl⟩

section Header

variable (magic : UInt32) (version tag : UInt8) (length crc : UInt32) (reserved : Bytes)

lemma length_header (h : reserved.length = 2) :
    (header magic version tag length crc reserved).length = headerLen := by
  simp [header, h, headerLen]

lemma leNat_u32 (v : UInt32) : UInt32.ofNat (leNat (Writer.u32 v)) = v := by
  rw [Writer.u32, leNat_leBytes, Nat.mod_eq_of_lt (by simpa using v.toNat_lt), UInt32.ofNat_toNat]

@[simp] lemma headU32_magic : headU32 (header magic version tag length crc reserved) 0 = magic :=
  leNat_u32 magic

@[simp] lemma getD_version : (header magic version tag length crc reserved).getD 4 0 = version := rfl

@[simp] lemma getD_tag : (header magic version tag length crc reserved).getD 5 0 = tag := rfl

@[simp] lemma headU32_length : headU32 (header magic version tag length crc reserved) 6 = length :=
  leNat_u32 length

@[simp] lemma headU32_crc : headU32 (header magic version tag length crc reserved) 10 = crc :=
  leNat_u32 crc

@[simp] lemma slice_header : slice (header magic version tag length crc reserved) 0 10
    = Writer.u32 magic ++ ([version, tag] ++ Writer.u32 length) := rfl

end Header

/-! ### Reading one frame -/

variable {s s' : Incoming} {t : MsgType} {p : Bytes}

lemma readExact_ok {rest : Bytes} (hs : Clean s) (h : contents s = p ++ rest) :
    ∃ s', Clean s' ∧ contents s' = rest ∧ readExact p.length s = .ok (p, s') := by
  have hspec := (fill_spec (fun _ => .error (.protocol "connection closed mid-frame")) Error.io p.length
    [] s hs (Nat.zero_le _)).1
  obtain ⟨s', hclean, hrest, hfill⟩ := hspec (by simp [h])
  refine ⟨s', hclean, ?_, ?_⟩
  · rw [hrest, h, List.length_nil, Nat.sub_zero, List.drop_left]
  · rw [readExact, hfill, h, List.length_nil, Nat.sub_zero, List.take_left, List.nil_append]

lemma readExact_short {n : ℕ} (hs : Clean s) (h : (contents s).length < n) :
    readExact n s = .error (.protocol "connection closed mid-frame") :=
  (fill_spec _ _ _ [] s hs (Nat.zero_le _)).2 (by simpa using h)

/-- What `readExact` returns is the next bytes of the stream. -/
lemma readExact_eq_ok {n : ℕ} (hs : Clean s) (h : readExact n s = .ok (p, s')) :
    Clean s' ∧ p.length = n ∧ contents s = p ++ contents s' := by
  by_cases hlen : (contents s).length < n
  · rw [readExact_short hs hlen] at h
    cases h
  · have htake : ((contents s).take n).length = n := by
      rw [List.length_take]
      omega
    obtain ⟨s'', hclean, hrest, hread⟩ := readExact_ok hs (List.take_append_drop n (contents s)).symm
    rw [htake, h] at hread
    cases hread
    exact ⟨hclean, htake, by rw [hrest, List.take_append_drop]⟩

lemma readFrame_closed (hs : Clean s) (h : contents s = []) : readFrame s = .ok (none, []) := by
  have hread : readExactOrEof headerLen s = .ok ([], []) := by
    have hspec := (fill_spec .ok Error.io headerLen [] s hs (Nat.zero_le _)).2 (by rw [h]; decide)
    rw [readExactOrEof, hspec, h]
    rfl
  rw [readFrame, hread]
  rfl

lemma readFrame_truncated (hs : Clean s) (hne : contents s ≠ [])
    (h : (contents s).length < headerLen) :
    readFrame s = .error (.protocol "truncated frame header") := by
  have hread : readExactOrEof headerLen s = .ok (contents s, []) := by
    have hspec := (fill_spec .ok Error.io headerLen [] s hs (Nat.zero_le _)).2 (by simpa using h)
    rw [readExactOrEof, hspec]
    rfl
  have hpos : (contents s).length ≠ 0 := by simpa using hne
  simp only [readFrame, hread, bind, Except.bind, if_neg hpos, if_pos h]

lemma readFrame_header {head rest : Bytes} (hs : Clean s) (hlen : head.length = headerLen)
    (h : contents s = head ++ rest) :
    ∃ s', Clean s' ∧ contents s' = rest ∧ readFrame s = readPayload head s' := by
  have hspec := (fill_spec .ok Error.io headerLen [] s hs (Nat.zero_le _)).1
  obtain ⟨s', hclean, hrest, hfill⟩ := hspec (by simp [h, hlen])
  rw [List.length_nil, Nat.sub_zero, h, ← hlen] at hrest hfill
  rw [List.drop_left] at hrest
  rw [List.take_left, List.nil_append] at hfill
  refine ⟨s', hclean, hrest, ?_⟩
  have hread : readExactOrEof headerLen s = .ok (head, s') := by rw [readExactOrEof, ← hlen, hfill]
  have hpos : head.length ≠ 0 := by rw [hlen]; decide
  simp only [readFrame, hread, bind, Except.bind, if_neg hpos, if_neg (Nat.not_lt.mpr hlen.ge)]

/-- Whatever passes the checks is a payload with its own header in front of it. -/
lemma readPayload_eq_ok {magic length crc : UInt32} {version tag : UInt8} {reserved : Bytes}
    {o : Option (MsgType × Bytes)} (hs : Clean s)
    (h : readPayload (header magic version tag length crc reserved) s = .ok (o, s')) :
    ∃ t p, o = some (t, p) ∧ magic = frameMagic ∧ version = frameVersion ∧ tag = t.tag ∧
      length = UInt32.ofNat p.length ∧ p.length ≤ maxFrame.toNat ∧
      crc = crc32c (frameHead t.tag (UInt32.ofNat p.length) ++ p) ∧ Clean s' ∧
      contents s = p ++ contents s' := by
  simp only [readPayload, headU32_magic, getD_version, getD_tag, headU32_length, headU32_crc,
    slice_header] at h
  split_ifs at h with hmagic hversion hlarge
  · obtain ⟨_, _, h⟩ := except_bind_eq_ok h
    cases h
  obtain ⟨t, htag, h⟩ := except_bind_eq_ok h
  obtain ⟨⟨p, s''⟩, hread, h⟩ := except_bind_eq_ok h
  dsimp only at h
  split_ifs at h with hcrc
  cases h
  obtain ⟨hclean, hlen, hcontents⟩ := readExact_eq_ok hs hread
  have hlength : length = UInt32.ofNat p.length := by rw [hlen, UInt32.ofNat_toNat]
  have hsmall : p.length ≤ maxFrame.toNat := by
    rw [hlen]
    exact UInt32.le_iff_toNat_le.mp (UInt32.not_lt.mp hlarge)
  have htag := MsgType.tag_of_fromTag htag
  rw [not_ne_iff] at hmagic hversion hcrc
  refine ⟨t, p, rfl, hmagic, hversion, htag.symm, hlength, hsmall, ?_, hclean, hcontents⟩
  rw [← hcrc, hmagic, hversion, ← htag, ← hlength]
  rfl

/-- A payload with its own header in front of it passes the checks. -/
lemma readPayload_ok {reserved rest : Bytes} (hs : Clean s) (hp : p.length ≤ maxFrame.toNat)
    (h : contents s = p ++ rest) :
    ∃ s', Clean s' ∧ contents s' = rest ∧
      readPayload (header frameMagic frameVersion t.tag (UInt32.ofNat p.length)
        (crc32c (frameHead t.tag (UInt32.ofNat p.length) ++ p)) reserved) s
        = .ok (some (t, p), s') := by
  obtain ⟨s', hclean, hrest, hread⟩ := readExact_ok hs h
  refine ⟨s', hclean, hrest, ?_⟩
  have hlen : (UInt32.ofNat p.length).toNat = p.length :=
    UInt32.toNat_ofNat_of_lt' (lt_of_le_of_lt hp (by decide))
  have hsmall : ¬UInt32.ofNat p.length > maxFrame := by
    rw [gt_iff_lt, UInt32.not_lt, UInt32.le_iff_toNat_le, hlen]
    exact hp
  have hhead : Writer.u32 frameMagic ++ ([frameVersion, t.tag] ++ Writer.u32 (UInt32.ofNat p.length))
      = frameHead t.tag (UInt32.ofNat p.length) := rfl
  simp only [readPayload, headU32_magic, getD_version, getD_tag, headU32_length, headU32_crc,
    slice_header, hhead, hlen, hread, MsgType.fromTag_tag, bind, Except.bind, ne_eq, not_true,
    if_false, if_neg hsmall]

/-- The bytes begin with the frame of `t` and `p`, up to the two reserved bytes of its header. -/
def BeginsWithFrame (bytes : Bytes) (t : MsgType) (p : Bytes) : Prop :=
  ∃ reserved : Bytes, reserved.length = 2 ∧
    copyAt (encodeFrame t.tag p) 14 reserved <+: bytes

lemma copyAt_encodeFrame {reserved : Bytes} (h : reserved.length = 2) (t : UInt8) (p : Bytes) :
    copyAt (encodeFrame t p) 14 reserved
      = header frameMagic frameVersion t (UInt32.ofNat p.length)
          (crc32c (frameHead t (UInt32.ofNat p.length) ++ p)) reserved ++ p := by
  obtain ⟨a, b, rfl⟩ := List.length_eq_two.mp h
  rfl

/-- What reading a frame from a clean stream can do. -/
inductive FrameCase (s : Incoming) : Except Error (Option (MsgType × Bytes) × Incoming) → Prop
  | closed (h : contents s = []) : FrameCase s (.ok (none, []))
  | frame (t : MsgType) (p reserved : Bytes) (s' : Incoming) (hsmall : p.length ≤ maxFrame.toNat)
      (hreserved : reserved.length = 2) (hclean : Clean s')
      (h : contents s = copyAt (encodeFrame t.tag p) 14 reserved ++ contents s') :
      FrameCase s (.ok (some (t, p), s'))
  | refused (e : Error) (h : contents s ≠ []) : FrameCase s (.error e)

lemma readFrame_cases (hs : Clean s) : FrameCase s (readFrame s) := by
  by_cases hne : contents s = []
  · rw [readFrame_closed hs hne]
    exact .closed hne
  by_cases hlen : (contents s).length < headerLen
  · rw [readFrame_truncated hs hne hlen]
    exact .refused _ hne
  have htake : ((contents s).take headerLen).length = headerLen := by
    rw [List.length_take]
    omega
  obtain ⟨s', hclean, hrest, hframe⟩ :=
    readFrame_header hs htake (List.take_append_drop headerLen (contents s)).symm
  obtain ⟨magic, version, tag, length, crc, reserved, hreserved, hhead⟩ := exists_header htake
  rw [hframe]
  rw [hhead]
  cases hout : readPayload (header magic version tag length crc reserved) s' with
  | error e => exact .refused e hne
  | ok out =>
    obtain ⟨o, s''⟩ := out
    obtain ⟨t, p, rfl, rfl, rfl, rfl, rfl, hsmall, rfl, hclean', hpayload⟩ :=
      readPayload_eq_ok hclean hout
    refine .frame t p reserved s'' hsmall hreserved hclean' ?_
    rw [copyAt_encodeFrame hreserved, ← hhead, List.append_assoc, ← hpayload, hrest,
      List.take_append_drop]

/-- The reader accepts every frame that is not too long. -/
lemma readFrame_frame {reserved rest : Bytes} (hs : Clean s) (hp : p.length ≤ maxFrame.toNat)
    (hreserved : reserved.length = 2)
    (h : contents s = copyAt (encodeFrame t.tag p) 14 reserved ++ rest) :
    ∃ s', Clean s' ∧ contents s' = rest ∧ readFrame s = .ok (some (t, p), s') := by
  rw [copyAt_encodeFrame hreserved, List.append_assoc] at h
  obtain ⟨s', hclean, hcontents, hframe⟩ :=
    readFrame_header hs (length_header _ _ _ _ _ _ hreserved) h
  obtain ⟨s'', hclean', hrest, hread⟩ := readPayload_ok hclean hp hcontents
  exact ⟨s'', hclean', hrest, by rw [hframe, hread]⟩

lemma length_copyAt_encodeFrame {reserved : Bytes} (h : reserved.length = 2) (t : UInt8) (p : Bytes) :
    (copyAt (encodeFrame t p) 14 reserved).length = headerLen + p.length := by
  rw [copyAt_encodeFrame h, List.length_append, length_header _ _ _ _ _ _ h]

/-! ### Streams of frames -/

/-- Reading frame after frame and decoding each of them gives these messages, and then the clean
end of the stream. -/
inductive Receives : Incoming → List Message → Prop
  | closed {s s' : Incoming} (h : readFrame s = .ok (none, s')) : Receives s []
  | message {s s' : Incoming} {t : MsgType} {p : Bytes} {m : Message} {ms : List Message}
      (hread : readFrame s = .ok (some (t, p), s')) (hdecode : Message.decode t p = .ok m)
      (hrest : Receives s' ms) : Receives s (m :: ms)

/-- Whatever the pieces it comes in, a sequence of frames is received as the messages sent. -/
lemma receives_frames (ms : List Message) (hms : ∀ m ∈ ms, m.encode.length ≤ maxFrame.toNat) :
    ∀ s, Clean s → contents s = ms.flatMap Message.encodeFrame → Receives s ms := by
  induction ms with
  | nil =>
    intro s hs h
    exact .closed (readFrame_closed hs h)
  | cons m ms ih =>
    intro s hs h
    have hzero : copyAt (encodeFrame m.msgType.tag m.encode) 14 [0, 0] = m.encodeFrame := by
      rw [copyAt_encodeFrame rfl]
      rfl
    rw [List.flatMap_cons, ← hzero] at h
    obtain ⟨s', hclean, hrest, hread⟩ :=
      readFrame_frame hs (hms m List.mem_cons_self) rfl h
    apply Receives.message hread (Message.decode_encode m)
    exact ih (fun m hm => hms m (List.mem_cons_of_mem _ hm)) s' hclean hrest

/-- Framing over a stream. A sequence of messages that fit in frames is received as it was sent,
in whatever pieces the transport delivers it. One read accepts exactly the streams that begin
with a frame, up to its reserved bytes, and takes that frame off; it meets the clean end exactly
on the empty stream; and it refuses everything else. -/
theorem framing_exact :
    (∀ ms : List Message, (∀ m ∈ ms, m.encode.length ≤ maxFrame.toNat) →
      ∀ s, Clean s → contents s = ms.flatMap Message.encodeFrame → Receives s ms) ∧
    ∀ s, Clean s →
      (∀ t p, (∃ s', readFrame s = .ok (some (t, p), s')) ↔
        p.length ≤ maxFrame.toNat ∧ BeginsWithFrame (contents s) t p) ∧
      (∀ t p s', readFrame s = .ok (some (t, p), s') →
        contents s = (contents s).take (headerLen + p.length) ++ contents s' ∧
          headerLen + p.length ≤ (contents s).length) ∧
      ((∃ s', readFrame s = .ok (none, s')) ↔ contents s = []) ∧
      (contents s ≠ [] → (∀ t p, p.length ≤ maxFrame.toNat → ¬BeginsWithFrame (contents s) t p) →
        ∃ e, readFrame s = .error e) := by
  refine ⟨receives_frames, fun s hs => ⟨fun t p => ⟨?_, ?_⟩, ?_, ⟨?_, ?_⟩, ?_⟩⟩
  · rintro ⟨s', h⟩
    have hcase := readFrame_cases hs
    rw [h] at hcase
    cases hcase with
    | frame _ _ reserved _ hsmall hreserved _ hcontents =>
      exact ⟨hsmall, reserved, hreserved, ⟨contents s', hcontents.symm⟩⟩
  · rintro ⟨hsmall, reserved, hreserved, rest, hcontents⟩
    obtain ⟨s', -, -, hread⟩ := readFrame_frame hs hsmall hreserved hcontents.symm
    exact ⟨s', hread⟩
  · intro t p s' h
    have hcase := readFrame_cases hs
    rw [h] at hcase
    cases hcase with
    | frame _ _ reserved _ hsmall hreserved _ hcontents =>
      have hlen := length_copyAt_encodeFrame hreserved t.tag p
      rw [hcontents, ← hlen, List.take_left, List.length_append]
      exact ⟨rfl, Nat.le_add_right _ _⟩
  · rintro ⟨s', h⟩
    have hcase := readFrame_cases hs
    rw [h] at hcase
    cases hcase with
    | closed hnil => exact hnil
  · intro hnil
    exact ⟨[], readFrame_closed hs hnil⟩
  · intro hne hnone
    have hcase := readFrame_cases hs
    cases hout : readFrame s with
    | error e => exact ⟨e, rfl⟩
    | ok out =>
      rw [hout] at hcase
      cases hcase with
      | closed hnil => exact absurd hnil hne
      | frame t p reserved s' hsmall hreserved _ hcontents =>
        exact absurd ⟨reserved, hreserved, ⟨contents s', hcontents.symm⟩⟩ (hnone t p hsmall)

end TensorCache
