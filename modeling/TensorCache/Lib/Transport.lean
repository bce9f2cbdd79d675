import TensorCache.Lib.Codec

/-!
# Reading from a byte stream in pieces

A stream socket hands over its bytes in pieces of any size, and a read may be interrupted or
fail. An incoming stream is the list of what its reads will meet; the end of the list is the end
of the stream. A buffer is filled by reading until it is full. What the filled buffer holds, and
what is left of the stream, depends on the bytes only and not on the pieces they come in.
-/

namespace Transport

open Codec

/-- What the next read of a stream meets. A piece of data is not empty. -/
inductive Turn where
  | interrupted
  | failed (message : String)
  | data (b : UInt8) (bs : Bytes)

abbrev Incoming := List Turn

inductive ReadError where
  | interrupted
  | other (message : String)

/-- The bytes that will still be delivered. -/
def contents : Incoming → Bytes
  | [] => []
  | .data b bs :: s => b :: bs ++ contents s
  | _ :: s => contents s

/-- No read fails, other than by an interrupt. -/
def Clean (s : Incoming) : Prop := ∀ message, Turn.failed message ∉ s

/-- Put back what a read has left of a piece. -/
def push : Bytes → Incoming → Incoming
  | [], s => s
  | b :: bs, s => .data b bs :: s

/-- Read at most `len` bytes; no bytes means that the stream has ended. -/
def read (len : ℕ) : Incoming → Except ReadError Bytes × Incoming
  | [] => (.ok [], [])
  | .interrupted :: s => (.error .interrupted, s)
  | .failed message :: s => (.error (.other message), s)
  | .data b bs :: s => (.ok ((b :: bs).take len), push ((b :: bs).drop len) s)

/-- Every read that does not meet the end makes this smaller. -/
def weight : Incoming → ℕ
  | [] => 0
  | .data _ bs :: s => bs.length + 2 + weight s
  | _ :: s => 1 + weight s

@[simp] lemma contents_push (bs : Bytes) (s : Incoming) : contents (push bs s) = bs ++ contents s := by
  cases bs <;> rfl

lemma clean_push {s : Incoming} (h : Clean s) (bs : Bytes) : Clean (push bs s) := by
  cases bs with
  | nil => exact h
  | cons b bs =>
    intro message hmem
    rcases List.mem_cons.mp hmem with heq | hmem
    · cases heq
    · exact h message hmem

lemma Clean.tail {t : Turn} {s : Incoming} (h : Clean (t :: s)) : Clean s :=
  fun message hmem => h message (List.mem_cons_of_mem t hmem)

lemma weight_push (bs : Bytes) (s : Incoming) : weight (push bs s) ≤ bs.length + 1 + weight s := by
  cases bs with
  | nil => simp [push]
  | cons b bs =>
    simp only [push, weight, List.length_cons]
    omega

lemma weight_of_read_data {len : ℕ} {s s' : Incoming} {b : UInt8} {bs : Bytes}
    (h : read len s = (.ok (b :: bs), s')) : weight s' < weight s := by
  match s with
  | [] => cases h
  | .interrupted :: s => cases h
  | .failed message :: s => cases h
  | .data c cs :: s =>
    cases len with
    | zero => simp [read] at h
    | succ len =>
      have hs : push (cs.drop len) s = s' := congrArg Prod.snd h
      have := weight_push (cs.drop len) s
      rw [hs, List.length_drop] at this
      simp only [weight]
      omega

lemma weight_of_read_interrupted {len : ℕ} {s s' : Incoming}
    (h : read len s = (.error .interrupted, s')) : weight s' < weight s := by
  match s with
  | .interrupted :: s =>
    cases h
    simp [weight]
  | .failed message :: s => cases h

/-- Fill a buffer of `len` bytes, of which `buf` are already there. The caller says what the end
of the stream means and how a failure is reported. -/
def fill {ε : Type} (atEof : Bytes → Except ε Bytes) (failed : String → ε) (len : ℕ) (buf : Bytes)
    (s : Incoming) : Except ε (Bytes × Incoming) :=
  if buf.length < len then
    match _h : read (len - buf.length) s with
    | (.ok [], s') => (atEof buf).map (·, s')
    | (.ok (b :: bs), s') => fill atEof failed len (buf ++ b :: bs) s'
    | (.error .interrupted, s') => fill atEof failed len buf s'
    | (.error (.other message), _) => .error (failed message)
  else .ok (buf, s)
termination_by weight s
decreasing_by
  · exact weight_of_read_data _h
  · exact weight_of_read_interrupted _h

/-! ### What is read -/

/-- A read of a clean stream meets its end, delivers the next bytes, or is interrupted. -/
inductive ReadCase (len : ℕ) (s : Incoming) : Except ReadError Bytes × Incoming → Prop
  | ended (h : contents s = []) : ReadCase len s (.ok [], [])
  | data (b : UInt8) (bs : Bytes) (s' : Incoming) (hs : contents s = b :: bs ++ contents s')
      (hlen : (b :: bs).length ≤ len) (hclean : Clean s') : ReadCase len s (.ok (b :: bs), s')
  | interrupted (s' : Incoming) (hs : contents s = contents s') (hclean : Clean s') :
      ReadCase len s (.error .interrupted, s')

lemma read_cases {len : ℕ} {s : Incoming} (hlen : 0 < len) (hs : Clean s) :
    ReadCase len s (read len s) := by
  match s with
  | [] => exact .ended rfl
  | .interrupted :: s => exact .interrupted s rfl hs.tail
  | .failed message :: s => exact absurd List.mem_cons_self (hs message)
  | .data b bs :: s =>
    obtain ⟨n, rfl⟩ := Nat.exists_eq_succ_of_ne_zero hlen.ne'
    refine .data b (bs.take n) (push (bs.drop n) s) ?_ ?_ (clean_push hs.tail _)
    · rw [contents_push, ← List.append_assoc, List.cons_append, List.take_append_drop]
      rfl
    · simp only [List.length_cons, List.length_take]
      omega

section Fill

variable {ε : Type} (atEof : Bytes → Except ε Bytes) (failed : String → ε) (len : ℕ)

/-- The outcome of filling a buffer is a function of the bytes of the stream: either there are
enough of them, or the end of the stream is met. -/
lemma fill_spec (buf : Bytes) (s : Incoming) (hs : Clean s) (hbuf : buf.length ≤ len) :
    (len ≤ buf.length + (contents s).length → ∃ s', Clean s' ∧
      contents s' = (contents s).drop (len - buf.length) ∧
      fill atEof failed len buf s = .ok (buf ++ (contents s).take (len - buf.length), s')) ∧
    (buf.length + (contents s).length < len →
      fill atEof failed len buf s = (atEof (buf ++ contents s)).map (·, [])) := by
  fun_induction fill atEof failed len buf s with
  | case1 buf s hfull s' hread =>
    have hcase := read_cases (Nat.sub_pos_of_lt hfull) hs
    rw [hread] at hcase
    cases hcase with
    | ended hnil =>
      rw [hnil, List.append_nil, List.length_nil]
      exact ⟨fun h => by omega, fun _ => rfl⟩
  | case2 buf s hfull b bs s' hread ih =>
    have hcase := read_cases (Nat.sub_pos_of_lt hfull) hs
    rw [hread] at hcase
    cases hcase with
    | data _ _ _ hcontents hlen hclean =>
      have hbuf' : (buf ++ b :: bs).length ≤ len := by
        rw [List.length_append]
        omega
      have hsplit : len - buf.length = (b :: bs).length + (len - (buf ++ b :: bs).length) := by
        rw [List.length_append] at hbuf' ⊢
        omega
      obtain ⟨henough, hshort⟩ := ih hclean hbuf'
      rw [hcontents, hsplit, List.take_length_add_append, List.drop_length_add_append,
        ← List.append_assoc buf, ← List.append_assoc buf]
      simp only [List.length_append, ← Nat.add_assoc] at henough hshort ⊢
      exact ⟨henough, hshort⟩
  | case3 buf s hfull s' hread ih =>
    have hcase := read_cases (Nat.sub_pos_of_lt hfull) hs
    rw [hread] at hcase
    cases hcase with
    | interrupted _ hcontents hclean =>
      rw [hcontents]
      exact ih hclean hbuf
  | case4 buf s hfull message s' hread =>
    have hcase := read_cases (Nat.sub_pos_of_lt hfull) hs
    rw [hread] at hcase
    cases hcase
  | case5 buf s hfull =>
    have hzero : len - buf.length = 0 := by omega
    refine ⟨fun _ => ⟨s, hs, ?_, ?_⟩, fun h => by omega⟩
    · rw [hzero, List.drop_zero]
    · rw [hzero, List.take_zero, List.append_nil]

variable {atEof failed len}

/-- Unless nothing is put into the buffer, less of the stream is left. -/
lemma weight_fill (hatEof : ∀ b out, atEof b = .ok out → out = b) {buf out : Bytes}
    {s s' : Incoming} (h : fill atEof failed len buf s = .ok (out, s')) :
    out = buf ∧ weight s' ≤ weight s ∨ weight s' < weight s := by
  fun_induction fill atEof failed len buf s with
  | case1 buf s hfull s'' hread =>
    cases hend : atEof buf with
    | error e =>
      rw [hend] at h
      cases h
    | ok out' =>
      rw [hend] at h
      cases h
      have hweight : weight s' ≤ weight s := by
        cases s with
        | nil =>
          cases hread
          exact le_rfl
        | cons turn s =>
          cases turn with
          | interrupted | failed => cases hread
          | data b bs =>
            have htake : (b :: bs).take (len - buf.length) = [] :=
              Except.ok.inj (congrArg Prod.fst hread)
            have := Nat.sub_pos_of_lt hfull
            obtain ⟨n, hn⟩ := Nat.exists_eq_succ_of_ne_zero this.ne'
            rw [hn] at htake
            cases htake
      exact .inl ⟨hatEof _ _ hend, hweight⟩
  | case2 buf s hfull b bs s'' hread ih =>
    have hless := weight_of_read_data hread
    rcases ih h with ⟨-, hle⟩ | hlt
    · exact .inr (lt_of_le_of_lt hle hless)
    · exact .inr (hlt.trans hless)
  | case3 buf s hfull s'' hread ih =>
    have hless := weight_of_read_interrupted hread
    rcases ih h with ⟨-, hle⟩ | hlt
    · exact .inr (lt_of_le_of_lt hle hless)
    · exact .inr (hlt.trans hless)
  | case4 => cases h
  | case5 =>
    cases h
    exact .inl ⟨rfl, le_rfl⟩

end Fill

end Transport
