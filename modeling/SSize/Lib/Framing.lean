import Mathlib.Data.List.Basic

/-!
# Messages out of a stream that arrives in pieces

A `Framing` says where the first message of a stream ends, looking at no more of
the stream than the message itself: bytes that follow change neither the message
nor an error. `receive` reads pieces into a buffer until a message is complete,
and returns it with what the buffer holds beyond it.

`receive_sound` says where the bytes went, `receive_whole` that a message which is
next in the stream is the one received, however the stream is cut.
-/

namespace SSize.Lib

variable {β μ : Type*}

inductive Parsed (μ : Type*) where
  | more
  /-- A message and how much of the stream it takes. -/
  | message (m : μ) (size : Nat)
  | malformed

structure Framing (β μ : Type*) where
  parse : List β → Parsed μ
  positive : ∀ {bs m n}, parse bs = .message m n → 0 < n
  within : ∀ {bs m n}, parse bs = .message m n → n ≤ bs.length
  message_append : ∀ {bs m n} (later), parse bs = .message m n →
    parse (bs ++ later) = .message m n
  malformed_append : ∀ {bs} (later), parse bs = .malformed → parse (bs ++ later) = .malformed
  message_take : ∀ {bs m n}, parse bs = .message m n → parse (bs.take n) = .message m n

/-- A message, its bytes, what else the buffer holds and the pieces not read. -/
structure Received (β μ : Type*) where
  message : μ
  raw : List β
  surplus : List β
  rest : List (List β)

namespace Framing

variable (F : Framing β μ)

/-- These bytes are this message and nothing else. -/
def Whole (raw : List β) (m : μ) : Prop := F.parse raw = .message m raw.length

/-- `none` is an error or the end of the stream. -/
def receive (buffer : List β) (pieces : List (List β)) : Option (Received β μ) :=
  match F.parse buffer with
  | .message m n => some ⟨m, buffer.take n, buffer.drop n, pieces⟩
  | .malformed => none
  | .more =>
      match pieces with
      | [] => none
      | piece :: rest => receive (buffer ++ piece) rest
termination_by structural pieces

variable {F}

theorem Whole.ne_nil {raw : List β} {m : μ} (h : F.Whole raw m) : raw ≠ [] := by
  rintro rfl
  exact absurd (F.positive h) (Nat.lt_irrefl 0)

/-- As long as a part of a message is missing, the reader waits for it. -/
theorem Whole.parse_prefix {raw bs later : List β} {m : μ} (h : F.Whole raw m)
    (hparts : bs ++ later = raw) (hlater : later ≠ []) : F.parse bs = .more := by
  rw [Whole, ← hparts] at h
  cases hparse : F.parse bs with
  | more => rfl
  | message m' n =>
      have hle := F.within hparse
      rw [F.message_append later hparse, Parsed.message.injEq, List.length_append] at h
      have hpos := List.length_pos_iff.2 hlater
      omega
  | malformed =>
      rw [F.malformed_append later hparse] at h
      simp at h

/-- So it does where the buffer is shorter than the message that is next. -/
theorem Whole.parse_short {raw buffer later rest : List β} {m : μ} (h : F.Whole raw m)
    (hstream : buffer ++ rest = raw ++ later) (hbuffer : buffer.length < raw.length) :
    F.parse buffer = .more := by
  have hstarts : buffer <+: raw := by
    apply List.prefix_of_prefix_length_le _ (List.prefix_append raw later) (Nat.le_of_lt hbuffer)
    exact ⟨rest, hstream⟩
  obtain ⟨missing, hparts⟩ := hstarts
  apply h.parse_prefix hparts
  rintro rfl
  rw [List.append_nil] at hparts
  rw [hparts] at hbuffer
  exact Nat.lt_irrefl _ hbuffer

theorem receive_more {buffer piece : List β} {rest : List (List β)}
    (h : F.parse buffer = .more) :
    F.receive buffer (piece :: rest) = F.receive (buffer ++ piece) rest := by
  rw [receive, h]

theorem receive_message {buffer : List β} {pieces : List (List β)} {m : μ} {n : Nat}
    (h : F.parse buffer = .message m n) :
    F.receive buffer pieces = some ⟨m, buffer.take n, buffer.drop n, pieces⟩ := by
  rw [receive.eq_def, h]

/-- The bytes of a received message, the surplus and the pieces not read are the
stream. -/
theorem receive_sound {buffer : List β} {pieces : List (List β)} {got : Received β μ}
    (h : F.receive buffer pieces = some got) :
    F.Whole got.raw got.message ∧ ∃ used, pieces = used ++ got.rest ∧
      buffer ++ used.flatten = got.raw ++ got.surplus := by
  induction pieces generalizing buffer with
  | nil =>
      rw [receive.eq_def] at h
      split at h
      · next m n hparse =>
          cases h
          refine ⟨?_, [], rfl, by simp⟩
          rw [Whole, F.message_take hparse, List.length_take, Nat.min_eq_left (F.within hparse)]
      · simp at h
      · simp at h
  | cons piece rest ih =>
      rw [receive.eq_def] at h
      split at h
      · next m n hparse =>
          cases h
          refine ⟨?_, [], rfl, by simp⟩
          rw [Whole, F.message_take hparse, List.length_take, Nat.min_eq_left (F.within hparse)]
      · simp at h
      · obtain ⟨hwhole, used, hrest, hbytes⟩ := ih h
        refine ⟨hwhole, piece :: used, by rw [hrest, List.cons_append], ?_⟩
        rw [List.flatten_cons, ← List.append_assoc, hbytes]

/-- The message that is next in the stream is received from the first pieces that
cover it. -/
theorem receive_whole {raw buffer later : List β} {pieces : List (List β)} {m : μ}
    (hraw : F.Whole raw m) (hstream : buffer ++ pieces.flatten = raw ++ later)
    (hbuffer : buffer.length < raw.length) :
    ∃ used surplus rest, pieces = used ++ rest ∧ buffer ++ used.flatten = raw ++ surplus ∧
      (∀ j < used.length, (buffer ++ (used.take j).flatten).length < raw.length) ∧
      F.receive buffer pieces = some ⟨m, raw, surplus, rest⟩ := by
  induction pieces generalizing buffer with
  | nil =>
      have hlength := congrArg List.length hstream
      simp only [List.flatten_nil, List.append_nil, List.length_append] at hlength
      omega
  | cons piece rest ih =>
      have hpart : F.parse buffer = .more := hraw.parse_short hstream hbuffer
      rw [receive_more hpart]
      rw [List.flatten_cons, ← List.append_assoc] at hstream
      by_cases hmore : (buffer ++ piece).length < raw.length
      · obtain ⟨used, surplus, rest', hrest, hbytes, hshort, hreceive⟩ := ih hstream hmore
        refine ⟨piece :: used, surplus, rest', by rw [hrest, List.cons_append], ?_, ?_, hreceive⟩
        · rw [List.flatten_cons, ← List.append_assoc, hbytes]
        · intro j hj
          cases j with
          | zero => simpa using hbuffer
          | succ j =>
              rw [List.take_succ_cons, List.flatten_cons, ← List.append_assoc]
              exact hshort j (by simpa using hj)
      · -- This piece completes the message.
        have hcovers : raw <+: buffer ++ piece := by
          apply List.prefix_of_prefix_length_le (List.prefix_append raw later) _
            (Nat.not_lt.1 hmore)
          exact ⟨rest.flatten, hstream⟩
        obtain ⟨surplus, hsurplus⟩ := hcovers
        refine ⟨[piece], surplus, rest, rfl, by simpa using hsurplus.symm, ?_, ?_⟩
        · intro j hj
          have hzero : j = 0 := by simpa using hj
          simpa [hzero] using hbuffer
        · have hparse : F.parse (buffer ++ piece) = .message m raw.length := by
            rw [← hsurplus]
            exact F.message_append surplus hraw
          rw [receive_message hparse, ← hsurplus, List.take_left, List.drop_left]

end Framing

end SSize.Lib
