import Mathlib.Data.List.Infix
import Mathlib.Data.List.Flatten

/-!
# Frames in a byte stream

A frame is any object with a wire form `wire f`. A sequence of frames is sent as
the concatenation of the wire forms, and a receiver has seen some first `n` bytes
of it. `completed wire fs n` counts the frames that lie wholly inside those bytes
and `pending wire fs n` are the bytes behind them, so the first `n` bytes are the
completed frames followed by the pending ones (`take_stream`). The pending bytes
are a strict prefix of the next frame.

When more bytes arrive, `arrived` are the frames that they complete: the pending
bytes and the new ones together are these frames and the new pending bytes
(`pending_append_chunk`).
-/

namespace Framing

variable {F B : Type*}

/-- The bytes of a sequence of frames. -/
def stream (wire : F → List B) (fs : List F) : List B := fs.flatMap wire

/-- How many frames lie wholly inside the first `n` bytes. -/
def completed (wire : F → List B) : List F → ℕ → ℕ
  | [], _ => 0
  | f :: fs, n =>
      if (wire f).length ≤ n then completed wire fs (n - (wire f).length) + 1 else 0

/-- The bytes among the first `n` that belong to no completed frame. -/
def pending (wire : F → List B) : List F → ℕ → List B
  | [], _ => []
  | f :: fs, n =>
      if (wire f).length ≤ n then pending wire fs (n - (wire f).length)
      else (wire f).take n

/-- The frames completed between the first `n` and the first `m` bytes. -/
def arrived (wire : F → List B) (fs : List F) (n m : ℕ) : List F :=
  (fs.take (completed wire fs m)).drop (completed wire fs n)

@[simp] theorem stream_nil (wire : F → List B) : stream wire [] = [] := rfl

theorem stream_cons (wire : F → List B) (f : F) (fs : List F) :
    stream wire (f :: fs) = wire f ++ stream wire fs := rfl

theorem stream_append (wire : F → List B) (fs gs : List F) :
    stream wire (fs ++ gs) = stream wire fs ++ stream wire gs := by
  simp [stream]

theorem completed_cons_of_le {wire : F → List B} {f : F} {n : ℕ}
    (h : (wire f).length ≤ n) (fs : List F) :
    completed wire (f :: fs) n = completed wire fs (n - (wire f).length) + 1 := by
  simp [completed, h]

theorem completed_cons_of_lt {wire : F → List B} {f : F} {n : ℕ}
    (h : n < (wire f).length) (fs : List F) : completed wire (f :: fs) n = 0 := by
  simp [completed, Nat.not_le.mpr h]

theorem pending_cons_of_le {wire : F → List B} {f : F} {n : ℕ}
    (h : (wire f).length ≤ n) (fs : List F) :
    pending wire (f :: fs) n = pending wire fs (n - (wire f).length) := by
  simp [pending, h]

theorem pending_cons_of_lt {wire : F → List B} {f : F} {n : ℕ}
    (h : n < (wire f).length) (fs : List F) :
    pending wire (f :: fs) n = (wire f).take n := by
  simp [pending, Nat.not_le.mpr h]

/-- The first `n` bytes are the completed frames and then the pending bytes. -/
theorem take_stream (wire : F → List B) (fs : List F) (n : ℕ) :
    (stream wire fs).take n =
      stream wire (fs.take (completed wire fs n)) ++ pending wire fs n := by
  induction fs generalizing n with
  | nil => simp [pending]
  | cons f fs ih =>
      rcases Nat.lt_or_ge n (wire f).length with h | h
      · rw [completed_cons_of_lt h, pending_cons_of_lt h, stream_cons,
          List.take_append_of_le_length h.le]
        rfl
      · rw [completed_cons_of_le h, pending_cons_of_le h, List.take_succ_cons, stream_cons,
          stream_cons, List.take_append, List.take_of_length_le h, ih, List.append_assoc]

theorem completed_le_length (wire : F → List B) (fs : List F) (n : ℕ) :
    completed wire fs n ≤ fs.length := by
  induction fs generalizing n with
  | nil => simp [completed]
  | cons f fs ih =>
      rcases Nat.lt_or_ge n (wire f).length with h | h
      · simp [completed_cons_of_lt h]
      · rw [completed_cons_of_le h, List.length_cons]
        exact Nat.succ_le_succ (ih _)

theorem completed_mono (wire : F → List B) (fs : List F) {n m : ℕ} (hnm : n ≤ m) :
    completed wire fs n ≤ completed wire fs m := by
  induction fs generalizing n m with
  | nil => simp [completed]
  | cons f fs ih =>
      rcases Nat.lt_or_ge n (wire f).length with h | h
      · simp [completed_cons_of_lt h]
      · rw [completed_cons_of_le h, completed_cons_of_le (h.trans hnm)]
        exact Nat.succ_le_succ (ih (Nat.sub_le_sub_right hnm _))

/-- Before any byte has arrived nothing is completed. -/
theorem completed_zero {wire : F → List B} (hw : ∀ f, wire f ≠ []) (fs : List F) :
    completed wire fs 0 = 0 := by
  cases fs with
  | nil => rfl
  | cons f fs => exact completed_cons_of_lt (List.length_pos_iff.mpr (hw f)) fs

theorem pending_zero {wire : F → List B} (hw : ∀ f, wire f ≠ []) (fs : List F) :
    pending wire fs 0 = [] := by
  cases fs with
  | nil => rfl
  | cons f fs => simp [pending_cons_of_lt (List.length_pos_iff.mpr (hw f)) fs]

/-- Once all bytes have arrived every frame is completed. -/
theorem completed_length (wire : F → List B) (fs : List F) :
    completed wire fs (stream wire fs).length = fs.length := by
  induction fs with
  | nil => rfl
  | cons f fs ih =>
      have hlen : (stream wire (f :: fs)).length = (wire f).length + (stream wire fs).length := by
        rw [stream_cons, List.length_append]
      rw [completed_cons_of_le (by omega), hlen, Nat.add_sub_cancel_left, ih, List.length_cons]

/-- The pending bytes are a strict prefix of a frame of the sequence, or there are
none. -/
theorem pending_cases (wire : F → List B) (fs : List F) (n : ℕ) :
    pending wire fs n = [] ∨
      ∃ f ∈ fs, pending wire fs n <+: wire f ∧ pending wire fs n ≠ wire f := by
  induction fs generalizing n with
  | nil => exact .inl rfl
  | cons f fs ih =>
      rcases Nat.lt_or_ge n (wire f).length with h | h
      · rw [pending_cons_of_lt h]
        refine .inr ⟨f, by simp, List.take_prefix _ _, fun heq => ?_⟩
        have hlen := congrArg List.length heq
        rw [List.length_take] at hlen
        omega
      · rw [pending_cons_of_le h]
        rcases ih (n - (wire f).length) with h0 | ⟨g, hg, hp⟩
        · exact .inl h0
        · exact .inr ⟨g, by simp [hg], hp⟩

theorem mem_of_mem_arrived {wire : F → List B} {fs : List F} {n m : ℕ} {f : F}
    (h : f ∈ arrived wire fs n m) : f ∈ fs :=
  List.mem_of_mem_take (List.mem_of_mem_drop h)

theorem take_completed_append_arrived (wire : F → List B) (fs : List F) {n m : ℕ}
    (hnm : n ≤ m) :
    fs.take (completed wire fs n) ++ arrived wire fs n m =
      fs.take (completed wire fs m) := by
  have hle := completed_mono wire fs hnm
  have htake : fs.take (completed wire fs n) =
      (fs.take (completed wire fs m)).take (completed wire fs n) := by
    rw [List.take_take, Nat.min_eq_left hle]
  rw [htake, arrived, List.take_append_drop]

/-- The pending bytes and the bytes that arrive are the frames they complete and
the new pending bytes. -/
theorem pending_append_chunk (wire : F → List B) (fs : List F) {n : ℕ} {chunk : List B}
    (h : (stream wire fs).take (n + chunk.length) = (stream wire fs).take n ++ chunk) :
    pending wire fs n ++ chunk =
      stream wire (arrived wire fs n (n + chunk.length)) ++
        pending wire fs (n + chunk.length) := by
  have hsplit := take_completed_append_arrived wire fs (Nat.le_add_right n chunk.length)
  rw [take_stream, take_stream, ← hsplit, stream_append, List.append_assoc,
    List.append_assoc] at h
  exact (List.append_cancel_left h).symm

end Framing
