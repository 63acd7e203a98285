import Esp32AtMqtt.Mqtt.Receive

/-!
# Receiving a stream that is cut into chunks

Repeated calls of `Mqtt_RecvPkt`, when the concatenation of the chunks that
`read_func` stores is the stream of a sequence of well-formed packets. `HandsOver`
says that the calls hand over these packets, and that the buffer keeps after every
call exactly the received bytes not handed over yet.

One call that starts in step with the stream (`InStep`) dispatches the packets the
chunk completes, when these are short (`recvStep_short`), and what it leaves in the
buffer is the rest of the stream if and only if `MoveOk` holds. The whole run is the
induction over the calls.
-/

namespace Mqtt

open Base128 Framing

/-- What `read_func` stores in one call, and the bytes behind the buffer at that
time. -/
structure Read where
  chunk : List UInt8
  outside : ℕ → UInt8

/-- What repeated calls have returned and left behind. -/
structure Received (σ : Type*) where
  rets : List ℤ
  state : σ
  ctx : MqttContext
  calls : List (UInt8 × List UInt8)

/-- One more call of `Mqtt_RecvPkt`. -/
def recvStep {σ : Type*} (D : MqttDispatcher σ) (r : Received σ) (read : Read) : Received σ :=
  let q := mqttRecvPkt D read.outside r.state r.ctx (some read.chunk)
  ⟨r.rets ++ [q.ret], q.state, q.ctx, r.calls ++ q.calls⟩

/-- Repeated calls of `Mqtt_RecvPkt`. -/
def recvAll {σ : Type*} (D : MqttDispatcher σ) (s : σ) (ctx : MqttContext)
    (reads : List Read) : Received σ :=
  reads.foldl (recvStep D) ⟨[], s, ctx, []⟩

/-- The bytes that the reads have stored. -/
def received (reads : List Read) : List UInt8 := reads.flatMap Read.chunk

/-- `read_func` never stores more bytes than the room it is given. -/
def FitsRoom {σ : Type*} (D : MqttDispatcher σ) (s : σ) (ctx : MqttContext)
    (reads : List Read) : Prop :=
  ∀ k read, reads[k]? = some read →
    let c := (recvAll D s ctx (reads.take k)).ctx
    read.chunk.length ≤ c.buf.length - c.pos

/-- The calls succeed and hand over the packets `fs`: after every call those handed
over are the first ones, and their bytes and those kept in the buffer are the bytes
received. After the last call all packets have been handed over. -/
def HandsOver {σ : Type*} (D : MqttDispatcher σ) (s : σ) (ctx : MqttContext)
    (fs : List MqttPacket) (reads : List Read) : Prop :=
  (∀ k ≤ reads.length,
    let r := recvAll D s ctx (reads.take k)
    let handed := fs.take r.calls.length
    r.rets = List.replicate k mqtterrNoerror ∧ r.calls = handed.map MqttPacket.call ∧
      stream MqttPacket.bytes handed ++ r.ctx.buf.take r.ctx.pos =
        received (reads.take k)) ∧
    (recvAll D s ctx reads).calls = fs.map MqttPacket.call

/-- When `c` bytes were consumed, moving `c` bytes keeps these: they are at most `c`,
or repeat with the period `c`. -/
def MoveOk (c : ℕ) (left : List UInt8) : Prop :=
  left.drop c = left.take (left.length - c)

instance (c : ℕ) (left : List UInt8) : Decidable (MoveOk c left) :=
  inferInstanceAs (Decidable (_ = _))

/-- The packets that the read after the first `k` completes. -/
def completedBy (fs : List MqttPacket) (reads : List Read) (k : ℕ) : List MqttPacket :=
  arrived MqttPacket.bytes fs (received (reads.take k)).length
    (received (reads.take (k + 1))).length

/-- The bytes of the next packet that have come with the first `k` reads. -/
def leftOver (fs : List MqttPacket) (reads : List Read) (k : ℕ) : List UInt8 :=
  pending MqttPacket.bytes fs (received (reads.take k)).length

/-- The packets are short; and after every read the bytes of the next packet are no
more than those of the packets which this read completes, or repeat with their number
as the period. -/
def CutOk (fs : List MqttPacket) (reads : List Read) : Prop :=
  (∀ p ∈ fs, p.Short) ∧
    ∀ k < reads.length,
      MoveOk (stream MqttPacket.bytes (completedBy fs reads k)).length
        (leftOver fs reads (k + 1))

theorem moveOk_iff (c : ℕ) (left : List UInt8) :
    left.take c ++ left.take (left.length - c) = left ↔ MoveOk c left := by
  constructor
  · intro h
    have hsplit := (List.take_append_drop c left).trans h.symm
    exact List.append_cancel_left hsplit
  · intro h
    rw [← h, List.take_append_drop]

/-- The calls so far are in step with the stream: the packets that the first `n`
bytes complete have been handed over, and the buffer keeps the bytes behind them. -/
structure InStep {σ : Type*} (D : MqttDispatcher σ) (s : σ) (cap : ℕ) (fs : List MqttPacket)
    (n : ℕ) (r : Received σ) : Prop where
  calls_eq : r.calls = (fs.take (completed MqttPacket.bytes fs n)).map MqttPacket.call
  state_eq : r.state = dispatchAll D s (fs.take (completed MqttPacket.bytes fs n))
  length_buf : r.ctx.buf.length = cap
  pos_eq : r.ctx.pos = (pending MqttPacket.bytes fs n).length
  kept : r.ctx.buf.take r.ctx.pos = pending MqttPacket.bytes fs n

/-- A chunk put behind the kept bytes: the packets it completes, and the new rest. -/
theorem InStep.stored {σ : Type*} {D : MqttDispatcher σ} {s : σ} {cap n : ℕ}
    {fs : List MqttPacket} {r : Received σ} {chunk : List UInt8} (h : InStep D s cap fs n r)
    (hchunk : (stream MqttPacket.bytes fs).take (n + chunk.length) =
      (stream MqttPacket.bytes fs).take n ++ chunk) :
    r.ctx.buf.take r.ctx.pos ++ chunk =
      stream MqttPacket.bytes (arrived MqttPacket.bytes fs n (n + chunk.length)) ++
        pending MqttPacket.bytes fs (n + chunk.length) := by
  rw [h.kept, pending_append_chunk MqttPacket.bytes fs hchunk]

/-- The dispatcher accepts what arrives next. -/
theorem InStep.accepts {σ : Type*} {D : MqttDispatcher σ} {s : σ} {cap n : ℕ}
    {fs : List MqttPacket} {r : Received σ} (h : InStep D s cap fs n r) (hacc : Accepts D s fs)
    {m : ℕ} (hnm : n ≤ m) : Accepts D r.state (arrived MqttPacket.bytes fs n m) := by
  have hsplit : fs = fs.take (completed MqttPacket.bytes fs n) ++
      (arrived MqttPacket.bytes fs n m ++ fs.drop (completed MqttPacket.bytes fs m)) := by
    rw [← List.append_assoc, take_completed_append_arrived _ _ hnm, List.take_append_drop]
  rw [hsplit, accepts_append, accepts_append, ← h.state_eq] at hacc
  exact hacc.2.1

/-- What a chunk adds can be read: the packets it completes are short, and the rest is
one to wait behind. -/
def Readable (fs : List MqttPacket) (n m : ℕ) : Prop :=
  (∀ p ∈ arrived MqttPacket.bytes fs n m, p.Short) ∧ Waits (pending MqttPacket.bytes fs m)

/-- Where all packets are short everything can be read. -/
theorem readable_of_short {fs : List MqttPacket} (h : ∀ p ∈ fs, p.Short) (n m : ℕ) :
    Readable fs n m := by
  refine ⟨fun p hp => h p (mem_of_mem_arrived hp), ?_⟩
  rcases pending_cases MqttPacket.bytes fs m with h0 | ⟨p, hp, hpre, hne⟩
  · exact .inl h0
  · exact .inr ⟨p, hpre, hne, .inl (h p hp)⟩

theorem exists_first_long {gs : List MqttPacket} (h : ¬ ∀ p ∈ gs, p.Short) :
    ∃ hs p ts, gs = hs ++ p :: ts ∧ (∀ q ∈ hs, q.Short) ∧ ¬ p.Short := by
  induction gs with
  | nil => simp at h
  | cons g gs ih =>
      by_cases hg : g.Short
      · have hgs : ¬ ∀ p ∈ gs, p.Short := fun hall => h (List.forall_mem_cons.mpr ⟨hg, hall⟩)
        obtain ⟨hs, p, ts, rfl, hhs, hp⟩ := ih hgs
        exact ⟨g :: hs, p, ts, rfl, List.forall_mem_cons.mpr ⟨hg, hhs⟩, hp⟩
      · exact ⟨[], g, gs, rfl, by simp, hg⟩

section Step

variable {σ : Type*} {D : MqttDispatcher σ} {s : σ} {cap n : ℕ} {fs : List MqttPacket}
  {r : Received σ} {read : Read}

/-- One call from a state in step, when the chunk can be read: it succeeds and hands
over the packets that the chunk completes, and it leaves a state in step if and only
if the move was right, which is if and only if the rest is what the buffer keeps. -/
theorem recvStep_readable (h : InStep D s cap fs n r) (hacc : Accepts D s fs)
    (hne : read.chunk ≠ []) (hroom : read.chunk.length ≤ r.ctx.buf.length - r.ctx.pos)
    (hchunk : (stream MqttPacket.bytes fs).take (n + read.chunk.length) =
      (stream MqttPacket.bytes fs).take n ++ read.chunk)
    (hread : Readable fs n (n + read.chunk.length)) :
    (recvStep D r read).rets = r.rets ++ [mqtterrNoerror] ∧
      (recvStep D r read).calls =
        (fs.take (completed MqttPacket.bytes fs (n + read.chunk.length))).map MqttPacket.call ∧
      (InStep D s cap fs (n + read.chunk.length) (recvStep D r read) ↔
        (recvStep D r read).ctx.buf.take (recvStep D r read).ctx.pos =
          pending MqttPacket.bytes fs (n + read.chunk.length)) ∧
      (InStep D s cap fs (n + read.chunk.length) (recvStep D r read) ↔
        MoveOk
          (stream MqttPacket.bytes
            (arrived MqttPacket.bytes fs n (n + read.chunk.length))).length
          (pending MqttPacket.bytes fs (n + read.chunk.length))) := by
  set m := n + read.chunk.length with hm
  set gs := arrived MqttPacket.bytes fs n m with hgs
  have hnm : n ≤ m := Nat.le_add_right _ _
  have hposle : r.ctx.pos + read.chunk.length ≤ r.ctx.buf.length := by
    have hpos : 0 < read.chunk.length := List.length_pos_iff.mpr hne
    omega
  obtain ⟨front, back, hfront, hlen, heq⟩ := mqttRecvPkt_arrived D read.outside r.state hne
    hposle (h.stored hchunk) hread.1 (h.accepts hacc hnm) hread.2
  have hstep : recvStep D r read = ⟨r.rets ++ [mqtterrNoerror], dispatchAll D r.state gs,
      ⟨moved (front ++ pending MqttPacket.bytes fs m ++ back) read.outside front.length,
        (pending MqttPacket.bytes fs m).length⟩, r.calls ++ gs.map MqttPacket.call⟩ := by
    rw [recvStep, heq]
  have hcalls : r.calls ++ gs.map MqttPacket.call =
      (fs.take (completed MqttPacket.bytes fs m)).map MqttPacket.call := by
    rw [h.calls_eq, ← List.map_append, take_completed_append_arrived _ _ hnm]
  have hmove := moved_take front (pending MqttPacket.bytes fs m) back read.outside
  have hkept : InStep D s cap fs m (recvStep D r read) ↔
      (recvStep D r read).ctx.buf.take (recvStep D r read).ctx.pos =
        pending MqttPacket.bytes fs m := by
    refine ⟨InStep.kept, fun hk => ?_⟩
    rw [hstep] at hk ⊢
    refine ⟨hcalls, ?_, ?_, rfl, hk⟩
    · show dispatchAll D r.state gs = _
      rw [h.state_eq, ← dispatchAll_append, take_completed_append_arrived _ _ hnm]
    · have hle : front.length ≤ (front ++ pending MqttPacket.bytes fs m ++ back).length := by
        simp
      exact (length_moved hle _).trans (hlen.trans h.length_buf)
  refine ⟨by rw [hstep], by rw [hstep]; exact hcalls, hkept, hkept.trans ?_⟩
  rw [hstep, ← hfront, ← moveOk_iff, ← hmove]

/-- One call from a state in step, when the chunk cannot be read: it fails. -/
theorem recvStep_not_readable (h : InStep D s cap fs n r) (hacc : Accepts D s fs)
    (hne : read.chunk ≠ []) (hroom : read.chunk.length ≤ r.ctx.buf.length - r.ctx.pos)
    (hchunk : (stream MqttPacket.bytes fs).take (n + read.chunk.length) =
      (stream MqttPacket.bytes fs).take n ++ read.chunk)
    (hread : ¬ Readable fs n (n + read.chunk.length)) :
    (recvStep D r read).rets = r.rets ++ [mqtterrIllegalPkt] := by
  set m := n + read.chunk.length with hm
  have hposle : r.ctx.pos + read.chunk.length ≤ r.ctx.buf.length := by
    have hpos : 0 < read.chunk.length := List.length_pos_iff.mpr hne
    omega
  have hstored := h.stored hchunk
  have haccept := h.accepts hacc (Nat.le_add_right n read.chunk.length)
  rw [← hm] at hstored haccept
  have hret : (mqttRecvPkt D read.outside r.state r.ctx (some read.chunk)).ret =
      mqtterrIllegalPkt := by
    by_cases hshort : ∀ p ∈ arrived MqttPacket.bytes fs n m, p.Short
    · -- the next packet is too long
      refine mqttRecvPkt_long D _ _ hne hposle hstored hshort haccept ?_
      have hwaits : ¬ Waits (pending MqttPacket.bytes fs m) := fun hw => hread ⟨hshort, hw⟩
      rcases pending_cases MqttPacket.bytes fs m with h0 | ⟨p, -, hpre, hneq⟩
      · exact absurd (.inl h0) hwaits
      · have hlong : ¬ (p.Short ∨ (pending MqttPacket.bytes fs m).length ≤ 3) :=
          fun hfew => hwaits (.inr ⟨p, hpre, hneq, hfew⟩)
        rw [not_or, Nat.not_le] at hlong
        refine longHead_of_prefix hlong.1 (List.prefix_of_prefix_length_le
          (List.take_prefix 4 p.bytes) hpre ?_)
        exact (List.length_take_le 4 p.bytes).trans hlong.2
    · -- a packet that has come completely is too long
      obtain ⟨hs, p, ts, hgs, hhs, hp⟩ := exists_first_long hshort
      rw [hgs, stream_append, stream_cons, List.append_assoc, List.append_assoc] at hstored
      rw [hgs, accepts_append] at haccept
      refine mqttRecvPkt_long D _ _ hne hposle hstored hhs haccept.1 ?_
      exact longHead_of_prefix hp ((List.take_prefix 4 p.bytes).trans (List.prefix_append _ _))
  rw [recvStep, hret]

/-- In step, the packets handed over and the kept bytes are the bytes received. -/
theorem InStep.handed (h : InStep D s cap fs n r) :
    r.calls = (fs.take r.calls.length).map MqttPacket.call ∧
      stream MqttPacket.bytes (fs.take r.calls.length) ++ r.ctx.buf.take r.ctx.pos =
        (stream MqttPacket.bytes fs).take n := by
  have hlen : r.calls.length = completed MqttPacket.bytes fs n := by
    rw [h.calls_eq, List.length_map, List.length_take,
      Nat.min_eq_left (completed_le_length _ _ _)]
  rw [hlen, h.kept, take_stream]
  exact ⟨h.calls_eq, rfl⟩

end Step

theorem take_succ_of_getElem? {reads : List Read} {k : ℕ} {read : Read}
    (h : reads[k]? = some read) : reads.take (k + 1) = reads.take k ++ [read] := by
  rw [List.take_add_one, h]
  rfl

theorem recvAll_succ {σ : Type*} (D : MqttDispatcher σ) (s : σ) (ctx : MqttContext)
    {reads : List Read} {k : ℕ} {read : Read} (h : reads[k]? = some read) :
    recvAll D s ctx (reads.take (k + 1)) =
      recvStep D (recvAll D s ctx (reads.take k)) read := by
  rw [take_succ_of_getElem? h, recvAll, List.foldl_append]
  rfl

theorem received_succ {reads : List Read} {k : ℕ} {read : Read} (h : reads[k]? = some read) :
    received (reads.take (k + 1)) = received (reads.take k) ++ read.chunk := by
  rw [take_succ_of_getElem? h, received, List.flatMap_append]
  simp [received]

/-- What the first reads have stored is the beginning of the stream. -/
theorem take_stream_received {fs : List MqttPacket} {reads : List Read}
    (h : received reads = stream MqttPacket.bytes fs) (k : ℕ) :
    (stream MqttPacket.bytes fs).take (received (reads.take k)).length =
      received (reads.take k) := by
  have hsplit : received reads = received (reads.take k) ++ received (reads.drop k) := by
    rw [received, received, received, ← List.flatMap_append, List.take_append_drop]
  rw [← h, hsplit, List.take_left' rfl]

section Run

variable {σ : Type*} {D : MqttDispatcher σ} {s : σ} {ctx : MqttContext} {fs : List MqttPacket}
  {reads : List Read}

/-- Before the first call everything is in step. -/
theorem inStep_zero (hpos : ctx.pos = 0) :
    InStep D s ctx.buf.length fs (received (reads.take 0)).length
      (recvAll D s ctx (reads.take 0)) := by
  have hn : (received (reads.take 0)).length = 0 := rfl
  have hc := completed_zero MqttPacket.bytes_ne_nil fs
  have hp := pending_zero MqttPacket.bytes_ne_nil fs
  rw [hn]
  refine ⟨?_, ?_, rfl, ?_, ?_⟩
  · rw [hc]
    rfl
  · rw [hc]
    rfl
  · rw [hp]
    exact hpos
  · rw [hp]
    show ctx.buf.take ctx.pos = []
    rw [hpos, List.take_zero]

/-- The calls from one read to the next, as long as they stay in step. -/
theorem recvAll_step (hacc : Accepts D s fs) (hne : ∀ read ∈ reads, read.chunk ≠ [])
    (hstream : received reads = stream MqttPacket.bytes fs) (hroom : FitsRoom D s ctx reads)
    {k : ℕ} (hk : k < reads.length)
    (h : InStep D s ctx.buf.length fs (received (reads.take k)).length
      (recvAll D s ctx (reads.take k)))
    (hrets : (recvAll D s ctx (reads.take k)).rets = List.replicate k mqtterrNoerror) :
    ((recvAll D s ctx (reads.take (k + 1))).rets = List.replicate (k + 1) mqtterrNoerror ↔
      Readable fs (received (reads.take k)).length (received (reads.take (k + 1))).length) ∧
    (Readable fs (received (reads.take k)).length (received (reads.take (k + 1))).length →
      (recvAll D s ctx (reads.take (k + 1))).calls = (fs.take (completed MqttPacket.bytes fs
        (received (reads.take (k + 1))).length)).map MqttPacket.call ∧
      (InStep D s ctx.buf.length fs (received (reads.take (k + 1))).length
          (recvAll D s ctx (reads.take (k + 1))) ↔
        (recvAll D s ctx (reads.take (k + 1))).ctx.buf.take
            (recvAll D s ctx (reads.take (k + 1))).ctx.pos = leftOver fs reads (k + 1)) ∧
      (InStep D s ctx.buf.length fs (received (reads.take (k + 1))).length
          (recvAll D s ctx (reads.take (k + 1))) ↔
        MoveOk (stream MqttPacket.bytes (completedBy fs reads k)).length
          (leftOver fs reads (k + 1)))) := by
  have hread : reads[k]? = some reads[k] := List.getElem?_eq_getElem hk
  have hmem : reads[k] ∈ reads := List.getElem_mem hk
  have hsucc := received_succ hread
  have hlen : (received (reads.take (k + 1))).length =
      (received (reads.take k)).length + reads[k].chunk.length := by
    rw [hsucc, List.length_append]
  have hchunk : (stream MqttPacket.bytes fs).take
      ((received (reads.take k)).length + reads[k].chunk.length) =
        (stream MqttPacket.bytes fs).take (received (reads.take k)).length ++
          reads[k].chunk := by
    rw [← hlen, take_stream_received hstream, take_stream_received hstream, hsucc]
  have hone : List.replicate k mqtterrNoerror ++ [mqtterrNoerror] =
      List.replicate (k + 1) mqtterrNoerror := List.replicate_succ'.symm
  unfold completedBy leftOver
  rw [recvAll_succ D s ctx hread, hlen]
  by_cases hlegal : Readable fs (received (reads.take k)).length
      ((received (reads.take k)).length + reads[k].chunk.length)
  · obtain ⟨hr, hcalls, hkept, hmove⟩ := recvStep_readable h hacc (hne _ hmem)
      (hroom k _ hread) hchunk hlegal
    rw [hrets, hone] at hr
    exact ⟨iff_of_true hr hlegal, fun _ => ⟨hcalls, hkept, hmove⟩⟩
  · have hr := recvStep_not_readable h hacc (hne _ hmem) (hroom k _ hread) hchunk hlegal
    refine ⟨iff_of_false (fun heq => ?_) hlegal, fun hc => absurd hc hlegal⟩
    rw [hr, hrets, ← hone] at heq
    have hcode := List.append_cancel_left heq
    simp [mqtterrIllegalPkt, mqtterrNoerror] at hcode

/-- When the stream is cut well all calls stay in step. -/
theorem inStep_of_cutOk (hpos : ctx.pos = 0) (hacc : Accepts D s fs)
    (hne : ∀ read ∈ reads, read.chunk ≠ [])
    (hstream : received reads = stream MqttPacket.bytes fs) (hroom : FitsRoom D s ctx reads)
    (hcut : CutOk fs reads) (k : ℕ) (hk : k ≤ reads.length) :
    (recvAll D s ctx (reads.take k)).rets = List.replicate k mqtterrNoerror ∧
      InStep D s ctx.buf.length fs (received (reads.take k)).length
        (recvAll D s ctx (reads.take k)) := by
  induction k with
  | zero => exact ⟨rfl, inStep_zero hpos⟩
  | succ k ih =>
      obtain ⟨hrets, hin⟩ := ih (Nat.le_of_succ_le hk)
      have hread := readable_of_short hcut.1 (received (reads.take k)).length
        (received (reads.take (k + 1))).length
      obtain ⟨hr, hrest⟩ := recvAll_step hacc hne hstream hroom hk hin hrets
      exact ⟨hr.mpr hread, (hrest hread).2.2.mpr (hcut.2 k hk)⟩

/-- When the packets are handed over all calls are in step, and what they have
completed is short. -/
theorem inStep_of_handsOver (hpos : ctx.pos = 0) (hacc : Accepts D s fs)
    (hne : ∀ read ∈ reads, read.chunk ≠ [])
    (hstream : received reads = stream MqttPacket.bytes fs) (hroom : FitsRoom D s ctx reads)
    (hover : HandsOver D s ctx fs reads) (k : ℕ) (hk : k ≤ reads.length) :
    InStep D s ctx.buf.length fs (received (reads.take k)).length
        (recvAll D s ctx (reads.take k)) ∧
      ∀ p ∈ fs.take (completed MqttPacket.bytes fs (received (reads.take k)).length),
        p.Short := by
  induction k with
  | zero =>
      have hn : (received (reads.take 0)).length = 0 := rfl
      refine ⟨inStep_zero hpos, ?_⟩
      rw [hn, completed_zero MqttPacket.bytes_ne_nil fs]
      simp
  | succ k ih =>
      obtain ⟨hin, hshort⟩ := ih (Nat.le_of_succ_le hk)
      obtain ⟨hr, hrest⟩ := recvAll_step hacc hne hstream hroom hk hin
        (hover.1 k (Nat.le_of_succ_le hk)).1
      obtain ⟨hrets, -, hbytes⟩ := hover.1 (k + 1) hk
      have hread := hr.mp hrets
      obtain ⟨hcalls, hkept, -⟩ := hrest hread
      have hlen : (recvAll D s ctx (reads.take (k + 1))).calls.length =
          completed MqttPacket.bytes fs (received (reads.take (k + 1))).length := by
        rw [hcalls, List.length_map, List.length_take,
          Nat.min_eq_left (completed_le_length _ _ _)]
      have hmono : (received (reads.take k)).length ≤
          (received (reads.take (k + 1))).length := by
        rw [received_succ (List.getElem?_eq_getElem hk), List.length_append]
        exact Nat.le_add_right _ _
      refine ⟨hkept.mpr ?_, ?_⟩
      · have hreceived := take_stream_received hstream (k + 1)
        rw [take_stream] at hreceived
        rw [hlen] at hbytes
        exact List.append_cancel_left (hbytes.trans hreceived.symm)
      · rw [← take_completed_append_arrived _ _ hmono]
        exact List.forall_mem_append.mpr ⟨hshort, hread.1⟩

/-- Exactly the well-cut streams are handed over. -/
theorem handsOver_iff_cutOk (hpos : ctx.pos = 0) (hacc : Accepts D s fs)
    (hne : ∀ read ∈ reads, read.chunk ≠ [])
    (hstream : received reads = stream MqttPacket.bytes fs) (hroom : FitsRoom D s ctx reads) :
    HandsOver D s ctx fs reads ↔ CutOk fs reads := by
  constructor
  · intro hover
    have hin := inStep_of_handsOver hpos hacc hne hstream hroom hover
    refine ⟨?_, fun k hk => ?_⟩
    · have hall := (hin reads.length le_rfl).2
      rwa [List.take_length, hstream, completed_length, List.take_length] at hall
    · obtain ⟨hr, hrest⟩ := recvAll_step hacc hne hstream hroom hk (hin k hk.le).1
        (hover.1 k hk.le).1
      exact (hrest (hr.mp (hover.1 (k + 1) hk).1)).2.2.mp (hin (k + 1) hk).1
  · intro hcut
    have hin := inStep_of_cutOk hpos hacc hne hstream hroom hcut
    refine ⟨fun k hk => ?_, ?_⟩
    · obtain ⟨hrets, h⟩ := hin k hk
      obtain ⟨hcalls, hbytes⟩ := h.handed
      exact ⟨hrets, hcalls, hbytes.trans (take_stream_received hstream k)⟩
    · have hall := (hin reads.length le_rfl).2.calls_eq
      rwa [List.take_length, hstream, completed_length, List.take_length] at hall

end Run

/-- `Mqtt_RecvPkt`, from a context as `Mqtt_InitContext` leaves it, hands over the
packets of a stream exactly when the stream is cut well. -/
theorem mqttRecvPkt_handsOver_iff {σ : Type*} (cb : MqttCallbacks σ) (s : HandlerState σ)
    (buf : List UInt8) (fs : List MqttPacket) (reads : List Read)
    (hacc : Accepts (mqttDispatcher cb) s fs) (hne : ∀ read ∈ reads, read.chunk ≠ [])
    (hstream : received reads = stream MqttPacket.bytes fs)
    (hroom : FitsRoom (mqttDispatcher cb) s (mqttInitContext buf) reads) :
    HandsOver (mqttDispatcher cb) s (mqttInitContext buf) fs reads ↔ CutOk fs reads :=
  handsOver_iff_cutOk rfl hacc hne hstream hroom

/-- Callbacks that succeed and keep nothing. -/
def quietCallbacks : MqttCallbacks Unit where
  writevFunc _ _ _ := (0, ())
  handlePingResp _ := (0, ())
  handleConnAck _ _ _ := (0, ())
  handlePublish _ _ _ _ _ _ _ := (0, ())
  handlePubAck _ _ := (0, ())
  handlePubRec _ _ := (0, ())
  handlePubRel _ _ := (0, ())
  handlePubComp _ _ := (0, ())
  handleSubAck _ _ _ _ := (0, ())
  handleUnsubAck _ _ := (0, ())
  handleCmd _ _ _ _ _ _ _ _ _ := (0, ())

/-- A heap that gives out nothing. -/
def emptyHeap : MqttHeap := ⟨fun _ => 0, [], []⟩

theorem isField_zero : IsField [0] := (isField_cons_of_lt (by decide) []).mpr rfl

theorem length_zero_le : ([0] : List UInt8).length ≤ 4 := by decide

theorem value_zero : value [0] = ([] : List UInt8).length := by decide

/-- The packet `MQTT_PKT_PINGRESP`. -/
def pingResp : MqttPacket := ⟨0xD0, [0], [], isField_zero, length_zero_le, value_zero⟩

theorem isField_two : IsField [2] := (isField_cons_of_lt (by decide) []).mpr rfl

theorem length_two_le : ([2] : List UInt8).length ≤ 4 := by decide

theorem value_two : value [2] = ([0, 0] : List UInt8).length := by decide

/-- The packet `MQTT_PKT_CONNACK` of an accepted connection. -/
def connAck : MqttPacket := ⟨0x20, [2], [0, 0], isField_two, length_two_le, value_two⟩

/-- A read with zeros behind the buffer. -/
def Read.of (chunk : List UInt8) : Read := ⟨chunk, fun _ => 0⟩

/-- Two packets in two reads, cut one byte into the second packet. -/
theorem mqttRecvPkt_handsOver_pingResp_connAck :
    HandsOver (mqttDispatcher quietCallbacks) ((), emptyHeap)
        (mqttInitContext (List.replicate 8 0)) [pingResp, connAck]
        [.of [0xD0, 0, 0x20], .of [2, 0, 0]] ↔
      CutOk [pingResp, connAck] [.of [0xD0, 0, 0x20], .of [2, 0, 0]] :=
  mqttRecvPkt_handsOver_iff quietCallbacks ((), emptyHeap) (List.replicate 8 0)
    [pingResp, connAck] [.of [0xD0, 0, 0x20], .of [2, 0, 0]]
    ⟨by decide, by decide, trivial⟩ (by decide) (by decide) (by
      intro k read hread
      match k, hread with
      | 0, h => cases h; decide
      | 1, h => cases h; decide)

/-- Three bytes of the second packet come with the first: two are moved, the third is
not, and a wrong byte of the second packet is handed over. -/
theorem mqttRecvPkt_hands_wrong_byte :
    Accepts (mqttDispatcher quietCallbacks) ((), emptyHeap) [pingResp, connAck] ∧
      received [.of [0xD0, 0, 0x20, 2, 0], .of [0]] =
        stream MqttPacket.bytes [pingResp, connAck] ∧
      FitsRoom (mqttDispatcher quietCallbacks) ((), emptyHeap)
        (mqttInitContext (List.replicate 8 0)) [.of [0xD0, 0, 0x20, 2, 0], .of [0]] ∧
      (recvAll (mqttDispatcher quietCallbacks) ((), emptyHeap)
        (mqttInitContext (List.replicate 8 0))
        [.of [0xD0, 0, 0x20, 2, 0], .of [0]]).calls = [(0xD0, []), (0x20, [0x20, 0])] ∧
      ¬ HandsOver (mqttDispatcher quietCallbacks) ((), emptyHeap)
        (mqttInitContext (List.replicate 8 0)) [pingResp, connAck]
        [.of [0xD0, 0, 0x20, 2, 0], .of [0]] := by
  have hcalls : (recvAll (mqttDispatcher quietCallbacks) ((), emptyHeap)
      (mqttInitContext (List.replicate 8 0))
      [.of [0xD0, 0, 0x20, 2, 0], .of [0]]).calls = [(0xD0, []), (0x20, [0x20, 0])] := by
    decide
  refine ⟨⟨by decide, by decide, trivial⟩, by decide, ?_, hcalls, fun hover => ?_⟩
  · intro k read hread
    match k, hread with
    | 0, h => cases h; decide
    | 1, h => cases h; decide
  · have hall := hover.2
    rw [hcalls] at hall
    exact absurd hall (by decide)

end Mqtt
