import Mathlib.Data.List.Basic
import Mathlib.Tactic.Common

/-!
# The receive packet list of an AT socket

`at_recvpkt_put`, `at_recvpkt_get` and their companions of `at_socket.c`. A packet
holds a delivered buffer, its length and the number of bytes already read; the list
along the `next` links of `rt_slist_t` is a `List`. A node is named by a number,
which also names the packet's buffer.

`unread` are the bytes of the list that have not been read. One call of
`at_recvpkt_get` takes the first of them (`atRecvpktGet_spec`) and frees exactly the
packets it has emptied. `PacketQueue` is a list with its history, and `Kept` its law:
what was delivered is what was returned and what is unread, and every buffer is
either freed or in the list with a byte left.
-/

namespace AtSock

/-- `struct at_recv_pkt`, with the name of its node in place of the link. -/
structure AtRecvPkt where
  node : ℕ
  bfszTotle : ℕ
  bfszIndex : ℕ
  buff : List UInt8
  deriving DecidableEq, Repr

/-- A packet in the list describes its buffer and has a byte left. -/
structure AtRecvPkt.Live (p : AtRecvPkt) : Prop where
  totle_eq : p.bfszTotle = p.buff.length
  index_lt : p.bfszIndex < p.bfszTotle

/-- The bytes of a packet that have not been read. -/
def AtRecvPkt.rest (p : AtRecvPkt) : List UInt8 := p.buff.drop p.bfszIndex

/-- The bytes of a list that have not been read. -/
def unread (rlist : List AtRecvPkt) : List UInt8 := rlist.flatMap AtRecvPkt.rest

/-- `rt_slist_remove(l, n)`. -/
def rtSlistRemove (l : List AtRecvPkt) (n : ℕ) : List AtRecvPkt := l.eraseP (·.node = n)

/-- Store `bfsz_index` in the packet with the node `n`. -/
def storeIndex (l : List AtRecvPkt) (n index : ℕ) : List AtRecvPkt :=
  l.replaceF fun p => if p.node = n then some { p with bfszIndex := index } else none

/-- `at_recvpkt_put(rlist, ptr, length)`; `calloc` says whether the packet could be
allocated, and `node` names it. The list is unchanged when it could not. -/
def atRecvpktPut (rlist : List AtRecvPkt) (calloc : Bool) (node : ℕ) (ptr : List UInt8) :
    List AtRecvPkt :=
  if calloc then rlist ++ [⟨node, ptr.length, 0, ptr⟩] else rlist

/-- `at_recvpkt_node_delete(rlist, node)`: the list left and the buffers freed. -/
def atRecvpktNodeDelete (rlist : List AtRecvPkt) (pkt : AtRecvPkt) : List AtRecvPkt × List ℕ :=
  if rlist.isEmpty then (rlist, []) else (rtSlistRemove rlist pkt.node, [pkt.node])

/-- `at_recvpkt_all_delete(rlist)`: the buffers freed. -/
def atRecvpktAllDelete (rlist : List AtRecvPkt) : List ℕ := rlist.map (·.node)

/-- What `at_recvpkt_get` returns (`content_pos`), has stored in `mem`, has left in the
list, and has freed. -/
structure RecvpktGet where
  contentPos : ℕ
  mem : List UInt8
  rlist : List AtRecvPkt
  freed : List ℕ
  deriving DecidableEq, Repr

/-- The loop of `at_recvpkt_get` over the nodes from the cursor on, whose links are
those before any node was removed. -/
def atRecvpktGetLoop (len : ℕ) : List AtRecvPkt → RecvpktGet → RecvpktGet
  | [], r => r
  | pkt :: nodes, r =>
      let pagePos := pkt.bfszTotle - pkt.bfszIndex
      if pagePos ≥ len - r.contentPos then
        let count := len - r.contentPos
        let mem := r.mem ++ (pkt.buff.drop pkt.bfszIndex).take count
        let index := pkt.bfszIndex + count
        let rlist := storeIndex r.rlist pkt.node index
        if index = pkt.bfszTotle then
          let d := atRecvpktNodeDelete rlist pkt
          ⟨len, mem, d.1, r.freed ++ d.2⟩
        else ⟨len, mem, rlist, r.freed⟩
      else
        let mem := r.mem ++ (pkt.buff.drop pkt.bfszIndex).take pagePos
        let rlist := storeIndex r.rlist pkt.node (pkt.bfszIndex + pagePos)
        let d := atRecvpktNodeDelete rlist pkt
        atRecvpktGetLoop len nodes ⟨r.contentPos + pagePos, mem, d.1, r.freed ++ d.2⟩

/-- `at_recvpkt_get(rlist, mem, len)`. -/
def atRecvpktGet (rlist : List AtRecvPkt) (len : ℕ) : RecvpktGet :=
  if rlist.isEmpty then ⟨0, [], rlist, []⟩ else atRecvpktGetLoop len rlist ⟨0, [], rlist, []⟩

@[simp] theorem unread_nil : unread [] = [] := rfl

theorem unread_cons (p : AtRecvPkt) (l : List AtRecvPkt) :
    unread (p :: l) = p.rest ++ unread l := rfl

theorem unread_append (l m : List AtRecvPkt) : unread (l ++ m) = unread l ++ unread m := by
  simp [unread]

theorem AtRecvPkt.Live.length_rest {p : AtRecvPkt} (h : p.Live) :
    p.rest.length = p.bfszTotle - p.bfszIndex := by
  rw [AtRecvPkt.rest, List.length_drop, h.totle_eq]

theorem AtRecvPkt.Live.rest_pos {p : AtRecvPkt} (h : p.Live) : 0 < p.rest.length := by
  have hlt := h.index_lt
  rw [h.length_rest]
  omega

/-- A list of live packets has something unread unless it is empty. -/
theorem unread_eq_nil_iff {l : List AtRecvPkt} (h : ∀ p ∈ l, p.Live) :
    unread l = [] ↔ l = [] := by
  cases l with
  | nil => simp
  | cons p l =>
      have hpos := (h p (by simp)).rest_pos
      simp only [unread_cons, List.append_eq_nil_iff, reduceCtorEq, iff_false, not_and]
      intro hnil
      rw [hnil] at hpos
      exact absurd hpos (by simp)

@[simp] theorem storeIndex_head (p : AtRecvPkt) (l : List AtRecvPkt) (index : ℕ) :
    storeIndex (p :: l) p.node index = { p with bfszIndex := index } :: l := by
  simp [storeIndex]

@[simp] theorem nodeDelete_head (p : AtRecvPkt) (l : List AtRecvPkt) (index : ℕ) :
    atRecvpktNodeDelete ({ p with bfszIndex := index } :: l) p = (l, [p.node]) := by
  simp [atRecvpktNodeDelete, rtSlistRemove]

/-- What a call of `at_recvpkt_get` leaves behind, from the list `l` on: the bytes
taken are the first unread ones, and the packets freed are those in front of the list
that is left. -/
structure GetOk (l : List AtRecvPkt) (len : ℕ) (mem : List UInt8) (left : List AtRecvPkt)
    (freed : List ℕ) : Prop where
  mem_eq : mem = (unread l).take len
  unread_left : unread left = (unread l).drop len
  live_left : ∀ p ∈ left, p.Live
  nodes_eq : freed ++ left.map (·.node) = l.map (·.node)
  buffers_left : ∀ p ∈ left, ∃ q ∈ l, p.node = q.node ∧ p.buff = q.buff

/-- The loop, when it stands at the head of the list that is left. Every packet it
leaves behind is deleted, so it always does. -/
theorem atRecvpktGetLoop_spec {l : List AtRecvPkt} (h : ∀ p ∈ l, p.Live) :
    ∀ (len pos : ℕ) (mem : List UInt8) (freed : List ℕ), pos < len →
      ∃ mem' freed' left, atRecvpktGetLoop len l ⟨pos, mem, l, freed⟩ =
          ⟨pos + mem'.length, mem ++ mem', left, freed ++ freed'⟩ ∧
        GetOk l (len - pos) mem' left freed' := by
  induction l with
  | nil =>
      intro len pos mem freed _
      exact ⟨[], [], [], by simp [atRecvpktGetLoop], by simp, by simp, by simp, by simp, by simp⟩
  | cons p l ih =>
      intro len pos mem freed hpos
      have hp : p.Live := h p (by simp)
      have hlen := hp.length_rest
      have hlt := hp.index_lt
      rw [atRecvpktGetLoop]
      by_cases hge : p.bfszTotle - p.bfszIndex ≥ len - pos
      · -- the read ends inside this packet, or exactly at its end
        have htake : (unread (p :: l)).take (len - pos) = p.rest.take (len - pos) := by
          rw [unread_cons, List.take_append_of_le_length (by omega)]
        have hdrop : (unread (p :: l)).drop (len - pos) =
            p.rest.drop (len - pos) ++ unread l := by
          rw [unread_cons, List.drop_append_of_le_length (by omega)]
        have hcount : (p.rest.take (len - pos)).length = len - pos := by
          rw [List.length_take, Nat.min_eq_left (by omega)]
        have hend : pos + (p.rest.take (len - pos)).length = len := by omega
        simp only [if_pos hge, storeIndex_head]
        by_cases hlast : p.bfszIndex + (len - pos) = p.bfszTotle
        · have hall : p.rest.drop (len - pos) = [] := List.drop_of_length_le (by omega)
          refine ⟨p.rest.take (len - pos), [p.node], l, ?_, htake.symm, ?_,
            fun q hq => h q (by simp [hq]), rfl, fun q hq => ⟨q, by simp [hq], rfl, rfl⟩⟩
          · rw [if_pos hlast, nodeDelete_head, hend]
            rfl
          · rw [hdrop, hall, List.nil_append]
        · refine ⟨p.rest.take (len - pos), [],
            { p with bfszIndex := p.bfszIndex + (len - pos) } :: l, ?_, htake.symm, ?_, ?_, rfl, ?_⟩
          · rw [if_neg hlast, hend, List.append_nil]
            rfl
          · rw [hdrop, unread_cons, AtRecvPkt.rest, AtRecvPkt.rest, List.drop_drop]
          · refine List.forall_mem_cons.mpr ⟨⟨hp.totle_eq, ?_⟩, fun q hq => h q (by simp [hq])⟩
            show p.bfszIndex + (len - pos) < p.bfszTotle
            omega
          · refine List.forall_mem_cons.mpr ⟨⟨p, by simp, rfl, rfl⟩, fun q hq => ?_⟩
            exact ⟨q, by simp [hq], rfl, rfl⟩
      · -- the whole rest of this packet is taken
        have hrest : p.rest.take (p.bfszTotle - p.bfszIndex) = p.rest := by
          rw [← hlen, List.take_length]
        obtain ⟨mem', freed', left, hloop, hok⟩ := ih (fun q hq => h q (by simp [hq]))
          len (pos + (p.bfszTotle - p.bfszIndex)) (mem ++ p.rest)
          (freed ++ [p.node]) (by omega)
        simp only [if_neg hge, storeIndex_head, nodeDelete_head]
        have hsplit : len - (pos + (p.bfszTotle - p.bfszIndex)) =
            len - pos - p.rest.length := by omega
        refine ⟨p.rest ++ mem', p.node :: freed', left, ?_, ?_, ?_, hok.live_left, ?_, ?_⟩
        · have hbytes : (p.buff.drop p.bfszIndex).take (p.bfszTotle - p.bfszIndex) = p.rest := hrest
          rw [hbytes, hloop, List.length_append, hlen]
          simp [Nat.add_assoc]
        · rw [unread_cons, List.take_append, List.take_of_length_le (by omega), ← hsplit,
            ← hok.mem_eq]
        · rw [unread_cons, List.drop_append, List.drop_of_length_le (by omega), ← hsplit,
            List.nil_append, hok.unread_left]
        · rw [List.cons_append, hok.nodes_eq, List.map_cons]
        · intro q hq
          obtain ⟨q', hq', heq⟩ := hok.buffers_left q hq
          exact ⟨q', by simp [hq'], heq⟩

/-- A call of `at_recvpkt_get` on a list of live packets. -/
theorem atRecvpktGet_spec {l : List AtRecvPkt} (h : ∀ p ∈ l, p.Live) {len : ℕ}
    (hlen : 0 < len) :
    (atRecvpktGet l len).contentPos = (atRecvpktGet l len).mem.length ∧
      GetOk l len (atRecvpktGet l len).mem (atRecvpktGet l len).rlist
        (atRecvpktGet l len).freed := by
  cases l with
  | nil => exact ⟨rfl, by simp [atRecvpktGet], by simp [atRecvpktGet], by simp [atRecvpktGet],
      by simp [atRecvpktGet], by simp [atRecvpktGet]⟩
  | cons p l =>
      obtain ⟨mem, freed, left, hloop, hok⟩ := atRecvpktGetLoop_spec h len 0 [] [] hlen
      have hget : atRecvpktGet (p :: l) len = ⟨mem.length, mem, left, freed⟩ := by
        simpa [atRecvpktGet] using hloop
      rw [hget]
      exact ⟨rfl, hok⟩

/-- A receive list with what was delivered to it, what was returned from it, and the
buffers freed. The buffers are named in the order of delivery. -/
structure PacketQueue where
  rlist : List AtRecvPkt
  delivered : List (List UInt8)
  returned : List UInt8
  freed : List ℕ

namespace PacketQueue

/-- A buffer is delivered. -/
def put (q : PacketQueue) (calloc : Bool) (buff : List UInt8) : PacketQueue :=
  { q with
    rlist := atRecvpktPut q.rlist calloc q.delivered.length buff
    delivered := q.delivered ++ [buff] }

/-- Up to `len` bytes are read. -/
def get (q : PacketQueue) (len : ℕ) : PacketQueue :=
  let g := atRecvpktGet q.rlist len
  { q with
    rlist := g.rlist
    returned := q.returned ++ if 0 < g.contentPos then g.mem else []
    freed := q.freed ++ g.freed }

/-- The law of the queue. -/
structure Kept (q : PacketQueue) : Prop where
  live : ∀ p ∈ q.rlist, p.Live
  bytes : q.delivered.flatten = q.returned ++ unread q.rlist
  nodes : q.freed ++ q.rlist.map (·.node) = List.range q.delivered.length
  buffers : ∀ p ∈ q.rlist, q.delivered[p.node]? = some p.buff

theorem kept_empty : Kept ⟨[], [], [], []⟩ := ⟨by simp, rfl, rfl, by simp⟩

theorem Kept.put {q : PacketQueue} (h : q.Kept) {buff : List UInt8} (hne : buff ≠ []) :
    (q.put true buff).Kept := by
  have hpos : 0 < buff.length := List.length_pos_iff.mpr hne
  refine ⟨?_, ?_, ?_, ?_⟩
  · exact List.forall_mem_append.mpr ⟨h.live, List.forall_mem_singleton.mpr ⟨rfl, hpos⟩⟩
  · show (q.delivered ++ [buff]).flatten = q.returned ++ unread (q.rlist ++ [_])
    rw [List.flatten_append, h.bytes, unread_append, List.append_assoc]
    simp [unread, AtRecvPkt.rest]
  · show q.freed ++ (q.rlist ++ [_]).map AtRecvPkt.node =
      List.range (q.delivered ++ [buff]).length
    rw [List.map_append, ← List.append_assoc, h.nodes, List.length_append, List.length_singleton,
      List.range_succ]
    rfl
  · refine List.forall_mem_append.mpr ⟨fun p hp => ?_, List.forall_mem_singleton.mpr (by
      simp [PacketQueue.put])⟩
    have hbuff := h.buffers p hp
    obtain ⟨hlt, -⟩ := List.getElem?_eq_some_iff.mp hbuff
    show (q.delivered ++ [buff])[p.node]? = some p.buff
    rw [List.getElem?_append_left hlt, hbuff]

theorem Kept.get {q : PacketQueue} (h : q.Kept) {len : ℕ} (hlen : 0 < len) :
    (q.get len).Kept := by
  obtain ⟨hpos, hok⟩ := atRecvpktGet_spec h.live hlen
  refine ⟨hok.live_left, ?_, ?_, fun p hp => ?_⟩
  · have hmem : (if 0 < (atRecvpktGet q.rlist len).contentPos then
        (atRecvpktGet q.rlist len).mem else []) = (atRecvpktGet q.rlist len).mem := by
      rw [hpos]
      split_ifs with hz
      · rfl
      · exact (List.length_eq_zero_iff.mp (by omega)).symm
    show q.delivered.flatten = (q.returned ++ ite _ _ _) ++ unread (atRecvpktGet q.rlist len).rlist
    rw [hmem, hok.mem_eq, hok.unread_left, List.append_assoc, List.take_append_drop, h.bytes]
  · show (q.freed ++ _) ++ (atRecvpktGet q.rlist len).rlist.map AtRecvPkt.node =
      List.range q.delivered.length
    rw [List.append_assoc, hok.nodes_eq, h.nodes]
  · obtain ⟨p', hp', hnode, hbuff⟩ := hok.buffers_left p hp
    show q.delivered[p.node]? = some p.buff
    rw [hnode, hbuff, h.buffers p' hp']

end PacketQueue

end AtSock
