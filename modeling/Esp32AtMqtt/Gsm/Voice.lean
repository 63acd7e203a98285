import Esp32AtMqtt.Gsm.Dispatch

/-!
# The queue of payments to be announced

`TLV_GetParam` puts the payment of a request into the queue and answers it, `VoicePlayHandle`
takes the next payment out and announces it. They run in two threads, and any statement of the one
may come between two of the other.

The index is moved on before the slot is written, and before the slot is read. The first lets a
payment be taken that has not been written yet; the second is made up for by the slot that always
stays free. An index is beyond the last slot until the statement that sets it to 0, and the test
for a full queue can see that.

The run has a history: the payments accepted, the payments as they were in their slots when they
were taken, the sums announced, and the replies.
-/

namespace Gsm.Voice

/-- `MAXVOICENUM`. -/
def maxVoiceNum : ℕ := 5

/-- `stUserPayParam`. -/
structure UserPayParam where
  money : UInt32
  moneyType : UInt8
  payType : UInt8
  userId : UInt32
  sellerId : UInt32
  deriving DecidableEq, Repr

/-- `stVoicePaly`. -/
structure VoicePlay where
  palyParam : List UserPayParam
  heardIndex : UInt8
  tailIndex : UInt8
  deriving DecidableEq, Repr

/-- The four bytes from `i` on, as a number. -/
def le32 (buf : List UInt8) (i : ℕ) : UInt32 :=
  (buf.getD i 0).toUInt32 ||| (buf.getD (i + 1) 0).toUInt32 <<< 8 |||
    (buf.getD (i + 2) 0).toUInt32 <<< 16 ||| (buf.getD (i + 3) 0).toUInt32 <<< 24

/-- `GetData->UserPayParam`, with `GetData` at `buf`. -/
def getData (buf : List UInt8) : UserPayParam where
  money := le32 buf 8
  moneyType := buf.getD 12 0
  payType := buf.getD 13 0
  userId := le32 buf 14
  sellerId := le32 buf 18

/-- The bytes of a number. -/
def le16Bytes (v : UInt16) : List UInt8 := [v.toUInt8, (v >>> 8).toUInt8]
def le32Bytes (v : UInt32) : List UInt8 :=
  [v.toUInt8, (v >>> 8).toUInt8, (v >>> 16).toUInt8, (v >>> 24).toUInt8]

def UserPayParam.bytes (p : UserPayParam) : List UInt8 :=
  le32Bytes p.money ++ [p.moneyType, p.payType] ++ le32Bytes p.userId ++ le32Bytes p.sellerId

/-- `stSENTPARAM`. -/
structure SentParam where
  proTocolHeard : UInt16
  proTocolLen : UInt16
  proTocolOrder : UInt16
  proTocolStation : UInt16
  simId : List UInt8
  userPayParamBack : UserPayParam
  proTocolCheckSum : UInt8
  proTocolTail : UInt16
  deriving DecidableEq, Repr

/-- The reply, with `back` what is read through `GetData`. -/
def sentParam (deviceId : List UInt8) (successMark : UInt8) (back : UserPayParam) : SentParam :=
  let station : UInt16 := if successMark = 1 then 0x0100 else 0x0000
  let summed := le16Bytes 0x1A00 ++ le16Bytes 0x0700 ++ le16Bytes station ++ deviceId.take 8 ++
    back.bytes
  { proTocolHeard := 0x7A64
    proTocolLen := 0x1A00
    proTocolOrder := 0x0700
    proTocolStation := station
    simId := deviceId.take 8
    userPayParamBack := back
    proTocolCheckSum := checkSum (summed.take 0x1C)
    proTocolTail := 0x647A }

/-- The fields of a payment, in the order in which they are stored. -/
inductive PayField
  | money
  | moneyType
  | payType
  | sellerId
  | userId
  deriving DecidableEq, Repr

def PayField.all : List PayField := [.money, .moneyType, .payType, .sellerId, .userId]

/-- `pVoicePlayTemp->f = GetData->UserPayParam.f`. -/
def PayField.store (f : PayField) (v slot : UserPayParam) : UserPayParam :=
  match f with
  | .money => { slot with money := v.money }
  | .moneyType => { slot with moneyType := v.moneyType }
  | .payType => { slot with payType := v.payType }
  | .sellerId => { slot with sellerId := v.sellerId }
  | .userId => { slot with userId := v.userId }

/-- The next statement of `TLV_GetParam` for the request in `buf`, with its variables. -/
inductive Producer
  | idle
  /-- `Temp = VoicePlay.TailIndex` -/
  | entered (buf : List UInt8)
  /-- `Temp++` -/
  | loaded (buf : List UInt8) (temp : UInt8)
  /-- `if(Temp == MAXVOICENUM) Temp = 0` -/
  | counted (buf : List UInt8) (temp : UInt8)
  /-- `if(Temp == VoicePlay.HeardIndex)` -/
  | testing (buf : List UInt8) (temp : UInt8)
  /-- `pVoicePlayTemp = &VoicePlay.PalyParam[VoicePlay.TailIndex]` -/
  | accepted (buf : List UInt8)
  /-- `VoicePlay.TailIndex++` -/
  | located (buf : List UInt8) (slot : ℕ)
  /-- `if(VoicePlay.TailIndex == MAXVOICENUM) VoicePlay.TailIndex = 0` -/
  | advanced (buf : List UInt8) (slot : ℕ)
  /-- `GetData = (pGetData)GSM_TransparentRX.pRXBuf` -/
  | wrapped (buf : List UInt8) (slot : ℕ)
  /-- The stores of `fields`, and then the reply. -/
  | storing (buf : List UInt8) (slot : ℕ) (fields : List PayField)
  /-- The reply, with `SuccessMark` 1 and nothing in `GetData`. -/
  | rejected (buf : List UInt8)
  deriving DecidableEq, Repr

/-- The next statement of `VoicePlayHandle`, with its variable. -/
inductive Consumer
  /-- `if(VoicePlay.HeardIndex == VoicePlay.TailIndex) return` -/
  | testing
  /-- `pVoicePlayData = &VoicePlay.PalyParam[VoicePlay.HeardIndex]` -/
  | locating
  /-- `VoicePlay.HeardIndex++` -/
  | taking (slot : ℕ)
  /-- `if(VoicePlay.HeardIndex == MAXVOICENUM) VoicePlay.HeardIndex = 0` -/
  | advanced (slot : ℕ)
  /-- `Money = pVoicePlayData->Money`, and the announcement. -/
  | reading (slot : ℕ)
  deriving DecidableEq, Repr

/-- A request that has been answered: whether the queue was full when that was tested, the slots
and `TailIndex` when `TLV_GetParam` was called and when it answered, and the reply. -/
structure Reply where
  request : UserPayParam
  full : Bool
  before : List UserPayParam × UInt8
  behind : List UserPayParam × UInt8
  sent : SentParam
  deriving DecidableEq, Repr

/-- The queue, the two threads, and the history. -/
structure VoiceRun where
  voicePlay : VoicePlay
  producer : Producer
  consumer : Consumer
  accepted : List UserPayParam
  taken : List UserPayParam
  announced : List UInt32
  before : List UserPayParam × UInt8
  full : Bool
  replies : List Reply
  deriving DecidableEq, Repr

/-- Both indexes are 0. -/
def VoiceRun.init (palyParam : List UserPayParam) : VoiceRun :=
  ⟨⟨palyParam, 0, 0⟩, .idle, .testing, [], [], [], (palyParam, 0), false, []⟩

/-- The slots and `TailIndex`. -/
def VoicePlay.tail (v : VoicePlay) : List UserPayParam × UInt8 := (v.palyParam, v.tailIndex)

/-- All slots but one are taken. -/
def VoiceRun.isFull (s : VoiceRun) : Bool := s.accepted.length = s.taken.length + (maxVoiceNum - 1)

/-- An index is set to 0 when it is behind the last slot. -/
def wrap (index : UInt8) : UInt8 := if index = UInt8.ofNat maxVoiceNum then 0 else index

section Step

variable (deviceId : List UInt8) (stray : UserPayParam)

/-- The next statement of `TLV_GetParam`. What a `GetData` leads to that has not been set is
`stray`. -/
def producerStep (s : VoiceRun) : Option VoiceRun :=
  match s.producer with
  | .idle => none
  | .entered buf => some { s with producer := .loaded buf s.voicePlay.tailIndex }
  | .loaded buf temp => some { s with producer := .counted buf (temp + 1) }
  | .counted buf temp => some { s with producer := .testing buf (wrap temp) }
  | .testing buf temp =>
      if temp = s.voicePlay.heardIndex then
        some { s with producer := .rejected buf, full := s.isFull }
      else
        some { s with
          producer := .accepted buf, full := s.isFull, accepted := s.accepted ++ [getData buf] }
  | .accepted buf => some { s with producer := .located buf s.voicePlay.tailIndex.toNat }
  | .located buf slot =>
      some { s with
        producer := .advanced buf slot
        voicePlay := { s.voicePlay with tailIndex := s.voicePlay.tailIndex + 1 } }
  | .advanced buf slot =>
      some { s with
        producer := .wrapped buf slot
        voicePlay := { s.voicePlay with tailIndex := wrap s.voicePlay.tailIndex } }
  | .wrapped buf slot => some { s with producer := .storing buf slot PayField.all }
  | .storing buf slot (f :: fields) =>
      some { s with
        producer := .storing buf slot fields
        voicePlay := { s.voicePlay with
          palyParam := s.voicePlay.palyParam.modify slot (f.store (getData buf)) } }
  | .storing buf _ [] =>
      some { s with
        producer := .idle
        replies := s.replies ++ [⟨getData buf, s.full, s.before, s.voicePlay.tail,
          sentParam deviceId 0 (getData buf)⟩] }
  | .rejected buf =>
      some { s with
        producer := .idle
        replies := s.replies ++ [⟨getData buf, s.full, s.before, s.voicePlay.tail,
          sentParam deviceId 1 stray⟩] }

/-- The next statement of `VoicePlayHandle`. -/
def consumerStep (s : VoiceRun) : Option VoiceRun :=
  match s.consumer with
  | .testing =>
      if s.voicePlay.heardIndex = s.voicePlay.tailIndex then some s
      else some { s with consumer := .locating }
  | .locating => some { s with consumer := .taking s.voicePlay.heardIndex.toNat }
  | .taking slot =>
      some { s with
        consumer := .advanced slot
        voicePlay := { s.voicePlay with heardIndex := s.voicePlay.heardIndex + 1 }
        taken := s.taken ++ (s.voicePlay.palyParam[slot]?).toList }
  | .advanced slot =>
      some { s with
        consumer := .reading slot
        voicePlay := { s.voicePlay with heardIndex := wrap s.voicePlay.heardIndex } }
  | .reading slot =>
      some { s with
        consumer := .testing
        announced := s.announced ++ ((s.voicePlay.palyParam[slot]?).map (·.money)).toList }

/-- A request in `buf` is handed to `TLV_GetParam`, or one of the threads goes on. -/
inductive VoiceAction
  | request (buf : List UInt8)
  | producer
  | consumer
  deriving DecidableEq, Repr

def voiceStep (s : VoiceRun) : VoiceAction → Option VoiceRun
  | .request buf =>
      match s.producer with
      | .idle => some { s with producer := .entered buf, before := s.voicePlay.tail }
      | _ => none
  | .producer => producerStep deviceId stray s
  | .consumer => consumerStep s

end Step

/-- The slot that is in the queue already and has not been written completely. -/
def Producer.pending : Producer → Option ℕ
  | .advanced _ slot => some slot
  | .wrapped _ slot => some slot
  | .storing _ slot (_ :: _) => some slot
  | _ => none

/-- The `Temp` that is compared with `HeardIndex` next. -/
def Producer.tests : Producer → Option UInt8
  | .testing _ temp => some temp
  | _ => none

/-- `TailIndex` moves on next. -/
def Producer.advances : Producer → Bool
  | .located _ _ => true
  | _ => false

/-- The slot that is taken next. -/
def Consumer.takes : Consumer → Option ℕ
  | .taking slot => some slot
  | _ => none

/-- No payment is taken that is being written, and the queue is not tested for the last slot while
the other thread has yet to set its index to 0. -/
def Orderly (s : VoiceRun) : VoiceAction → Prop
  | .request _ => True
  | .producer =>
      s.producer.tests = some 0 → s.voicePlay.heardIndex ≠ UInt8.ofNat maxVoiceNum
  | .consumer => s.consumer.takes ≠ none → s.producer.pending ≠ s.consumer.takes

/-- The queue has room for a request. -/
def Roomy (s : VoiceRun) : VoiceAction → Prop
  | .request _ => True
  | .producer => s.producer.tests ≠ some s.voicePlay.heardIndex
  | .consumer => True

/-- No index moves on from the last slot. -/
def Inner (s : VoiceRun) : VoiceAction → Prop
  | .request _ => True
  | .producer => s.producer.advances = true → s.voicePlay.tailIndex.toNat + 1 < maxVoiceNum
  | .consumer => s.consumer.takes ≠ none → s.voicePlay.heardIndex.toNat + 1 < maxVoiceNum

instance (s : VoiceRun) : ∀ a : VoiceAction, Decidable (Orderly s a)
  | .request _ => isTrue trivial
  | .producer => inferInstanceAs (Decidable (_ → _))
  | .consumer => inferInstanceAs (Decidable (_ → _))

instance (s : VoiceRun) : ∀ a : VoiceAction, Decidable (Roomy s a)
  | .request _ => isTrue trivial
  | .producer => inferInstanceAs (Decidable (_ ≠ _))
  | .consumer => isTrue trivial

instance (s : VoiceRun) : ∀ a : VoiceAction, Decidable (Inner s a)
  | .request _ => isTrue trivial
  | .producer => inferInstanceAs (Decidable (_ → _))
  | .consumer => inferInstanceAs (Decidable (_ → _))

theorem Orderly.testing {s : VoiceRun} (h : Orderly s .producer) {buf : List UInt8} {temp : UInt8}
    (hp : s.producer = .testing buf temp) (hzero : temp = 0) :
    s.voicePlay.heardIndex ≠ UInt8.ofNat maxVoiceNum :=
  h (by rw [hp, hzero]; rfl)

theorem Orderly.taking {s : VoiceRun} (h : Orderly s .consumer) {slot : ℕ}
    (hc : s.consumer = .taking slot) : s.producer.pending ≠ some slot := by
  have htakes : s.consumer.takes = some slot := by
    rw [hc]
    rfl
  rw [← htakes]
  exact h (by rw [htakes]; exact Option.some_ne_none slot)

/-- The payment that has been accepted, and not been answered yet. -/
def Producer.inHand : Producer → List UserPayParam
  | .accepted buf => [getData buf]
  | .located buf _ => [getData buf]
  | .advanced buf _ => [getData buf]
  | .wrapped buf _ => [getData buf]
  | .storing buf _ _ => [getData buf]
  | _ => []

/-- Payments are taken as they were accepted, completely written, in order and once each, and the
sums announced are theirs; a request is turned down exactly when the queue is full, and leaves it
as it is; the replies say which payments were accepted. -/
structure Fifo (s : VoiceRun) : Prop where
  taken : s.taken <+: s.accepted
  announced : s.announced <+: s.taken.map (·.money)
  full : ∀ r ∈ s.replies, r.full = true → r.behind = r.before
  status : ∀ r ∈ s.replies, r.sent.proTocolStation = if r.full then 0x0100 else 0x0000
  accepted : s.accepted =
    (s.replies.filter fun r => r.sent.proTocolStation = 0).map (·.request) ++ s.producer.inHand

/-- Every reply has the payment of its request. -/
def Echoed (s : VoiceRun) : Prop := ∀ r ∈ s.replies, r.sent.userPayParamBack = r.request

/-- Both indexes are in range. -/
def Bounded (s : VoiceRun) : Prop :=
  s.voicePlay.heardIndex.toNat < maxVoiceNum ∧ s.voicePlay.tailIndex.toNat < maxVoiceNum

end Gsm.Voice
