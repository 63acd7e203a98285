import Esp32AtMqtt.Gsm.Voice

/-!
# The order of the queue

Between two statements the payments that are in the queue lie in their slots, and the one that is
to be announced still does: the two threads never use the same slot, as long as no payment is taken
that is being written, and the test for a full queue is made in time (`Orderly`).

`HeardIndex` counts the payments taken, and `TailIndex` those put into the queue, modulo the number
of slots. `Ordered` says so statement by statement, and that every statement keeps it.
-/

namespace Gsm.Voice

/-! ## Indexes and slots -/

theorem toNat_succ {index : UInt8} {n : ℕ} (h : index.toNat = n % 5) :
    (index + 1).toNat = n % 5 + 1 := by
  rw [UInt8.toNat_add, h]
  show (n % 5 + 1) % 256 = n % 5 + 1
  omega

theorem toNat_wrap {index : UInt8} {n : ℕ} (h : index.toNat = n % 5 + 1) :
    (wrap index).toNat = (n + 1) % 5 := by
  rw [wrap]
  by_cases hlast : index = UInt8.ofNat maxVoiceNum
  · have hfive : n % 5 + 1 = 5 := h ▸ congrArg UInt8.toNat hlast
    rw [if_pos hlast]
    show 0 = (n + 1) % 5
    omega
  · have hfive : n % 5 + 1 ≠ 5 := fun heq => hlast (UInt8.toNat_inj.mp (h.trans heq))
    rw [if_neg hlast, h]
    omega

/-- A field that is stored has its value, and the others that had theirs keep it. -/
theorem PayField.store_store (f f' : PayField) {v slot : UserPayParam}
    (h : f' = f ∨ f'.store v slot = slot) : f'.store v (f.store v slot) = f.store v slot := by
  rcases h with rfl | h
  · cases f' <;> rfl
  · conv_rhs => rw [← h]
    cases f <;> cases f' <;> rfl

/-- When all fields have been stored the slot has the payment. -/
theorem PayField.eq_of_store {v slot : UserPayParam} (h : ∀ f : PayField, f.store v slot = slot) :
    slot = v := by
  have hall : PayField.money.store v (PayField.moneyType.store v (PayField.payType.store v
      (PayField.sellerId.store v (PayField.userId.store v slot)))) = slot := by
    rw [h .userId, h .sellerId, h .payType, h .moneyType, h .money]
  exact hall.symm

/-! ## What the statements keep -/

/-- The number of payments that are accepted and not in the queue yet. -/
def Producer.unpublished : Producer → ℕ
  | .accepted _ => 1
  | .located _ _ => 1
  | _ => 0

/-- The last payment accepted has not been written completely. -/
def Producer.Unsettled (p : Producer) : Prop := p.unpublished = 1 ∨ p.pending ≠ none

/-- The number of payments taken that have not been announced. -/
def Consumer.behind : Consumer → ℕ
  | .advanced _ => 1
  | .reading _ => 1
  | _ => 0

theorem Consumer.behind_le (c : Consumer) : c.behind ≤ 1 := by
  cases c with
  | testing => exact Nat.zero_le _
  | locating => exact Nat.zero_le _
  | taking slot => exact Nat.zero_le _
  | advanced slot => exact Nat.le_refl _
  | reading slot => exact Nat.le_refl _

/-- The payments that have been put into the queue. -/
def VoiceRun.published (s : VoiceRun) : ℕ := s.accepted.length - s.producer.unpublished

/-- The payment of `buf` has been accepted last, and is written to `slot`. -/
structure InHand (s : VoiceRun) (buf : List UInt8) (slot : ℕ) : Prop where
  last : s.accepted[s.accepted.length - 1]? = some (getData buf)
  slot : slot = (s.accepted.length - 1) % 5
  some : 0 < s.accepted.length

def Producer.Ok (s : VoiceRun) : Producer → Prop
  | .idle => s.voicePlay.tailIndex.toNat = s.accepted.length % 5
  | .entered _ => s.voicePlay.tailIndex.toNat = s.accepted.length % 5
  | .loaded _ temp =>
      s.voicePlay.tailIndex.toNat = s.accepted.length % 5 ∧
        temp.toNat = s.accepted.length % 5
  | .counted _ temp =>
      s.voicePlay.tailIndex.toNat = s.accepted.length % 5 ∧
        temp.toNat = s.accepted.length % 5 + 1
  | .testing _ temp =>
      s.voicePlay.tailIndex.toNat = s.accepted.length % 5 ∧
        temp.toNat = (s.accepted.length + 1) % 5
  | .accepted buf =>
      s.voicePlay.tailIndex.toNat = (s.accepted.length - 1) % 5 ∧
        InHand s buf ((s.accepted.length - 1) % 5)
  | .located buf slot =>
      s.voicePlay.tailIndex.toNat = (s.accepted.length - 1) % 5 ∧ InHand s buf slot
  | .advanced buf slot =>
      s.voicePlay.tailIndex.toNat = (s.accepted.length - 1) % 5 + 1 ∧ InHand s buf slot
  | .wrapped buf slot =>
      s.voicePlay.tailIndex.toNat = s.accepted.length % 5 ∧ InHand s buf slot
  | .storing buf slot fields =>
      s.voicePlay.tailIndex.toNat = s.accepted.length % 5 ∧ InHand s buf slot ∧
        ∀ v, s.voicePlay.palyParam[slot]? = some v →
          ∀ f, f ∉ fields → f.store (getData buf) v = v
  | .rejected _ => s.voicePlay.tailIndex.toNat = s.accepted.length % 5

def Consumer.Ok (s : VoiceRun) : Consumer → Prop
  | .testing => s.voicePlay.heardIndex.toNat = s.taken.length % 5
  | .locating =>
      s.voicePlay.heardIndex.toNat = s.taken.length % 5 ∧ s.taken.length < s.published
  | .taking slot =>
      s.voicePlay.heardIndex.toNat = s.taken.length % 5 ∧ s.taken.length < s.published ∧
        slot = s.taken.length % 5
  | .advanced slot =>
      s.voicePlay.heardIndex.toNat = (s.taken.length - 1) % 5 + 1 ∧ 0 < s.taken.length ∧
        slot = (s.taken.length - 1) % 5
  | .reading slot =>
      s.voicePlay.heardIndex.toNat = s.taken.length % 5 ∧ 0 < s.taken.length ∧
        slot = (s.taken.length - 1) % 5

/-- The queue between two statements. -/
structure Ordered (s : VoiceRun) : Prop where
  slots : s.voicePlay.palyParam.length = 5
  taken : s.taken <+: s.accepted
  room : s.accepted.length ≤ s.taken.length + 4
  /-- A payment is not taken before it has been written. -/
  unsettled : s.producer.Unsettled → s.taken.length < s.accepted.length
  /-- The payments in the queue are in their slots, and the one that is to be announced still. -/
  held : ∀ i, s.taken.length ≤ i + s.consumer.behind → i < s.accepted.length →
    (i + 1 = s.accepted.length → ¬ s.producer.Unsettled) →
      s.voicePlay.palyParam[i % 5]? = s.accepted[i]?
  producer : s.producer.Ok s
  consumer : s.consumer.Ok s

/-- What the consumer knows does not depend on what the producer does to slots and tail. -/
theorem Consumer.Ok.frame {s t : VoiceRun} (h : s.consumer.Ok s)
    (hconsumer : t.consumer = s.consumer)
    (hheard : t.voicePlay.heardIndex = s.voicePlay.heardIndex) (htaken : t.taken = s.taken)
    (hpublished : s.published ≤ t.published) : t.consumer.Ok t := by
  rw [hconsumer]
  cases hc : s.consumer
  all_goals
    rw [hc] at h
    simp only [Consumer.Ok] at h ⊢
    rw [hheard, htaken]
  case testing => exact h
  case locating => exact ⟨h.1, Nat.lt_of_lt_of_le h.2 hpublished⟩
  case taking => exact ⟨h.1, Nat.lt_of_lt_of_le h.2.1 hpublished, h.2.2⟩
  case advanced => exact h
  case reading => exact h

/-- What the producer knows does not depend on what the consumer does to head and history. -/
theorem Producer.Ok.frame {s t : VoiceRun} (h : s.producer.Ok s)
    (hproducer : t.producer = s.producer)
    (hslots : t.voicePlay.palyParam = s.voicePlay.palyParam)
    (htail : t.voicePlay.tailIndex = s.voicePlay.tailIndex) (haccepted : t.accepted = s.accepted) :
    t.producer.Ok t := by
  have hhand : ∀ {buf slot}, InHand s buf slot → InHand t buf slot := fun hin =>
    ⟨haccepted ▸ hin.last, haccepted ▸ hin.slot, haccepted ▸ hin.some⟩
  rw [hproducer]
  cases hp : s.producer
  all_goals
    rw [hp] at h
    simp only [Producer.Ok] at h ⊢
    rw [htail, haccepted]
  case accepted => exact ⟨h.1, hhand h.2⟩
  case located => exact ⟨h.1, hhand h.2⟩
  case advanced => exact ⟨h.1, hhand h.2⟩
  case wrapped => exact ⟨h.1, hhand h.2⟩
  case storing =>
      rw [hslots]
      exact ⟨h.1, hhand h.2.1, h.2.2⟩
  all_goals exact h

/-! ## The statements of the producer -/

section Producer

variable {deviceId : List UInt8} {stray : UserPayParam} {s t : VoiceRun}

/-- A statement that leaves the slots as they are, and accepts nothing. -/
theorem Ordered.move (h : Ordered s) (hslots : t.voicePlay.palyParam = s.voicePlay.palyParam)
    (hheard : t.voicePlay.heardIndex = s.voicePlay.heardIndex) (haccepted : t.accepted = s.accepted)
    (htaken : t.taken = s.taken) (hconsumer : t.consumer = s.consumer) (hok : t.producer.Ok t)
    (hunpublished : t.producer.unpublished ≤ s.producer.unpublished)
    (hunsettled : t.producer.Unsettled ↔ s.producer.Unsettled) : Ordered t := by
  refine ⟨?_, ?_, ?_, fun hp => ?_, ?_, hok, ?_⟩
  · rw [hslots]
    exact h.slots
  · rw [htaken, haccepted]
    exact h.taken
  · rw [htaken, haccepted]
    exact h.room
  · rw [htaken, haccepted]
    exact h.unsettled (hunsettled.mp hp)
  · rw [hslots, haccepted, htaken, hconsumer]
    exact fun i hle hlt hlast => h.held i hle hlt fun heq hp => hlast heq (hunsettled.mpr hp)
  · refine h.consumer.frame hconsumer hheard htaken ?_
    rw [VoiceRun.published, VoiceRun.published, haccepted]
    exact Nat.sub_le_sub_left hunpublished _

/-- `HeardIndex` is the number of payments taken, modulo the number of slots, except before it is
set to 0. -/
theorem Ordered.heard (h : Ordered s) :
    s.voicePlay.heardIndex.toNat = s.taken.length % 5 ∨
      s.voicePlay.heardIndex.toNat = 5 ∧ s.taken.length % 5 = 0 := by
  have hok := h.consumer
  cases hc : s.consumer with
  | testing =>
      rw [hc] at hok
      exact .inl hok
  | locating =>
      rw [hc] at hok
      exact .inl hok.1
  | taking slot =>
      rw [hc] at hok
      exact .inl hok.1
  | advanced slot =>
      rw [hc] at hok
      obtain ⟨hheard, hpos, -⟩ := hok
      omega
  | reading slot =>
      rw [hc] at hok
      exact .inl hok.1

/-- The test for a full queue, when it is made in time. -/
theorem Ordered.isFull_iff (h : Ordered s) {buf : List UInt8} {temp : UInt8}
    (hp : s.producer = .testing buf temp)
    (hok : temp = 0 → s.voicePlay.heardIndex ≠ UInt8.ofNat maxVoiceNum) :
    temp = s.voicePlay.heardIndex ↔ s.accepted.length = s.taken.length + 4 := by
  have hprod := h.producer
  rw [hp] at hprod
  obtain ⟨-, htemp⟩ := hprod
  have hroom := h.room
  have htaken := h.taken.length_le
  rw [← UInt8.toNat_inj, htemp]
  rcases h.heard with hheard | ⟨hheard, hzero⟩
  · rw [hheard]
    omega
  · have hnonzero : (s.accepted.length + 1) % 5 ≠ 0 := fun heq =>
      hok (UInt8.toNat_inj.mp (htemp.trans heq)) (UInt8.toNat_inj.mp hheard)
    rw [hheard]
    omega

/-- A request is accepted. -/
theorem Ordered.accept (h : Ordered s) {buf : List UInt8} {temp : UInt8}
    (hp : s.producer = .testing buf temp)
    (hok : temp = 0 → s.voicePlay.heardIndex ≠ UInt8.ofNat maxVoiceNum)
    (htest : temp ≠ s.voicePlay.heardIndex) (full : Bool) :
    Ordered { s with
      producer := .accepted buf, full := full, accepted := s.accepted ++ [getData buf] } := by
  have hprod := h.producer
  rw [hp] at hprod
  obtain ⟨htail, -⟩ := hprod
  have hlength : (s.accepted ++ [getData buf]).length = s.accepted.length + 1 :=
    List.length_append
  have hroom := h.room
  have hnotFull := (h.isFull_iff hp hok).not.mp htest
  refine ⟨h.slots, h.taken.trans (List.prefix_append _ _), ?_, fun _ => ?_, ?_, ?_, ?_⟩
  · show (s.accepted ++ [getData buf]).length ≤ s.taken.length + 4
    omega
  · show s.taken.length < (s.accepted ++ [getData buf]).length
    have hle := h.taken.length_le
    omega
  · intro i hle hlt hlast
    have hbefore : i < s.accepted.length := by
      by_contra hnot
      exact hlast (show i + 1 = (s.accepted ++ [getData buf]).length by
        have hi : i < (s.accepted ++ [getData buf]).length := hlt
        omega) (.inl rfl)
    have hsettled : ¬ s.producer.Unsettled := by
      rw [hp]
      exact fun hor => hor.elim Nat.zero_ne_one (fun hne => hne rfl)
    show s.voicePlay.palyParam[i % 5]? = (s.accepted ++ [getData buf])[i]?
    rw [List.getElem?_append_left hbefore]
    exact h.held i hle hbefore fun _ => hsettled
  · show s.voicePlay.tailIndex.toNat = ((s.accepted ++ [getData buf]).length - 1) % 5 ∧
      InHand _ buf (((s.accepted ++ [getData buf]).length - 1) % 5)
    rw [hlength, Nat.add_sub_cancel]
    refine ⟨htail, ?_, ?_, ?_⟩
    · show (s.accepted ++ [getData buf])[(s.accepted ++ [getData buf]).length - 1]? = _
      rw [hlength, Nat.add_sub_cancel, List.getElem?_concat_length]
    · show s.accepted.length % 5 = ((s.accepted ++ [getData buf]).length - 1) % 5
      rw [hlength, Nat.add_sub_cancel]
    · show 0 < (s.accepted ++ [getData buf]).length
      omega
  · refine h.consumer.frame rfl rfl rfl ?_
    show s.accepted.length - s.producer.unpublished ≤ (s.accepted ++ [getData buf]).length - 1
    omega

/-- A field of the payment is stored. -/
theorem Ordered.store (h : Ordered s) {buf : List UInt8} {slot : ℕ} {f : PayField}
    {fields : List PayField} (hp : s.producer = .storing buf slot (f :: fields)) :
    Ordered { s with
      producer := .storing buf slot fields
      voicePlay := { s.voicePlay with
        palyParam := s.voicePlay.palyParam.modify slot (f.store (getData buf)) } } := by
  have hprod := h.producer
  rw [hp] at hprod
  obtain ⟨htail, hhand, hstored⟩ := hprod
  have hroom := h.room
  have hunsettled : s.producer.Unsettled := by
    rw [hp]
    exact .inr (Option.some_ne_none slot)
  have hnottaken := h.unsettled hunsettled
  have hin := hhand.slot
  have hslot : slot < s.voicePlay.palyParam.length := by
    rw [h.slots]
    omega
  -- The fields stored so far are right, and stay so.
  have hstored' : ∀ v, (s.voicePlay.palyParam.modify slot (f.store (getData buf)))[slot]? = some v →
      ∀ f', f' ∉ fields → f'.store (getData buf) v = v := by
    intro v hv f' hf'
    rw [List.getElem?_modify_eq, List.getElem?_eq_getElem hslot] at hv
    have hv' : f.store (getData buf) s.voicePlay.palyParam[slot] = v := Option.some.inj hv
    rw [← hv']
    refine f.store_store f' ?_
    by_cases heq : f' = f
    · exact .inl heq
    · exact .inr (hstored _ (List.getElem?_eq_getElem hslot) f'
        fun hmem => (List.mem_cons.mp hmem).elim heq hf')
  refine ⟨?_, h.taken, h.room, fun _ => hnottaken, ?_, ⟨htail, ⟨hhand.last, hin, hhand.some⟩,
    hstored'⟩, ?_⟩
  · show (s.voicePlay.palyParam.modify slot _).length = 5
    rw [List.length_modify]
    exact h.slots
  · intro i hle hlt hlast
    show (s.voicePlay.palyParam.modify slot (f.store (getData buf)))[i % 5]? = s.accepted[i]?
    have hle' : s.taken.length ≤ i + s.consumer.behind := hle
    have hlt' : i < s.accepted.length := hlt
    have hbehind := s.consumer.behind_le
    by_cases heq : i + 1 = s.accepted.length
    · -- All fields have been stored: the slot has the payment.
      have hnil : fields = [] := by
        cases fields with
        | nil => rfl
        | cons f' fields => exact absurd (.inr (Option.some_ne_none slot)) (hlast heq)
      have hi : i = s.accepted.length - 1 := by omega
      rw [hi, hhand.last, ← hin]
      obtain ⟨v, hv⟩ : ∃ v, (s.voicePlay.palyParam.modify slot (f.store (getData buf)))[slot]? =
          some v := by
        rw [List.getElem?_modify_eq, List.getElem?_eq_getElem hslot]
        exact ⟨_, rfl⟩
      rw [hv, PayField.eq_of_store fun f' => hstored' v hv f' (hnil ▸ List.not_mem_nil)]
    · have hne : slot ≠ i % 5 := by omega
      rw [List.getElem?_modify_ne _ _ hne]
      exact h.held i hle hlt fun heq' => absurd heq' heq
  · refine h.consumer.frame rfl rfl rfl ?_
    rw [VoiceRun.published, hp]
    exact Nat.le_refl _

theorem Ordered.producerStep (h : Ordered s) (hok : Orderly s .producer)
    (hstep : producerStep deviceId stray s = some t) : Ordered t := by
  have hprod := h.producer
  unfold Voice.producerStep at hstep
  cases hp : s.producer with
  | idle =>
      rw [hp] at hstep
      exact Option.noConfusion rfl (heq_of_eq hstep)
  | entered buf =>
      simp only [hp] at hstep hprod
      rw [← Option.some.inj hstep]
      exact h.move rfl rfl rfl rfl rfl ⟨hprod, hprod⟩ (Nat.zero_le _) (by rw [hp]; exact Iff.rfl)
  | loaded buf temp =>
      simp only [hp] at hstep hprod
      rw [← Option.some.inj hstep]
      exact h.move rfl rfl rfl rfl rfl ⟨hprod.1, toNat_succ hprod.2⟩ (Nat.zero_le _)
        (by rw [hp]; exact Iff.rfl)
  | counted buf temp =>
      simp only [hp] at hstep hprod
      rw [← Option.some.inj hstep]
      exact h.move rfl rfl rfl rfl rfl ⟨hprod.1, toNat_wrap hprod.2⟩ (Nat.zero_le _)
        (by rw [hp]; exact Iff.rfl)
  | testing buf temp =>
      have htimely := hok.testing hp
      simp only [hp] at hstep hprod
      by_cases htest : temp = s.voicePlay.heardIndex
      · rw [if_pos htest] at hstep
        rw [← Option.some.inj hstep]
        exact h.move rfl rfl rfl rfl rfl hprod.1 (Nat.zero_le _) (by rw [hp]; exact Iff.rfl)
      · rw [if_neg htest] at hstep
        rw [← Option.some.inj hstep]
        exact h.accept hp htimely htest _
  | accepted buf =>
      simp only [hp] at hstep hprod
      rw [← Option.some.inj hstep]
      obtain ⟨htail, hhand⟩ := hprod
      exact h.move rfl rfl rfl rfl rfl ⟨htail, hhand.last, htail, hhand.some⟩
        (by rw [hp]; exact Nat.le_refl _) (by rw [hp]; exact Iff.rfl)
  | located buf slot =>
      simp only [hp] at hstep hprod
      rw [← Option.some.inj hstep]
      obtain ⟨htail, hhand⟩ := hprod
      refine h.move rfl rfl rfl rfl rfl ⟨toNat_succ htail, hhand.last, hhand.slot, hhand.some⟩
        (Nat.zero_le _) ?_
      rw [hp]
      exact iff_of_true (.inr (Option.some_ne_none slot)) (.inl rfl)
  | advanced buf slot =>
      simp only [hp] at hstep hprod
      rw [← Option.some.inj hstep]
      obtain ⟨htail, hhand⟩ := hprod
      have hlength : s.accepted.length - 1 + 1 = s.accepted.length :=
        Nat.succ_pred_eq_of_pos hhand.some
      exact h.move rfl rfl rfl rfl rfl
        ⟨(toNat_wrap htail).trans (by rw [hlength]), hhand.last, hhand.slot, hhand.some⟩
        (Nat.zero_le _) (by rw [hp]; exact Iff.rfl)
  | wrapped buf slot =>
      simp only [hp] at hstep hprod
      rw [← Option.some.inj hstep]
      obtain ⟨htail, hhand⟩ := hprod
      refine h.move rfl rfl rfl rfl rfl
        ⟨htail, ⟨hhand.last, hhand.slot, hhand.some⟩, fun v _ f hf => ?_⟩ (Nat.zero_le _)
        (by rw [hp]; exact Iff.rfl)
      cases f <;> exact absurd (by decide) hf
  | storing buf slot fields =>
      cases fields with
      | nil =>
          simp only [hp] at hstep hprod
          rw [← Option.some.inj hstep]
          exact h.move rfl rfl rfl rfl rfl hprod.1 (Nat.zero_le _) (by rw [hp]; exact Iff.rfl)
      | cons f fields =>
          simp only [hp] at hstep
          rw [← Option.some.inj hstep]
          exact h.store hp
  | rejected buf =>
      simp only [hp] at hstep hprod
      rw [← Option.some.inj hstep]
      exact h.move rfl rfl rfl rfl rfl hprod (Nat.zero_le _) (by rw [hp]; exact Iff.rfl)

end Producer

/-! ## The statements of the consumer -/

section Consumer

variable {s t : VoiceRun}

/-- A statement that takes nothing. -/
theorem Ordered.moveConsumer (h : Ordered s)
    (hslots : t.voicePlay.palyParam = s.voicePlay.palyParam)
    (htail : t.voicePlay.tailIndex = s.voicePlay.tailIndex) (haccepted : t.accepted = s.accepted)
    (htaken : t.taken = s.taken) (hproducer : t.producer = s.producer) (hok : t.consumer.Ok t)
    (hbehind : t.consumer.behind ≤ s.consumer.behind) : Ordered t := by
  refine ⟨?_, ?_, ?_, ?_, ?_, h.producer.frame hproducer hslots htail haccepted, hok⟩
  · rw [hslots]
    exact h.slots
  · rw [htaken, haccepted]
    exact h.taken
  · rw [htaken, haccepted]
    exact h.room
  · rw [hproducer, htaken, haccepted]
    exact h.unsettled
  · rw [hslots, haccepted, htaken, hproducer]
    exact fun i hle => h.held i (hle.trans (Nat.add_le_add_left hbehind i))

/-- No payment is in the queue, and `TailIndex` shows it, or one is. -/
theorem Ordered.tail (h : Ordered s) :
    s.voicePlay.tailIndex.toNat = s.taken.length % 5 ∨ s.taken.length < s.published := by
  have hprod := h.producer
  have hun := h.unsettled
  have hle := h.taken.length_le
  rw [VoiceRun.published]
  cases hp : s.producer
  all_goals
    rw [hp] at hprod hun
    simp only [Producer.Ok] at hprod
    simp only [Producer.unpublished]
  case accepted =>
      have hlt := hun (.inl rfl)
      omega
  case located =>
      have hlt := hun (.inl rfl)
      omega
  case advanced buf slot => exact .inr (hun (.inr (Option.some_ne_none slot)))
  all_goals omega

/-- The payment at the head of the queue is in its slot. -/
theorem Ordered.head (h : Ordered s) {slot : ℕ} (hc : s.consumer = .taking slot)
    (hok : s.producer.pending ≠ some slot) :
    s.taken.length < s.accepted.length ∧
      s.voicePlay.palyParam[slot]? = s.accepted[s.taken.length]? ∧
      (s.producer.Unsettled → s.taken.length + 1 < s.accepted.length) := by
  have hcons := h.consumer
  rw [hc] at hcons
  obtain ⟨-, hpublished, hslot⟩ := hcons
  have hbefore : s.taken.length < s.accepted.length := by
    have hle : s.published ≤ s.accepted.length := Nat.sub_le _ _
    omega
  have hlater : s.producer.Unsettled → s.taken.length + 1 < s.accepted.length := by
    rintro (hone | hpending)
    · rw [VoiceRun.published, hone] at hpublished
      omega
    · obtain ⟨slot', hslot'⟩ := Option.ne_none_iff_exists'.mp hpending
      have hin : slot' = (s.accepted.length - 1) % 5 := by
        have hprod := h.producer
        cases hp : s.producer with
        | advanced buf i =>
            rw [hp] at hprod hslot'
            exact Option.some.inj hslot' ▸ hprod.2.slot
        | wrapped buf i =>
            rw [hp] at hprod hslot'
            exact Option.some.inj hslot' ▸ hprod.2.slot
        | storing buf i fields =>
            rw [hp] at hprod hslot'
            cases fields with
            | nil => exact Option.noConfusion rfl (heq_of_eq hslot')
            | cons f fields => exact Option.some.inj hslot' ▸ hprod.2.1.slot
        | _ =>
            rw [hp] at hslot'
            exact Option.noConfusion rfl (heq_of_eq hslot')
      have hne : slot' ≠ slot := fun heq => hok (heq ▸ hslot')
      by_contra hnot
      have hlast : s.accepted.length - 1 = s.taken.length := by omega
      exact hne (by rw [hin, hlast, hslot])
  refine ⟨hbefore, ?_, hlater⟩
  rw [hslot]
  exact h.held _ (Nat.le_add_right _ _) hbefore fun heq hun => by
    have hlt := hlater hun
    omega

/-- The payment that is to be announced is still in its slot. -/
theorem Ordered.reading (h : Ordered s) {slot : ℕ} (hc : s.consumer = .reading slot) :
    s.voicePlay.palyParam[slot]? = s.taken[s.taken.length - 1]? := by
  have hcons := h.consumer
  rw [hc] at hcons
  obtain ⟨-, hpos, hslot⟩ := hcons
  have hle := h.taken.length_le
  have hlast : s.taken.length - 1 < s.taken.length := Nat.sub_lt hpos Nat.one_pos
  have hheld := h.held (s.taken.length - 1) (by rw [hc]; exact Nat.le_add_of_sub_le (Nat.le_refl _))
    (by omega) fun heq hun => by
      have hlt := h.unsettled hun
      omega
  rw [hslot, hheld]
  obtain ⟨rest, hrest⟩ := h.taken
  rw [← hrest, List.getElem?_append_left hlast]

/-- A payment is taken. -/
theorem Ordered.take (h : Ordered s) {slot : ℕ} (hc : s.consumer = .taking slot)
    (hok : s.producer.pending ≠ some slot) :
    Ordered { s with
      consumer := .advanced slot
      voicePlay := { s.voicePlay with heardIndex := s.voicePlay.heardIndex + 1 }
      taken := s.taken ++ (s.voicePlay.palyParam[slot]?).toList } := by
  have hcons := h.consumer
  rw [hc] at hcons
  obtain ⟨hheard, -, hslot⟩ := hcons
  obtain ⟨hbefore, hhead, hlater⟩ := h.head hc hok
  obtain ⟨rest, hrest⟩ := h.taken
  have htaken : s.taken ++ (s.voicePlay.palyParam[slot]?).toList =
      s.accepted.take (s.taken.length + 1) := by
    have hfront : s.accepted.take s.taken.length = s.taken := by
      rw [← hrest]
      exact List.take_left' rfl
    rw [hhead, List.getElem?_eq_getElem hbefore, List.take_succ_eq_append_getElem hbefore, hfront]
    rfl
  have hlength : (s.taken ++ (s.voicePlay.palyParam[slot]?).toList).length =
      s.taken.length + 1 := by
    rw [htaken, List.length_take]
    exact Nat.min_eq_left hbefore
  refine ⟨h.slots, ?_, ?_, fun hun => ?_, fun i hle => h.held i ?_, ?_, ?_⟩
  · show s.taken ++ (s.voicePlay.palyParam[slot]?).toList <+: s.accepted
    rw [htaken]
    exact List.take_prefix _ _
  · have hroom := h.room
    show s.accepted.length ≤ (s.taken ++ (s.voicePlay.palyParam[slot]?).toList).length + 4
    omega
  · show (s.taken ++ (s.voicePlay.palyParam[slot]?).toList).length < s.accepted.length
    rw [hlength]
    exact hlater hun
  · have hle' : (s.taken ++ (s.voicePlay.palyParam[slot]?).toList).length ≤ i + 1 := hle
    rw [hlength] at hle'
    exact (Nat.le_of_succ_le_succ hle').trans (Nat.le_add_right _ _)
  · exact h.producer.frame rfl rfl rfl rfl
  · show (s.voicePlay.heardIndex + 1).toNat =
        ((s.taken ++ (s.voicePlay.palyParam[slot]?).toList).length - 1) % 5 + 1 ∧
      0 < (s.taken ++ (s.voicePlay.palyParam[slot]?).toList).length ∧
      slot = ((s.taken ++ (s.voicePlay.palyParam[slot]?).toList).length - 1) % 5
    rw [hlength, Nat.add_sub_cancel]
    exact ⟨toNat_succ hheard, Nat.succ_pos _, hslot⟩

theorem Ordered.consumerStep (h : Ordered s) (hok : Orderly s .consumer)
    (hstep : consumerStep s = some t) : Ordered t := by
  have hcons := h.consumer
  unfold Voice.consumerStep at hstep
  cases hc : s.consumer with
  | testing =>
      simp only [hc] at hstep hcons
      by_cases htest : s.voicePlay.heardIndex = s.voicePlay.tailIndex
      · rw [if_pos htest] at hstep
        exact Option.some.inj hstep ▸ h
      · rw [if_neg htest] at hstep
        rw [← Option.some.inj hstep]
        have hwaiting : s.taken.length < s.published := h.tail.resolve_left fun heq =>
          htest (UInt8.toNat_inj.mp (hcons.trans heq.symm))
        exact h.moveConsumer rfl rfl rfl rfl rfl ⟨hcons, hwaiting⟩
          (by rw [hc]; exact Nat.le_refl _)
  | locating =>
      simp only [hc] at hstep hcons
      rw [← Option.some.inj hstep]
      exact h.moveConsumer rfl rfl rfl rfl rfl ⟨hcons.1, hcons.2, hcons.1⟩
        (by rw [hc]; exact Nat.le_refl _)
  | taking slot =>
      simp only [hc] at hstep
      rw [← Option.some.inj hstep]
      exact h.take hc (hok.taking hc)
  | advanced slot =>
      simp only [hc] at hstep hcons
      rw [← Option.some.inj hstep]
      obtain ⟨hheard, hpos, hslot⟩ := hcons
      have hlength : s.taken.length - 1 + 1 = s.taken.length := Nat.succ_pred_eq_of_pos hpos
      exact h.moveConsumer rfl rfl rfl rfl rfl
        ⟨(toNat_wrap hheard).trans (by rw [hlength]), hpos, hslot⟩
        (by rw [hc]; exact Nat.le_refl _)
  | reading slot =>
      simp only [hc] at hstep hcons
      rw [← Option.some.inj hstep]
      exact h.moveConsumer rfl rfl rfl rfl rfl hcons.1 (Nat.zero_le _)

end Consumer

end Gsm.Voice
