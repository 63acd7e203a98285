import Esp32AtMqtt.Gsm.VoiceOrder
import Esp32AtMqtt.Transition.Run

/-!
# What the queue has done

`Told` relates the history to the position of the two threads. With `Ordered` it gives `Fifo` for
runs that are `Orderly`; that the replies have the payments of their requests, and that the indexes
are in range, needs more (`Roomy`, `Inner`).
-/

namespace Gsm.Voice

open Transition

section History

variable {deviceId : List UInt8} {stray : UserPayParam} {s t : VoiceRun}

/-- A reply says whether its request was accepted, and a full queue has been left as it was. -/
structure Reply.Right (r : Reply) : Prop where
  full : r.full = true → r.behind = r.before
  status : r.sent.proTocolStation = if r.full then 0x0100 else 0x0000

/-- The history between two statements. -/
structure Told (s : VoiceRun) : Prop where
  announced :
    s.announced = (s.taken.take (s.taken.length - s.consumer.behind)).map (·.money)
  kept : s.producer.inHand = [] → s.producer ≠ .idle → s.voicePlay.tail = s.before
  rejected : ∀ buf, s.producer = .rejected buf → s.full = true
  room : s.producer.inHand ≠ [] → s.full = false
  right : ∀ r ∈ s.replies, r.Right
  accepted : s.accepted =
    (s.replies.filter fun r => r.sent.proTocolStation = 0).map (·.request) ++ s.producer.inHand

/-- A statement that neither accepts nor answers a request. -/
theorem Told.move (h : Told s) (hannounced : t.announced = s.announced)
    (htaken : t.taken = s.taken) (hbehind : t.consumer = s.consumer) (hfull : t.full = s.full)
    (hreplies : t.replies = s.replies) (haccepted : t.accepted = s.accepted)
    (hhand : t.producer.inHand = s.producer.inHand) (hnot : ∀ buf, t.producer ≠ .rejected buf)
    (hkept : t.producer.inHand = [] → t.voicePlay.tail = t.before) : Told t where
  announced := by rw [hannounced, htaken, hbehind]; exact h.announced
  kept hnil _ := hkept hnil
  rejected buf hp := absurd hp (hnot buf)
  room hne := by rw [hfull]; exact h.room (hhand ▸ hne)
  right := hreplies ▸ h.right
  accepted := by rw [haccepted, hreplies, hhand]; exact h.accepted

theorem filter_map_snoc (replies : List Reply) (r : Reply) :
    ((replies ++ [r]).filter fun r => r.sent.proTocolStation = 0).map (·.request) =
      (replies.filter fun r => r.sent.proTocolStation = 0).map (·.request) ++
        if r.sent.proTocolStation = 0 then [r.request] else [] := by
  rw [List.filter_append, List.map_append]
  by_cases h : r.sent.proTocolStation = 0
  · have hone : [r].filter (fun r => decide (r.sent.proTocolStation = 0)) = [r] :=
      List.filter_cons_of_pos (decide_eq_true h)
    rw [if_pos h, hone]
    rfl
  · have hnone : [r].filter (fun r => decide (r.sent.proTocolStation = 0)) = [] :=
      List.filter_cons_of_neg fun hyes => h (of_decide_eq_true hyes)
    rw [if_neg h, hnone]
    rfl

/-- A request is answered. -/
theorem Told.answer (h : Told s) {r : Reply} (hright : r.Right)
    (hhand : s.producer.inHand = if r.sent.proTocolStation = 0 then [r.request] else []) :
    Told { s with producer := .idle, replies := s.replies ++ [r] } where
  announced := h.announced
  kept _ hne := absurd rfl hne
  rejected buf hp := Producer.noConfusion hp
  room hne := absurd rfl hne
  right := List.forall_mem_append.mpr ⟨h.right, List.forall_mem_singleton.mpr hright⟩
  accepted := by
    show s.accepted = ((s.replies ++ [r]).filter _).map (·.request) ++ []
    rw [filter_map_snoc, List.append_nil, ← hhand]
    exact h.accepted

theorem Told.producerStep (hordered : Ordered s) (h : Told s) (hok : Orderly s .producer)
    (hstep : producerStep deviceId stray s = some t) : Told t := by
  have hkept := h.kept
  have hroom := h.room
  unfold Voice.producerStep at hstep
  cases hp : s.producer with
  | idle =>
      rw [hp] at hstep
      exact Option.noConfusion rfl (heq_of_eq hstep)
  | entered buf | loaded buf temp | counted buf temp =>
      simp only [hp] at hstep
      rw [hp] at hkept
      rw [← Option.some.inj hstep]
      exact h.move rfl rfl rfl rfl rfl rfl (by rw [hp]; rfl) (fun _ => Producer.noConfusion)
        fun hnil => hkept hnil Producer.noConfusion
  | testing buf temp =>
      have hfull := hordered.isFull_iff hp (hok.testing hp)
      have haccepted := h.accepted
      simp only [hp] at hstep
      rw [hp] at hkept haccepted
      by_cases htest : temp = s.voicePlay.heardIndex
      · rw [if_pos htest] at hstep
        rw [← Option.some.inj hstep]
        refine ⟨h.announced, fun _ _ => hkept rfl Producer.noConfusion, fun _ _ => ?_,
          fun hne => absurd rfl hne, h.right, haccepted⟩
        exact decide_eq_true (hfull.mp htest)
      · rw [if_neg htest] at hstep
        rw [← Option.some.inj hstep]
        refine ⟨h.announced, fun hnil => absurd hnil (List.cons_ne_nil _ _),
          fun _ => Producer.noConfusion, fun _ => ?_, h.right, ?_⟩
        · exact decide_eq_false fun heq => htest (hfull.mpr heq)
        · show s.accepted ++ [getData buf] = _ ++ [getData buf]
          rw [haccepted]
          exact congrArg (· ++ [getData buf]) (List.append_nil _)
  | accepted buf | located buf slot | advanced buf slot | wrapped buf slot =>
      simp only [hp] at hstep
      rw [← Option.some.inj hstep]
      exact h.move rfl rfl rfl rfl rfl rfl (by rw [hp]; rfl) (fun _ => Producer.noConfusion)
        fun hnil => absurd hnil (List.cons_ne_nil _ _)
  | storing buf slot fields =>
      cases fields with
      | nil =>
          simp only [hp] at hstep
          rw [hp] at hroom
          have hfull : s.full = false := hroom (List.cons_ne_nil _ _)
          rw [← Option.some.inj hstep]
          refine h.answer ⟨fun hyes => ?_, ?_⟩ (by rw [hp]; rfl)
          · exact absurd (hfull.symm.trans hyes) Bool.false_ne_true
          · show _ = if s.full = true then _ else _
            rw [hfull]
            rfl
      | cons f fields =>
          simp only [hp] at hstep
          rw [← Option.some.inj hstep]
          exact h.move rfl rfl rfl rfl rfl rfl (by rw [hp]; rfl) (fun _ => Producer.noConfusion)
            fun hnil => absurd hnil (List.cons_ne_nil _ _)
  | rejected buf =>
      simp only [hp] at hstep
      rw [hp] at hkept
      have hfull := h.rejected buf hp
      rw [← Option.some.inj hstep]
      refine h.answer ⟨fun _ => hkept rfl Producer.noConfusion, ?_⟩ (by rw [hp]; rfl)
      show _ = if s.full = true then _ else _
      rw [hfull]
      rfl

/-- A statement of the consumer leaves what is told about the producer. -/
theorem Told.moveConsumer (h : Told s) (htail : t.voicePlay.tail = s.voicePlay.tail)
    (hbefore : t.before = s.before) (hfull : t.full = s.full) (hreplies : t.replies = s.replies)
    (haccepted : t.accepted = s.accepted) (hproducer : t.producer = s.producer)
    (hannounced :
      t.announced = (t.taken.take (t.taken.length - t.consumer.behind)).map (·.money)) :
    Told t where
  announced := hannounced
  kept := by rw [htail, hbefore, hproducer]; exact h.kept
  rejected := by rw [hfull, hproducer]; exact h.rejected
  room := by rw [hfull, hproducer]; exact h.room
  right := hreplies ▸ h.right
  accepted := by rw [haccepted, hreplies, hproducer]; exact h.accepted

theorem Told.consumerStep (hordered : Ordered s) (h : Told s) (hok : Orderly s .consumer)
    (hstep : consumerStep s = some t) : Told t := by
  have hannounced := h.announced
  have hcons := hordered.consumer
  unfold Voice.consumerStep at hstep
  cases hc : s.consumer with
  | testing =>
      simp only [hc] at hstep hannounced
      by_cases htest : s.voicePlay.heardIndex = s.voicePlay.tailIndex
      · rw [if_pos htest] at hstep
        exact Option.some.inj hstep ▸ h
      · rw [if_neg htest] at hstep
        rw [← Option.some.inj hstep]
        exact h.moveConsumer rfl rfl rfl rfl rfl rfl hannounced
  | taking slot =>
      simp only [hc] at hstep hannounced
      obtain ⟨hbefore, hhead, -⟩ := hordered.head hc (hok.taking hc)
      rw [← Option.some.inj hstep]
      refine h.moveConsumer rfl rfl rfl rfl rfl rfl ?_
      show s.announced = ((s.taken ++ (s.voicePlay.palyParam[slot]?).toList).take
        ((s.taken ++ (s.voicePlay.palyParam[slot]?).toList).length - 1)).map (·.money)
      rw [hhead, List.getElem?_eq_getElem hbefore, Option.toList_some, List.length_append,
        List.length_singleton, Nat.add_sub_cancel, List.take_left' rfl, hannounced]
      exact congrArg (List.map _) (List.take_of_length_le (Nat.le_refl _))
  | locating | advanced slot =>
      simp only [hc] at hstep hannounced
      rw [← Option.some.inj hstep]
      exact h.moveConsumer rfl rfl rfl rfl rfl rfl hannounced
  | reading slot =>
      simp only [hc] at hstep hannounced hcons
      obtain ⟨-, hpos, hslot⟩ := hcons
      rw [← Option.some.inj hstep]
      have hslotted := hordered.reading hc
      have hlast : s.taken.length - 1 < s.taken.length := Nat.sub_lt hpos Nat.one_pos
      refine h.moveConsumer rfl rfl rfl rfl rfl rfl ?_
      show s.announced ++ ((s.voicePlay.palyParam[slot]?).map (·.money)).toList =
        (s.taken.take s.taken.length).map (·.money)
      have hall : s.taken.take s.taken.length =
          s.taken.take (s.taken.length - 1) ++ [s.taken[s.taken.length - 1]] := by
        rw [← List.take_succ_eq_append_getElem hlast, Nat.sub_add_cancel hpos]
      rw [hslotted, List.getElem?_eq_getElem hlast, hannounced, hall, List.map_append]
      rfl

theorem ordered_init {palyParam : List UserPayParam} (hslots : palyParam.length = maxVoiceNum) :
    Ordered (.init palyParam) where
  slots := hslots
  taken := List.prefix_rfl
  room := Nat.zero_le _
  unsettled hun := hun.elim (fun hone => absurd hone Nat.zero_ne_one) fun hne => absurd rfl hne
  held i _ hlt := absurd hlt (Nat.not_lt_zero i)
  producer := rfl
  consumer := rfl

theorem told_init (palyParam : List UserPayParam) : Told (.init palyParam) where
  announced := rfl
  kept _ hne := absurd rfl hne
  rejected _ := Producer.noConfusion
  room hne := absurd rfl hne
  right := List.forall_mem_nil _
  accepted := rfl

/-- One statement, or one request. -/
theorem Ordered.step {a : VoiceAction} (h : Ordered s ∧ Told s) (hok : Orderly s a)
    (hstep : voiceStep deviceId stray s a = some t) : Ordered t ∧ Told t := by
  cases a with
  | request buf =>
      rw [voiceStep] at hstep
      split at hstep
      · rename_i hp
        have hprod := h.1.producer
        rw [hp] at hprod
        rw [← Option.some.inj hstep]
        refine ⟨h.1.move rfl rfl rfl rfl rfl hprod (Nat.zero_le _) (by rw [hp]; exact Iff.rfl), ?_⟩
        exact ⟨h.2.announced, fun _ _ => rfl, fun _ => Producer.noConfusion,
          fun hne => absurd rfl hne, h.2.right, by have ha := h.2.accepted; rw [hp] at ha; exact ha⟩
      · exact Option.noConfusion rfl (heq_of_eq hstep)
  | producer => exact ⟨h.1.producerStep hok hstep, h.2.producerStep h.1 hok hstep⟩
  | consumer => exact ⟨h.1.consumerStep hok hstep, h.2.consumerStep h.1 hok hstep⟩

/-- What the invariants say about the queue. -/
theorem Ordered.fifo (h : Ordered s) (htold : Told s) : Fifo s where
  taken := h.taken
  announced := by
    rw [htold.announced]
    exact (List.take_prefix _ _).map _
  full r hr := (htold.right r hr).full
  status r hr := (htold.right r hr).status
  accepted := htold.accepted

/-- While there is room for every request, every reply has the payment of its request. -/
theorem echoed_step {a : VoiceAction} (h : (∀ buf, s.producer ≠ .rejected buf) ∧ Echoed s)
    (hok : Roomy s a) (hstep : voiceStep deviceId stray s a = some t) :
    (∀ buf, t.producer ≠ .rejected buf) ∧ Echoed t := by
  obtain ⟨hnot, hechoed⟩ := h
  cases a with
  | request buf =>
      rw [voiceStep] at hstep
      split at hstep
      · rw [← Option.some.inj hstep]
        exact ⟨fun _ => Producer.noConfusion, hechoed⟩
      · exact Option.noConfusion rfl (heq_of_eq hstep)
  | consumer =>
      have hsame : t.producer = s.producer ∧ t.replies = s.replies := by
        have hstep' : consumerStep s = some t := hstep
        unfold Voice.consumerStep at hstep'
        split at hstep' <;> try split at hstep'
        all_goals
          rw [← Option.some.inj hstep']
          exact ⟨rfl, rfl⟩
      rw [Echoed, hsame.1, hsame.2]
      exact ⟨hnot, hechoed⟩
  | producer =>
      have hstep' : producerStep deviceId stray s = some t := hstep
      unfold Voice.producerStep at hstep'
      cases hp : s.producer with
      | idle =>
          rw [hp] at hstep'
          exact Option.noConfusion rfl (heq_of_eq hstep')
      | testing buf temp =>
          have hroom : temp ≠ s.voicePlay.heardIndex := fun heq =>
            hok (by rw [hp, ← heq]; rfl)
          simp only [hp] at hstep'
          rw [if_neg hroom] at hstep'
          rw [← Option.some.inj hstep']
          exact ⟨fun _ => Producer.noConfusion, hechoed⟩
      | storing buf slot fields =>
          cases fields with
          | nil =>
              simp only [hp] at hstep'
              rw [← Option.some.inj hstep']
              exact ⟨fun _ => Producer.noConfusion,
                List.forall_mem_append.mpr ⟨hechoed, List.forall_mem_singleton.mpr rfl⟩⟩
          | cons f fields =>
              simp only [hp] at hstep'
              rw [← Option.some.inj hstep']
              exact ⟨fun _ => Producer.noConfusion, hechoed⟩
      | rejected buf => exact absurd hp (hnot buf)
      | _ =>
          simp only [hp] at hstep'
          rw [← Option.some.inj hstep']
          exact ⟨fun _ => Producer.noConfusion, hechoed⟩

theorem wrap_lt {index : UInt8} (h : index.toNat < maxVoiceNum) :
    (wrap index).toNat < maxVoiceNum := by
  rw [wrap]
  split_ifs
  · exact Nat.succ_pos 4
  · exact h

theorem succ_lt {index : UInt8} (h : index.toNat + 1 < maxVoiceNum) :
    (index + 1).toNat < maxVoiceNum := by
  rw [UInt8.toNat_add]
  exact (Nat.mod_le _ _).trans_lt h

/-- While no index moves on from the last slot, both are in range. -/
theorem bounded_step {a : VoiceAction} (h : Bounded s) (hok : Inner s a)
    (hstep : voiceStep deviceId stray s a = some t) : Bounded t := by
  cases a with
  | request buf =>
      rw [voiceStep] at hstep
      split at hstep
      · exact Option.some.inj hstep ▸ h
      · exact Option.noConfusion rfl (heq_of_eq hstep)
  | producer =>
      have hstep' : producerStep deviceId stray s = some t := hstep
      unfold Voice.producerStep at hstep'
      cases hp : s.producer with
      | idle =>
          rw [hp] at hstep'
          exact Option.noConfusion rfl (heq_of_eq hstep')
      | testing buf temp =>
          simp only [hp] at hstep'
          split at hstep'
          · exact Option.some.inj hstep' ▸ h
          · exact Option.some.inj hstep' ▸ h
      | located buf slot =>
          have hlt := hok (by rw [hp]; rfl)
          simp only [hp] at hstep'
          exact Option.some.inj hstep' ▸ ⟨h.1, succ_lt hlt⟩
      | advanced buf slot =>
          simp only [hp] at hstep'
          exact Option.some.inj hstep' ▸ ⟨h.1, wrap_lt h.2⟩
      | storing buf slot fields =>
          cases fields with
          | nil =>
              simp only [hp] at hstep'
              exact Option.some.inj hstep' ▸ h
          | cons f fields =>
              simp only [hp] at hstep'
              exact Option.some.inj hstep' ▸ h
      | _ =>
          simp only [hp] at hstep'
          exact Option.some.inj hstep' ▸ h
  | consumer =>
      have hstep' : consumerStep s = some t := hstep
      unfold Voice.consumerStep at hstep'
      cases hc : s.consumer with
      | testing =>
          simp only [hc] at hstep'
          split at hstep'
          · exact Option.some.inj hstep' ▸ h
          · exact Option.some.inj hstep' ▸ h
      | taking slot =>
          have hlt := hok (by rw [hc]; exact Option.some_ne_none slot)
          simp only [hc] at hstep'
          exact Option.some.inj hstep' ▸ ⟨succ_lt hlt, h.2⟩
      | advanced slot =>
          simp only [hc] at hstep'
          exact Option.some.inj hstep' ▸ ⟨wrap_lt h.1, h.2⟩
      | _ =>
          simp only [hc] at hstep'
          exact Option.some.inj hstep' ▸ h

/-- In every run in which no payment is taken that is being written, and the queue is not tested
for the last slot before the other thread has set its index to 0, the queue is a queue. If there is
room for every request, the replies have the payments of their requests; if no index moves on from
the last slot, both are in range all the time. -/
theorem voiceQueue {palyParam : List UserPayParam} (hslots : palyParam.length = maxVoiceNum)
    {as : List VoiceAction}
    (h : Run (voiceStep deviceId stray) Orderly (.init palyParam) as t) :
    Fifo t ∧ (Run (voiceStep deviceId stray) Roomy (.init palyParam) as t → Echoed t) ∧
      (Run (voiceStep deviceId stray) Inner (.init palyParam) as t → Bounded t) := by
  refine ⟨?_, fun hroomy => ?_, fun hinner => ?_⟩
  · obtain ⟨hordered, htold⟩ := Run.invariant (fun s => Ordered s ∧ Told s)
      (fun _ _ _ hs hok hstep => Ordered.step hs hok hstep)
      ⟨ordered_init hslots, told_init palyParam⟩ h
    exact hordered.fifo htold
  · have hstart : Echoed (.init palyParam) := List.forall_mem_nil _
    exact (Run.invariant (fun s => (∀ buf, s.producer ≠ .rejected buf) ∧ Echoed s)
      (fun _ _ _ hs hok hstep => echoed_step hs hok hstep)
      ⟨fun _ => Producer.noConfusion, hstart⟩ hroomy).2
  · have hstart : Bounded (.init palyParam) := ⟨Nat.succ_pos 4, Nat.succ_pos 4⟩
    exact Run.invariant Bounded (fun _ _ _ hs hok hstep => bounded_step hs hok hstep) hstart hinner

end History

/-- The slots of a queue that has not been used. -/
def emptySlots : List UserPayParam := List.replicate maxVoiceNum ⟨0, 0, 0, 0, 0⟩

/-- A request to announce one cent. -/
def oneCent : List UInt8 :=
  [0x64, 0x7A, 0, 18, 0, 7, 0, 0, 1, 0, 0, 0, 0, 0, 0, 0, 0, 0, 0, 0, 0, 0, 26, 0x7A, 0x64]

/-- The request is answered, and then announced. -/
def oneByOne : List VoiceAction :=
  .request oneCent :: List.replicate 14 .producer ++ List.replicate 5 .consumer

theorem voiceQueue_oneByOne :
    ∃ t, (t.announced == [1]) = true ∧ Fifo t ∧
      (Run (voiceStep [] ⟨0, 0, 0, 0, 0⟩) Roomy (.init emptySlots) oneByOne t → Echoed t) ∧
      (Run (voiceStep [] ⟨0, 0, 0, 0, 0⟩) Inner (.init emptySlots) oneByOne t → Bounded t) := by
  obtain ⟨t, h, hannounced⟩ := Run.exists_of_exec (voiceStep [] ⟨0, 0, 0, 0, 0⟩) Orderly
    (.init emptySlots) oneByOne (fun t => t.announced == [1]) (by decide +kernel)
  exact ⟨t, hannounced, voiceQueue rfl h⟩

/-- The other thread comes when the index has been moved on, and the slot has not been written. -/
def takenEarly : List VoiceAction :=
  .request oneCent :: List.replicate 6 .producer ++ List.replicate 3 .consumer

/-- A payment is taken that nobody has asked for. -/
theorem taken_unwritten :
    ¬ ∀ (deviceId : List UInt8) (stray : UserPayParam) (as : List VoiceAction) (t : VoiceRun),
      Run (voiceStep deviceId stray) unconditional (.init emptySlots) as t →
        Fifo t ∧ Echoed t ∧ Bounded t := by
  intro hall
  obtain ⟨t, h, htaken⟩ := Run.exists_of_exec (voiceStep [] ⟨0, 0, 0, 0, 0⟩) unconditional
    (.init emptySlots) takenEarly (fun t => ! t.taken.isPrefixOf t.accepted) (by decide +kernel)
  have hinitial := List.isPrefixOf_iff_prefix.mpr (hall _ _ _ t h).1.taken
  rw [hinitial] at htaken
  exact absurd htaken (by decide)

end Gsm.Voice
