import Esp32AtMqtt.AtClient.Readline
import Esp32AtMqtt.Gsm.Connect
import Esp32AtMqtt.Transition.Run

/-!
# Two readers of one UART

The AT client's parser thread and the GSM thread read the same FIFO. `AT_COMPonet_Station`
is to keep them apart: the GSM thread sets it to 0 before it reads the UART itself. The
parser tests it only between two lines, and mostly it is past the test, waiting for the
next character inside `at_recv_readline`.

The steps of the two threads and the arrivals are interleaved freely. Beside the state of
the threads it is recorded which bytes the parser has taken while the flag was 0, and for
the time since the flag was last set to 0 which bytes there were to read, and which the GSM
thread has read. `FlagAtTest` is the condition that the parser is not inside
`at_recv_readline` when the flag is set to 0.
-/

namespace Gsm

open AtCmd Transition

/-- Where the parser thread stands: at the test of the flag, in its delay, before the next
character of a line, or with a line at hand. -/
inductive ParserPlace
  | test
  | sleep
  | reading (l : ReadLoop)
  | line (r : ℤ × Receiver)

/-- The threads, the FIFO between them and what has happened. -/
structure UartRun where
  atComponetStation : ℕ
  rxFifo : List UInt8
  parser : ParserPlace
  client : Receiver
  connectStation : ConnectStation
  tryNum : UInt8
  todo : List MainOp
  taken : List UInt8
  sent : List UInt8
  read : List UInt8

/-- The threads at their start. -/
def UartRun.init (client : Receiver) : UartRun :=
  ⟨1, [], .test, client, .powerRest, 0, [], [], [], []⟩

/-- One statement of `client_parser`, down to the characters it reads; `none` while it
waits for one. -/
def parserStep (s : UartRun) : Option UartRun :=
  match s.parser with
  | .test =>
      if s.atComponetStation = 0 then some { s with parser := .sleep }
      else some { s with parser := .reading ⟨s.client.clear, 0, 0, false⟩ }
  | .sleep => some { s with parser := .test }
  | .reading l =>
      match s.rxFifo with
      | [] => none
      | ch :: rest =>
          some { s with
            rxFifo := rest
            parser :=
              if (l.store ch).ended ch then .line (l.store ch).result
              else .reading { l.store ch with lastCh := ch }
            taken := if s.atComponetStation = 0 then s.taken ++ [ch] else s.taken }
  | .line r => some { s with parser := .test, client := r.2 }

/-- One statement of the GSM thread. -/
def mainStep (s : UartRun) : MainOp → UartRun
  | .setAtComponetStation value =>
      { s with
        atComponetStation := value
        sent := if s.atComponetStation = 0 then s.sent else s.rxFifo
        read := if s.atComponetStation = 0 then s.read else [] }
  | .setConnectStation station => { s with connectStation := station }
  | .setTryNum n => { s with tryNum := n }
  | .deviceRead size =>
      { s with rxFifo := s.rxFifo.drop size, read := s.read ++ s.rxFifo.take size }
  | .sendComAtCmd => s
  | .deviceWrite => s
  | .delay _ => s

inductive UartAction
  | arrive (ch : UInt8)
  | parser
  | enter (call : MainCall)
  | main
  deriving DecidableEq, Repr

/-- The steps of the system. -/
def uartStep (s : UartRun) : UartAction → Option UartRun
  | .arrive ch => some { s with rxFifo := s.rxFifo ++ [ch], sent := s.sent ++ [ch] }
  | .parser => parserStep s
  | .enter call =>
      match s.todo with
      | [] => (call.ops s.connectStation s.tryNum).map fun ops => { s with todo := ops }
      | _ :: _ => none
  | .main =>
      match s.todo with
      | [] => none
      | op :: rest => some (mainStep { s with todo := rest } op)

/-- The parser is inside `at_recv_readline`. -/
def ParserPlace.inside : ParserPlace → Bool
  | .reading _ => true
  | _ => false

/-- The GSM thread sets the flag to 0 only while the parser is not inside
`at_recv_readline`. -/
def FlagAtTest (s : UartRun) : UartAction → Prop
  | .main => s.todo.head? = some (.setAtComponetStation 0) → s.parser.inside = false
  | _ => True

instance (s : UartRun) : ∀ a : UartAction, Decidable (FlagAtTest s a)
  | .main => inferInstanceAs (Decidable (_ → _))
  | .arrive _ => isTrue trivial
  | .parser => isTrue trivial
  | .enter _ => isTrue trivial

/-- The parser has taken no byte while the flag was 0, and the bytes of the time since then
are those the GSM thread has read and those it can still read. -/
structure OneReader (s : UartRun) : Prop where
  taken : s.taken = []
  left : s.atComponetStation = 0 → s.sent = s.read ++ s.rxFifo

/-- The invariant: while the flag is 0 the parser is not inside `at_recv_readline`. -/
structure Apart (s : UartRun) : Prop extends OneReader s where
  outside : s.atComponetStation = 0 → s.parser.inside = false

theorem apart_init (client : Receiver) : Apart (.init client) :=
  ⟨⟨rfl, nofun⟩, nofun⟩

/-- The step of the parser: it reads only past a test that found the flag set. -/
theorem apart_parserStep {s t : UartRun} (hs : Apart s) (h : parserStep s = some t) : Apart t := by
  unfold parserStep at h
  cases hp : s.parser with
  | test =>
      simp only [hp] at h
      split_ifs at h with hflag
      · cases h
        exact ⟨⟨hs.taken, hs.left⟩, fun _ => rfl⟩
      · cases h
        exact ⟨⟨hs.taken, hs.left⟩, fun h => absurd h hflag⟩
  | sleep =>
      simp only [hp, Option.some.injEq] at h
      subst h
      exact ⟨⟨hs.taken, hs.left⟩, fun _ => rfl⟩
  | line r =>
      simp only [hp, Option.some.injEq] at h
      subst h
      exact ⟨⟨hs.taken, hs.left⟩, fun _ => rfl⟩
  | reading l =>
      have hflag : s.atComponetStation ≠ 0 := fun h => by
        have houtside := hs.outside h
        rw [hp] at houtside
        cases houtside
      simp only [hp] at h
      split at h
      · cases h
      · cases h
        refine ⟨⟨?_, fun h => absurd h hflag⟩, fun h => absurd h hflag⟩
        rw [if_neg hflag]
        exact hs.taken

/-- The step of the GSM thread. -/
theorem apart_main {s : UartRun} (hs : Apart s) (op : MainOp)
    (hok : op = .setAtComponetStation 0 → s.parser.inside = false) : Apart (mainStep s op) := by
  cases op with
  | setAtComponetStation value =>
      refine ⟨⟨hs.taken, fun hvalue => ?_⟩, fun hvalue => ?_⟩
      · show (if _ then _ else _) = (if _ then _ else _) ++ s.rxFifo
        split_ifs with hflag
        · exact hs.left hflag
        · rfl
      · obtain rfl : value = 0 := hvalue
        exact hok rfl
  | deviceRead size =>
      refine ⟨⟨hs.taken, fun hflag => ?_⟩, hs.outside⟩
      show s.sent = s.read ++ s.rxFifo.take size ++ s.rxFifo.drop size
      rw [List.append_assoc, List.take_append_drop]
      exact hs.left hflag
  | setConnectStation station => exact ⟨⟨hs.taken, hs.left⟩, hs.outside⟩
  | setTryNum n => exact ⟨⟨hs.taken, hs.left⟩, hs.outside⟩
  | sendComAtCmd => exact hs
  | deviceWrite => exact hs
  | delay ticks => exact hs

theorem apart_step {s t : UartRun} {a : UartAction} (hs : Apart s) (hok : FlagAtTest s a)
    (h : uartStep s a = some t) : Apart t := by
  cases a with
  | parser => exact apart_parserStep hs h
  | arrive ch =>
      cases h
      refine ⟨⟨hs.taken, fun hflag => ?_⟩, hs.outside⟩
      show s.sent ++ [ch] = s.read ++ (s.rxFifo ++ [ch])
      rw [hs.left hflag, List.append_assoc]
  | enter call =>
      simp only [uartStep] at h
      split at h
      · obtain ⟨ops, -, rfl⟩ := Option.map_eq_some_iff.mp h
        exact ⟨⟨hs.taken, hs.left⟩, hs.outside⟩
      · cases h
  | main =>
      simp only [uartStep] at h
      split at h
      · cases h
      · next op rest htodo =>
          cases h
          have hs' : Apart { s with todo := rest } := ⟨⟨hs.taken, hs.left⟩, hs.outside⟩
          refine apart_main hs' op fun hop => hok ?_
          rw [htodo, hop]
          rfl

/-- When the flag is set to 0 behind the test, the next byte goes to the parser. -/
theorem taken_of_behind {s : UartRun} (hzero : s.todo.head? = some (.setAtComponetStation 0))
    (hinside : s.parser.inside = true) (ch : UInt8) :
    ∃ t, Run uartStep unconditional s [.main, .arrive ch, .parser] t ∧ ¬ OneReader t := by
  obtain ⟨rest, htodo⟩ := List.head?_eq_some_iff.mp hzero
  obtain ⟨l, hl⟩ : ∃ l, s.parser = .reading l := by
    cases hp : s.parser with
    | reading l => exact ⟨l, rfl⟩
    | _ => rw [hp] at hinside; cases hinside
  obtain ⟨b, bytes, hfifo⟩ : ∃ b bytes, s.rxFifo ++ [ch] = b :: bytes :=
    List.exists_cons_of_ne_nil (by simp)
  let u := mainStep { s with todo := rest } (.setAtComponetStation 0)
  let v : UartRun := { u with rxFifo := s.rxFifo ++ [ch], sent := u.sent ++ [ch] }
  have hmain : uartStep s .main = some u := by rw [uartStep, htodo]
  have harrive : uartStep u (.arrive ch) = some v := rfl
  have hparser : uartStep v .parser = some { v with
      rxFifo := bytes
      parser :=
        if (l.store b).ended b then .line (l.store b).result
        else .reading { l.store b with lastCh := b }
      taken := s.taken ++ [b] } := by
    show parserStep v = _
    rw [parserStep, show v.parser = .reading l from hl, show v.rxFifo = b :: bytes from hfifo]
    rfl
  refine ⟨_, ((Run.nil.snoc trivial hmain).snoc trivial harrive).snoc trivial hparser, ?_⟩
  intro hone
  exact absurd hone.taken (List.append_ne_nil_of_right_ne_nil _ (List.cons_ne_nil b []))

/-- In every run in which the flag is set to 0 only while the parser is not inside
`at_recv_readline`, the GSM thread is the one reader while it is 0; and from every state in
which it is set otherwise, a byte that arrives next is lost to it. -/
theorem oneReader (client : Receiver) (as : List UartAction) (s : UartRun) (ch : UInt8) :
    (Run uartStep FlagAtTest (.init client) as s → OneReader s) ∧
      (¬ FlagAtTest s .main → ∃ t,
        Run uartStep unconditional s [.main, .arrive ch, .parser] t ∧ ¬ OneReader t) := by
  constructor
  · intro h
    have hapart := h.invariant Apart (fun _ _ _ hs hok hst => apart_step hs hok hst)
      (apart_init client)
    exact hapart.toOneReader
  · intro hnot
    obtain ⟨hzero, hinside⟩ := Classical.not_imp.mp hnot
    exact taken_of_behind hzero (Bool.not_eq_false _ ▸ hinside) ch

/-- The AT client of the application: 512 bytes, no end sign, no URC table. -/
def appClient : Receiver := ⟨List.replicate 512 0, 0, 0, none⟩

/-- The line `OK` arrives and is read. -/
def answerOk : List UartAction :=
  ([79, 75, 13, 10] : List UInt8).flatMap fun ch => [.arrive ch, .parser]

/-- A stage whose command is answered with `OK`: `before` statements up to the command, the
answer, the parser back inside `at_recv_readline`, and two statements behind the command. -/
def stage (before : ℕ) : List UartAction :=
  .enter (.connectingLoop true true) :: List.replicate before .main ++ answerOk ++
    [.parser, .parser] ++ List.replicate 2 .main

/-- The stages up to the command that connects to the server, and its answer. -/
def upToServer : List UartAction :=
  .parser :: stage 3 ++ (List.replicate 6 (stage 1)).flatten ++
    [.enter (.connectingLoop true true), .main] ++ answerOk

/-- The flag is set while the parser has the last answer at hand, and the reply of the
server is read by `RegisterDevice`. -/
theorem oneReader_atLine :
    (∃ s, Run uartStep FlagAtTest (.init appClient) (upToServer ++ List.replicate 3 .main ++
        List.replicate 2 .parser ++ [.enter (.registerDevice true), .arrive 72, .main]) s ∧
      (s.atComponetStation = 0 ∧ s.read = [72]) ∧ OneReader s) ∧
    ∃ t, Run uartStep unconditional
        { UartRun.init appClient with
          parser := .reading ⟨appClient, 0, 0, false⟩, todo := [.setAtComponetStation 0] }
        [.main, .arrive 72, .parser] t ∧ ¬ OneReader t := by
  constructor
  · obtain ⟨s, hrun, hs⟩ := Run.exists_of_exec uartStep FlagAtTest (.init appClient)
      (upToServer ++ List.replicate 3 .main ++ List.replicate 2 .parser ++
        [.enter (.registerDevice true), .arrive 72, .main])
      (fun s => decide (s.atComponetStation = 0 ∧ s.read = [72])) (by decide +kernel)
    exact ⟨s, hrun, of_decide_eq_true hs, (oneReader appClient _ s 0).1 hrun⟩
  · exact (oneReader appClient [] _ 72).2 fun hall => absurd (hall rfl) (by decide)

/-- The parser has gone back into `at_recv_readline` when the flag is set, and takes the
first byte the server sends. -/
theorem parser_takes_byte :
    ¬ ∀ client as s, Run uartStep unconditional (.init client) as s → OneReader s := by
  intro hall
  obtain ⟨s, hrun, hs⟩ := Run.exists_of_exec uartStep unconditional (.init appClient)
    (upToServer ++ List.replicate 2 .parser ++ List.replicate 3 .main ++
      [.enter (.registerDevice true), .main, .arrive 72, .parser])
    (fun s => decide (s.atComponetStation = 0 ∧ s.taken = [72])) (by decide +kernel)
  have htaken := (hall appClient _ s hrun).taken
  rw [(of_decide_eq_true hs).2] at htaken
  cases htaken

end Gsm
