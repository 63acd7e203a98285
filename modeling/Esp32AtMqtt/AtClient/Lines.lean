import Esp32AtMqtt.AtClient.Isolation

/-!
# The client with the lines its buffer cannot hold

`at_recv_readline` delivers the lines that fit the receive buffer. A longer one is read to
its end and dropped, and the parser does not learn of it. `lineStep` has both: the steps
of the client with lines of at most `recv_bufsz` bytes, and the end of a line that was
dropped.

`heard` are the lines that came while a response was registered, dropped or not, since the
call under way registered it.
-/

namespace AtCmd

open Kernel Kernel.RtSemaphore Transition

/-- The client, and the lines that have come under the current registration. -/
structure LineRun where
  run : ClientRun
  heard : List (List UInt8)
  deriving DecidableEq

inductive LineAction
  | client (a : ClientAction)
  | fullLine (line : List UInt8)
  deriving DecidableEq

/-- The lines `at_recv_readline` delivers with a buffer of `recvBufsz` bytes. -/
def Deliverable (recvBufsz : ℕ) : ClientAction → Prop
  | .readLine line => line.length ≤ recvBufsz
  | _ => True

instance (recvBufsz : ℕ) : ∀ a : ClientAction, Decidable (Deliverable recvBufsz a)
  | .readLine line => inferInstanceAs (Decidable (line.length ≤ recvBufsz))
  | .createResp .. => isTrue trivial
  | .respSetInfo .. => isTrue trivial
  | .execCmd _ => isTrue trivial
  | .waitConnect => isTrue trivial
  | .caller => isTrue trivial
  | .giveUp => isTrue trivial
  | .timeout => isTrue trivial
  | .parser => isTrue trivial

/-- The lines that have come once the client has made the step. -/
def LineRun.heardAfter (s : LineRun) : ClientAction → List (List UInt8)
  | .caller => if s.run.call.map Call.pc = some .register then [] else s.heard
  | .parser =>
      if s.run.parser.pc = .test ∧ s.run.client.resp ≠ none then
        s.heard ++ [s.run.parser.recvBuffer]
      else s.heard
  | _ => s.heard

/-- The steps of the system with a receive buffer of `recvBufsz` bytes. -/
def lineStep (recvBufsz : ℕ) (s : LineRun) : LineAction → Option LineRun
  | .client a =>
      if Deliverable recvBufsz a then
        (step s.run a).map fun t => ⟨t, s.heardAfter a⟩
      else none
  | .fullLine line =>
      if s.run.parser.pc = .readline ∧ recvBufsz < line.length then
        some { s with
          heard := if s.run.client.resp ≠ none then s.heard ++ [line] else s.heard }
      else none

namespace LineRun

/-- After `at_client_para_init`. -/
def init : LineRun := ⟨AtCmd.init, []⟩

end LineRun

/-- What a step of the client does to the lines. -/
theorem lineStep_client {recvBufsz : ℕ} {s t : LineRun} {a : ClientAction}
    (h : lineStep recvBufsz s (.client a) = some t) :
    Deliverable recvBufsz a ∧ step s.run a = some t.run ∧ t.heard = s.heardAfter a := by
  simp only [lineStep] at h
  split_ifs at h with hfits
  obtain ⟨u, hu, rfl⟩ := Option.map_eq_some_iff.mp h
  exact ⟨hfits, hu, rfl⟩

/-- A dropped line changes nothing in the client. -/
theorem lineStep_fullLine {recvBufsz : ℕ} {s t : LineRun} {line : List UInt8}
    (h : lineStep recvBufsz s (.fullLine line) = some t) :
    s.run.parser.pc = .readline ∧ t.run = s.run ∧
      (s.run.client.resp = none → t.heard = s.heard) := by
  simp only [lineStep] at h
  split_ifs at h with hguard hresp
  · cases h
    exact ⟨hguard.1, rfl, fun hnone => absurd hnone hresp⟩
  · cases h
    exact ⟨hguard.1, rfl, fun _ => rfl⟩

/-- The settled timeouts of the client. -/
def LineSettled (s : LineRun) : LineAction → Prop
  | .client a => TimeoutSettled s.run a
  | .fullLine _ => True

instance (s : LineRun) : ∀ a : LineAction, Decidable (LineSettled s a)
  | .client _ => inferInstanceAs (Decidable (TimeoutSettled _ _))
  | .fullLine _ => isTrue trivial

theorem matched_lineStep {recvBufsz : ℕ} {s t : LineRun} {a : LineAction} (hs : Matched s.run)
    (hok : LineSettled s a) (h : lineStep recvBufsz s a = some t) : Matched t.run := by
  cases a with
  | client a =>
      obtain ⟨-, hstep, -⟩ := lineStep_client h
      exact matched_step hs hok hstep
  | fullLine line =>
      obtain ⟨-, hrun, -⟩ := lineStep_fullLine h
      rw [hrun]
      exact hs

end AtCmd
