import OsdpMaster.BusStep
import OsdpMaster.Lib.Potential
import OsdpMaster.QueueHistory
import OsdpMaster.Selection
import OsdpMaster.WriteSpec

/-!
Every call of `slave_poll` comes to its end. A potential on where the call stands
falls with each step of the poll thread; only a message that joins the queue of
the slave at work raises it, as a purge has one more to throw away.
-/

namespace OsdpMaster.CallBound
open OsdpMaster.Protocol OsdpMaster.Slave OsdpMaster.SlavePoll OsdpMaster.SlaveRun OsdpMaster.QueueHistory
open OsdpMaster.WriteSpec OsdpMaster.Bus OsdpMaster.BusStep OsdpMaster.RetryBound OsdpMaster.Lib.Program
open OsdpMaster.Lib.Trace OsdpMaster.Lib.Potential

/-- The most steps a call can still take, with so many messages in the queue. -/
def left (queue : Nat) : Position → Nat
  | .idle | .fault => 0
  | .publish _ | .failed _ => 1
  | .pop _ => 2
  | .reply _ _ => 3
  | .receive _ => 4
  | .transmit _ _ => 5
  | .front | .tickle => 6
  | .emptyTest => 7
  | .backoff => 8
  | .purgePop => 6 + 2 * queue
  | .purgeTest => 7 + 2 * queue
  | .offlineTest => 9 + 2 * queue

theorem left_le (queue : Nat) (position : Position) : left queue position ≤ 9 + 2 * queue := by
  cases position <;> simp only [left] <;> omega

theorem left_longer (queue more : Nat) (position : Position) :
    left (queue + more) position ≤ left queue position + 2 * more := by
  cases position <;> simp only [left] <;> omega

section Steps

variable {p p' : Poll} {t : Tick} {events : List Event}

/-- Each step of a call uses up some of what is left. -/
theorem left_poll (stepped : PollStepped p p' events) :
    left p'.slave.msglist.length p'.position + 1 ≤ left p.slave.msglist.length p.position := by
  cases stepped with
  | purging here some_left =>
    rw [here]
    simp only [left]
    omega
  | purgePopped here message rest queue =>
    rw [here, queue]
    simp only [left, List.length_cons]
    omega
  | received sendmsg here t size port run =>
    rw [here]
    dsimp only
    split <;> simp [left]
  | accepted size sendmsg here addr willing =>
    rw [here]
    cases sendmsg <;> simp [left]
  | faulted here =>
    rcases here with ⟨here, _⟩ | ⟨here, _⟩ | ⟨size, here, _⟩ <;> rw [here] <;> simp only [left] <;> omega
  | foundOffline here | foundOnline here | purged here | notDue here | tickled here | notYet here | backedOff here
  | foundEmpty here | foundMessage here | fronted here | flushFailed _ _ here | transmitted _ _ here
  | transmitFailed _ _ here | overran _ _ here | receiveFailed _ here | wrongAddress _ _ here | refused _ _ here
  | popped _ here | handedOn _ here | replied _ here | missed _ here =>
    rw [here]
    simp only [left]
    omega

theorem arrivals_deliver (slave : OsdpSlave) (components : List Bytes) (payload : Bytes) :
    (arrivals (deliver slave components payload).2).length ≤ 1 := by
  simp only [deliver, arrivals_append, arrivals_published, List.append_nil]
  split
  · exact Nat.zero_le 1
  · cases slave.enabled
    · exact Nat.zero_le 1
    · exact le_refl 1

/-- The poll thread waits in `write(2)` or in `read(2)` only. -/
theorem waits_only (stuck : pollStep p t = none) :
    p.position = .idle ∨ p.position = .fault ∨
      (∃ payload sendmsg port, p.position = .transmit payload sendmsg ∧
        writecook t.now p.slave.addr.toNat p.slave.txseq.toNat payload { p.port with output := t.output } =
          .error .blocked port) ∨
      ∃ sendmsg port, p.position = .receive sendmsg ∧
        readcook t.now t.stamp { p.port with input := t.input } = .error .blocked port := by
  unfold pollStep at stuck
  split at stuck
  next here => exact Or.inl here
  next => cases stuck
  next => cases stuck
  next => simp only [popMessage] at stuck; split at stuck <;> cases stuck
  next => split at stuck <;> cases stuck
  next =>
    simp only [backoff] at stuck
    split at stuck
    · split at stuck
      · cases stuck
      · split at stuck <;> cases stuck
    · cases stuck
  next => cases stuck
  next => cases stuck
  next payload sendmsg here =>
    simp only [transmit] at stuck
    split at stuck
    · cases stuck
    · split at stuck
      next => cases stuck
      next => cases stuck
      next => cases stuck
      next stop port never never' run =>
        refine Or.inr (Or.inr (Or.inl ⟨payload, sendmsg, port, here, ?_⟩))
        rcases (writecook_ends _ t.now _ _ _ _ rfl).of_error run with ⟨fault, _⟩ | ⟨blocked | failed, _⟩
        · exact absurd fault never'
        · exact blocked ▸ run
        · exact absurd failed (never _)
  next sendmsg here =>
    simp only [receive] at stuck
    split at stuck
    next => cases stuck
    next => cases stuck
    next => cases stuck
    next stop port never never' run =>
      refine Or.inr (Or.inr (Or.inr ⟨sendmsg, port, here, ?_⟩))
      have ends := (ReadSpec.readcook_ends _ t.now t.stamp).of_error run
      cases stop with
      | code value => exact absurd rfl (ends.2 value)
      | exception message => exact absurd rfl (never message)
      | blocked => exact run
      | fault => exact ends.1.elim
  next =>
    simp only [reply] at stuck
    split at stuck
    · cases stuck
    · split at stuck <;> cases stuck
  next => simp only [popMessage] at stuck; split at stuck <;> cases stuck
  next => split at stuck <;> cases stuck
  next => cases stuck
  next here => exact Or.inr (Or.inl here)

end Steps

section Calls

def queueOf (master : Master) : Nat :=
  (master.slaves[master.pollSlave]?.map fun slave => slave.msglist.length).getD 0

def isPoll (step : Step Master Action (Nat × Event)) : Bool :=
  match step.action with
  | .poll _ => true
  | .message _ _ => false

def joins (step : Step Master Action (Nat × Event)) : Bool :=
  !(arrivals (eventsOf step.before.pollSlave step.events)).isEmpty

def potential (master : Master) : Nat := left (queueOf master) master.position

theorem queueOf_there {master : Master} {slave : OsdpSlave} (there : master.slaves[master.pollSlave]? = some slave) :
    queueOf master = slave.msglist.length := by
  rw [queueOf, there]
  rfl

theorem set_there {slaves : List OsdpSlave} {i : Nat} {slave : OsdpSlave} (there : slaves[i]? = some slave)
    (after : OsdpSlave) : (slaves.set i after)[i]? = some after :=
  List.getElem?_set_self (List.getElem?_eq_some_iff.mp there).1

theorem spends_step {step : Step Master Action (Nat × Event)} (busy : step.before.position ≠ .idle)
    (stepped : Bus.step step.before step.action = some (step.after, step.events)) :
    Spends potential isPoll joins 2 step := by
  obtain ⟨master, action, master', events⟩ := step
  dsimp only at busy stepped
  cases step_stepped stepped with
  | selected t idle => exact absurd idle busy
  | polled t _ slave there p own polled =>
    have lower := left_poll (pollStep_stepped polled)
    have after : queueOf (afterStep master p own) = p.slave.msglist.length := queueOf_there (set_there there p.slave)
    simp only [Spends, isPoll, potential, queueOf_there there, after, if_true]
    exact Nat.le_add_right_of_le lower
  | passed topic payload components routed => simp [Spends, isPoll]
  | told topic payload components i routed slave there =>
    by_cases here : i = master.pollSlave
    · subst here
      obtain ⟨grown, _, _⟩ := queue_message slave components payload
      have after : queueOf (afterMessage master master.pollSlave (deliver slave components payload).1) =
          slave.msglist.length + (arrivals (deliver slave components payload).2).length := by
        rw [queueOf_there (set_there there _), grown, List.length_append]
      have longer := left_longer slave.msglist.length (arrivals (deliver slave components payload).2).length
        master.position
      have one := arrivals_deliver slave components payload
      simp only [Spends, isPoll, joins, potential, after, queueOf_there there, tag, eventsOf_tagged]
      cases joined : arrivals (deliver slave components payload).2 with
      | nil => simp [afterMessage]
      | cons message more =>
        rw [joined] at longer one
        simp only [List.length_cons] at longer one
        simp [afterMessage]
        omega
    · have same : queueOf (afterMessage master i (deliver slave components payload).1) = queueOf master := by
        simp only [queueOf, afterMessage, List.getElem?_set_ne here]
      have position : (afterMessage master i (deliver slave components payload).1).position = master.position := rfl
      simp [Spends, isPoll, potential, same, position]

theorem stuck_only {config : SerialConfig} {texts : List Bytes} {master : Master} {history : List (Nat × Event)}
    (run : Run (bus config texts) free master history) (some_slave : texts ≠ []) {t : Tick}
    (stuck : Bus.step master (.poll t) = none) :
    master.position = .fault ∨
      (∃ slave payload sendmsg port, master.slaves[master.pollSlave]? = some slave ∧
        master.position = .transmit payload sendmsg ∧
        writecook t.now slave.addr.toNat slave.txseq.toNat payload { master.port with output := t.output } =
          .error .blocked port) ∨
      ∃ sendmsg port, master.position = .receive sendmsg ∧
        readcook t.now t.stamp { master.port with input := t.input } = .error .blocked port := by
  have inside : master.pollSlave < master.slaves.length := by
    rw [run_length run]
    exact run_cursor run (Or.inr some_slave)
  simp only [Bus.step] at stuck
  split at stuck
  next idle =>
    obtain ⟨after, selected, _⟩ := Selection.select_turn inside
    rw [stuck] at selected
    cases selected
  next busy =>
    have there := List.getElem?_eq_getElem inside
    simp only [pollSelected, there] at stuck
    split at stuck
    next none_left =>
      rcases waits_only none_left with idle | fault | ⟨payload, sendmsg, port, here, waits⟩ | ⟨sendmsg, port, here, waits⟩
      · exact absurd idle busy
      · exact Or.inl fault
      · exact Or.inr (Or.inl ⟨_, payload, sendmsg, port, there, here, waits⟩)
      · exact Or.inr (Or.inr ⟨sendmsg, port, here, waits⟩)
    next => cases stuck

/-- In every run with a slave, from any state on, a call takes at most nine steps of the poll thread and two more for
each message that is in the queue or joins it on the way; and where the poll thread can take no step it has gone wrong
before, or waits for the port in `writecook` or `readcook`. -/
theorem calls_end (config : SerialConfig) (texts : List Bytes) (master after : Master) (history : List (Nat × Event))
    (run : Run (bus config texts) free master history) (some_slave : texts ≠ [])
    (steps : List (Step Master Action (Nat × Event))) (path : Path (bus config texts) master steps after)
    (within : ∀ step ∈ steps, step.before.position ≠ .idle) :
    steps.countP isPoll ≤ 9 + 2 * (queueOf master + steps.countP joins) ∧
    ∀ t, Bus.step after (.poll t) = none →
      after.position = .fault ∨
      (∃ slave payload sendmsg port, after.slaves[after.pollSlave]? = some slave ∧
        after.position = .transmit payload sendmsg ∧
        writecook t.now slave.addr.toNat slave.txseq.toNat payload { after.port with output := t.output } =
          .error .blocked port) ∨
      ∃ sendmsg port, after.position = .receive sendmsg ∧
        readcook t.now t.stamp { after.port with input := t.input } = .error .blocked port := by
  constructor
  · have spent := bounded path fun step member => spends_step (within step member)
    have start : potential master ≤ 9 + 2 * queueOf master := left_le _ _
    omega
  · intro t stuck
    exact stuck_only (path.run run) some_slave stuck

theorem calls_end_waiting :
    ∃ (master after : Master) (steps : List (Step Master Action (Nat × Event))),
      Path (bus plainPort [ascii "5"]) master steps after ∧ steps.countP isPoll = 5 ∧
        steps.countP isPoll ≤ 9 + 2 * (queueOf master + steps.countP joins) := by
  have checked : (replay (bus plainPort [ascii "5"]) free (bus plainPort [ascii "5"]).start
      (bus plainPort [ascii "5"]).startup (polls 1 ⟨0, 0⟩ [])).any (fun reached =>
        (walk (bus plainPort [ascii "5"]) reached.1 (polls 4 ⟨0, 0⟩ [] ++
          .message (ascii "osdp/bus1/outgoing/5") [OSDP_POLL, 7] :: polls 1 ⟨0, 0⟩ [.data ackReply])).any fun walked =>
            walked.1.countP isPoll == 5 && walked.1.all fun step => decide (step.before.position ≠ .idle)) = true := by
    decide +kernel
  obtain ⟨master, history, run, reached⟩ := exists_run checked
  obtain ⟨⟨steps, after⟩, walked, good⟩ := (Option.any_eq_true _ _).mp reached
  simp only [Bool.and_eq_true, beq_iff_eq, List.all_eq_true, decide_eq_true_eq] at good
  obtain ⟨five, within⟩ := good
  have path := path_of_walk walked
  exact ⟨master, after, steps, path, five,
    (calls_end plainPort [ascii "5"] master after history run (by simp) steps path within).1⟩

end Calls

end OsdpMaster.CallBound
