import OsdpMaster.CallHistory

/-!
The queue of a slave over a run: what came in while it was enabled is what left
it, in order, and what is still there. A message leaves after the reply to it, or
in a purge of a slave that is offline.
-/

namespace OsdpMaster.QueueHistory
open OsdpMaster.Protocol OsdpMaster.Slave OsdpMaster.SlavePoll OsdpMaster.SlaveRun OsdpMaster.CallHistory
open OsdpMaster.Bus OsdpMaster.Split OsdpMaster.Lib.Trace

def arrivals (history : List Event) : List Bytes :=
  history.filterMap (fun event => match event with
    | .arrived message true => some message
    | _ => none)

def removals (history : List Event) : List Bytes :=
  history.filterMap (fun event => match event with
    | .removed message _ => some message
    | _ => none)

@[simp] theorem arrivals_append (first second : List Event) :
    arrivals (first ++ second) = arrivals first ++ arrivals second := List.filterMap_append

@[simp] theorem removals_append (first second : List Event) :
    removals (first ++ second) = removals first ++ removals second := List.filterMap_append

@[simp] theorem arrivals_published (publications : List Publication) :
    arrivals (publications.map .published) = [] := by
  simp [arrivals]

@[simp] theorem removals_published (publications : List Publication) :
    removals (publications.map .published) = [] := by
  simp [removals]

/-- An event that removes a message after its reply, or ends a call, does so rightly. -/
def Rightly (addr : UInt8) (before : List Event) : Event → Prop
  | .removed message false => ∃ seq size buffer,
      [.sent seq message true, .received size buffer].Sublist (callOf before) ∧ Answers addr size buffer
  | .ended ending => ending ≠ .replied → .called false ∈ callOf before →
      ∀ message purged, .removed message purged ∉ callOf before
  | _ => True

section Steps

variable {p p' : Poll} {events history : List Event}

theorem queue_poll (stepped : PollStepped p p' events) :
    removals events ++ p'.slave.msglist = p.slave.msglist ∧ arrivals events = [] ∧
      p'.slave.addr = p.slave.addr := by
  cases stepped with
  | purgePopped here message rest queue => exact ⟨queue.symm, rfl, rfl⟩
  | popped size here message rest queue => exact ⟨queue.symm, rfl, rfl⟩
  | refused size sendmsg here addr unwilling =>
    obtain ⟨rxseq, noted⟩ := noteSeq_slave p.slave (inByte p.port 4 &&& 0x03)
    rw [noted]
    exact ⟨rfl, rfl, rfl⟩
  | accepted size sendmsg here addr willing =>
    obtain ⟨rxseq, noted⟩ := noteSeq_slave p.slave (inByte p.port 4 &&& 0x03)
    rw [noted]
    refine ⟨?_, ?_, rfl⟩
    · exact congrArg (· ++ _) (removals_published _)
    · exact arrivals_published _
  | missed size here now =>
    obtain ⟨retry, nextPoll, kept⟩ := nak_slave p.slave now
    have queue : (nak p.slave now).1.msglist = p.slave.msglist := by rw [kept]
    have addr : (nak p.slave now).1.addr = p.slave.addr := by rw [kept]
    refine ⟨?_, ?_, addr⟩
    · rw [removals_append, removals_published]
      exact queue
    · rw [arrivals_append, arrivals_published]
      rfl
  | _ => exact ⟨rfl, rfl, rfl⟩

theorem queue_message (slave : OsdpSlave) (components : List Bytes) (payload : Bytes) :
    (deliver slave components payload).1.msglist =
        slave.msglist ++ arrivals (deliver slave components payload).2 ∧
      removals (deliver slave components payload).2 = [] ∧
      (deliver slave components payload).1.addr = slave.addr := by
  simp only [deliver, messageForSlave, arrivals_append, removals_append, arrivals_published,
    removals_published, List.append_nil]
  split
  · obtain ⟨enabled, kept⟩ := control_slave slave payload
    rw [kept]
    exact ⟨(List.append_nil _).symm, rfl, rfl⟩
  · cases enabled : slave.enabled with
    | true => exact ⟨rfl, rfl, rfl⟩
    | false => exact ⟨(List.append_nil _).symm, rfl, rfl⟩

theorem rightly_ended (clean : Clean (callOf history)) (addr : UInt8) (ending : Ending) :
    Rightly addr history (.ended ending) := fun _ on => clean on

theorem always_poll (stepped : PollStepped p p' events) (standing : Standing p (callOf history)) :
    Always (fun before event => Rightly p.slave.addr (history ++ before) event) events := by
  have one {event : Event} (rightly : Rightly p.slave.addr history event) :
      Always (fun before event => Rightly p.slave.addr (history ++ before) event) [event] := by
    rw [always_cons, List.append_nil]
    exact ⟨rightly, always_nil _⟩
  have ended (here : asking p.position = true) (ending : Ending) :
      Rightly p.slave.addr history (.ended ending) := rightly_ended (standing.clean here) _ _
  cases stepped with
  | purged | purging | tickled | backedOff | foundEmpty | foundMessage | fronted | faulted =>
    exact always_nil _
  | foundOffline | foundOnline | transmitted | overran | received | purgePopped => exact one trivial
  | notDue here | notYet here | flushFailed _ _ here | receiveFailed _ here | wrongAddress _ _ here
  | refused _ _ here => exact one (ended (by rw [here]; rfl) _)
  | transmitFailed payload sendmsg here t message port run =>
    rw [always_cons, always_cons]
    refine ⟨trivial, rightly_ended ?_ _ _, always_nil _⟩
    rw [callOf_append]
    exact (standing.clean (by rw [here]; rfl)).grow (by simp) (by simp)
  | accepted size sendmsg here addr willing =>
    apply always_of_forall
    intro event member before
    rcases List.mem_cons.mp member with first | later
    · subst first
      trivial
    · obtain ⟨publication, _, published⟩ := List.mem_map.mp later
      subst published
      trivial
  | popped size here message rest queue =>
    simp only [Standing, here] at standing
    obtain ⟨head, seq, buffer, head_eq, exchange, answers⟩ := standing
    rw [queue, List.head?_cons, Option.some.injEq] at head_eq
    subst head_eq
    exact one ⟨seq, size, buffer, exchange, answers⟩
  | handedOn size here news =>
    rw [always_cons, always_cons]
    exact ⟨trivial, fun bad => absurd rfl bad, always_nil _⟩
  | replied size here mundane => exact one (fun bad => absurd rfl bad)
  | missed size here now =>
    rw [always_append]
    refine ⟨always_of_forall ?_, ?_⟩
    · intro event member before
      obtain ⟨publication, _, published⟩ := List.mem_map.mp member
      subst published
      trivial
    · rw [always_cons, List.append_nil]
      refine ⟨rightly_ended ?_ _ _, always_nil _⟩
      rw [callOf_append, foldl_noteCall _ _ (by simp)]
      exact (standing.clean (by rw [here]; rfl)).grow (by simp) (by simp)

theorem always_message (slave : OsdpSlave) (components : List Bytes) (payload : Bytes) (addr : UInt8) :
    Always (fun before event => Rightly addr (history ++ before) event)
      (deliver slave components payload).2 := by
  apply always_of_forall
  apply forall_deliver
  · intro publication before
    trivial
  · intro message enabled before
    trivial

end Steps

structure Ledger (text : Bytes) (p : Poll) (history : List Event) : Prop where
  balance : removals history ++ p.slave.msglist = arrivals history
  rightly : Always (Rightly p.slave.addr) history
  addr : p.slave.addr = (addSlave text).addr

theorem ledger_run {config : SerialConfig} {text : Bytes} {ok : Poll → List Event → Move → Prop} {p : Poll}
    {history : List Event} (run : Run (slaveSystem config text) ok p history) : Ledger text p history := by
  apply slaveRun_invariant _ _ _ _ run
  · exact ⟨rfl, always_cons.mpr ⟨trivial, always_nil _⟩, rfl⟩
  · intro p history port crcCount timeoutCount _ ledger
    exact ⟨ledger.balance, ledger.rightly, ledger.addr⟩
  · intro p history t p' events run _ stepped ledger
    have polled := pollStep_stepped stepped
    obtain ⟨taken, none_new, addr⟩ := queue_poll polled
    refine ⟨?_, ?_, addr.trans ledger.addr⟩
    · rw [removals_append, arrivals_append, none_new, List.append_nil, List.append_assoc, taken,
        ledger.balance]
    · rw [addr]
      exact always_append.mpr ⟨ledger.rightly, always_poll polled (standing_run run)⟩
  · intro p history components payload _ _ ledger
    obtain ⟨added, none_gone, addr⟩ := queue_message p.slave components payload
    refine ⟨?_, ?_, addr.trans ledger.addr⟩
    · rw [removals_append, arrivals_append, none_gone, List.append_nil, added, ← List.append_assoc,
        ledger.balance]
    · rw [addr]
      exact always_append.mpr ⟨ledger.rightly, always_message p.slave components payload _⟩

/-- A purge finds its slave offline. -/
theorem purged_offline {config : SerialConfig} {text : Bytes} {ok : Poll → List Event → Move → Prop}
    {p p' : Poll} {history events : List Event} {move : Move} (run : Run (slaveSystem config text) ok p history)
    (stepped : slaveStep config p move = some (p', events)) (message : Bytes)
    (purged : .removed message true ∈ events) : offline p.slave = true := by
  have standing := standing_run run
  cases move with
  | call port crcCount timeoutCount =>
    simp only [slaveStep] at stepped
    split at stepped
    · cases stepped
      cases purged
    · cases stepped
  | poll t =>
    cases pollStep_stepped stepped with
    | purgePopped here message rest queue =>
      simp only [Standing, here] at standing
      exact standing.2.1
    | _ => simp at purged
  | message components payload =>
    cases stepped
    rcases deliver_events _ _ _ _ purged with ⟨publication, published⟩ | arrived
    · cases published
    · cases arrived

/-- In every run, for every slave: nothing is lost, doubled or reordered; a message leaves after the
reply to it in the call that sent it, or in a purge while the slave is offline; and a call that finds
the slave online and ends in any other way than a reply removes nothing. -/
theorem queue_history (config : SerialConfig) (texts : List Bytes) (i : Nat) (text : Bytes)
    (configured : texts[i]? = some text) (master : Master) (history : List (Nat × Event))
    (run : Run (bus config texts) free master history) :
    ∃ slave, master.slaves[i]? = some slave ∧
      removals (eventsOf i history) ++ slave.msglist = arrivals (eventsOf i history) ∧
      Always (Rightly slave.addr) (eventsOf i history) ∧
      ∀ action master' events, step master action = some (master', events) →
        ∀ message, (i, .removed message true) ∈ events → offline slave = true := by
  obtain ⟨p, follows, slaveRun⟩ := run_slave configured run
  have ledger := ledger_run slaveRun
  refine ⟨p.slave, follows.slave, ledger.balance, ledger.rightly, ?_⟩
  intro action master' events stepped message purged
  rw [← mem_eventsOf] at purged
  rcases step_follows follows stepped with ⟨quiet, _⟩ | ⟨p', move, _, _, moved⟩
  · rw [quiet] at purged
    cases purged
  · exact purged_offline slaveRun moved message purged

theorem queue_history_delivered :
    ∃ slave master history, Run (bus plainPort [ascii "5"]) free master history ∧
      master.slaves[0]? = some slave ∧ arrivals (eventsOf 0 history) = [[OSDP_POLL, 7]] ∧
      removals (eventsOf 0 history) ++ slave.msglist = [[OSDP_POLL, 7]] := by
  have checked : (replay (bus plainPort [ascii "5"]) free (bus plainPort [ascii "5"]).start
      (bus plainPort [ascii "5"]).startup
      (polls 8 ⟨0, 0⟩ [.data ackReply] ++ .message (ascii "osdp/bus1/outgoing/5") [OSDP_POLL, 7] ::
        polls 10 ⟨0, 0⟩ [.data ackReply])).any
      (fun reached => arrivals (eventsOf 0 reached.2) == [[OSDP_POLL, 7]]) = true := by
    decide +kernel
  obtain ⟨master, history, run, arrived⟩ := exists_run checked
  obtain ⟨slave, there, balance, _⟩ :=
    queue_history plainPort [ascii "5"] 0 (ascii "5") rfl master history run
  rw [beq_iff_eq] at arrived
  exact ⟨slave, master, history, run, there, arrived, balance.trans arrived⟩

end OsdpMaster.QueueHistory
