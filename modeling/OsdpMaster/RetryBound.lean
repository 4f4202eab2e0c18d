import OsdpMaster.CallHistory
import OsdpMaster.OfflineDetection

/-!
How often a message is sent before it leaves the queue. A poll that fails uses up
one of the retries, and a slave without retries loses its queue. A NAK leaves the
call before any of that, with the message still at the head of the queue: it costs
nothing, and the next call sends the message again.
-/

namespace OsdpMaster.RetryBound
open OsdpMaster.Protocol OsdpMaster.Slave OsdpMaster.SlavePoll OsdpMaster.SlaveRun OsdpMaster.CallHistory
open OsdpMaster.OfflineDetection OsdpMaster.Bus OsdpMaster.Split OsdpMaster.Lib.Trace

def noteAttempt (attempts : Nat) : Event → Nat
  | .sent _ _ true => attempts + 1
  | .removed _ _ => 0
  | _ => attempts

/-- How often the message at the head of the queue was sent since it got there. -/
def attempts (history : List Event) : Nat := history.foldl noteAttempt 0

theorem attempts_append (history events : List Event) :
    attempts (history ++ events) = events.foldl noteAttempt (attempts history) := List.foldl_append

def carries : Event → Bool
  | .sent _ _ true => true
  | _ => false

/-- Not an end by an exception, a reply from the wrong address or a BUSY. -/
def inScope : Event → Bool
  | .ended (.exception _) | .ended .wrongAddress | .ended .busy => false
  | _ => true

/-- A call that sent a message ended in a reply, a NAK or an error of `readcook`, if it ended. -/
def Scoped (call : List Event) : Prop := call.any carries = true → call.all inScope = true

instance (call : List Event) : Decidable (Scoped call) := inferInstanceAs (Decidable (_ → _))

/-- A NAK for a message finds no more attempts than missed polls. -/
def Sparing (p : Poll) (history : List Event) : Prop :=
  match p.position with
  | .reply _ true => inByte p.port 1 &&& 0x7F = p.slave.addr → inByte p.port 5 = OSDP_NAK →
      (attempts history : Int) ≤ p.slave.retry
  | _ => True

instance (p : Poll) (history : List Event) : Decidable (Sparing p history) := by
  unfold Sparing
  split <;> infer_instance

/-- How many attempts a message may have had where the call stands: while its frame is out, one more than
the polls missed. -/
def allowance (retry : Int) : Position → Int
  | .tickle | .transmit _ false | .receive false | .reply _ false | .publish _ => 0
  | .receive true | .reply _ true | .failed _ => if retry < OSDPSLAVE_RETRY_MAX then retry + 1 else 0
  | .pop _ | .fault => OSDPSLAVE_RETRY_MAX
  | _ => min retry OSDPSLAVE_RETRY_MAX

theorem allowance_le (retry : Int) (position : Position) : allowance retry position ≤ OSDPSLAVE_RETRY_MAX := by
  unfold allowance OSDPSLAVE_RETRY_MAX
  split <;> (try split) <;> omega

/-- The attempts so far are allowed, and their message is still queued. -/
structure Attempted (p : Poll) (attempts : Nat) : Prop where
  held : 0 < attempts → p.slave.msglist ≠ []
  spent : (attempts : Int) ≤ allowance p.slave.retry p.position

section Steps

variable {p p' : Poll} {call history events : List Event} {n : Nat}

theorem attempted_none (p : Poll) (retry : 0 ≤ p.slave.retry) : Attempted p 0 where
  held positive := absurd positive (Nat.lt_irrefl 0)
  spent := by
    unfold allowance OSDPSLAVE_RETRY_MAX
    split <;> (try split) <;> omega

theorem Attempted.keep (attempted : Attempted p n) (queue : p'.slave.msglist = p.slave.msglist)
    (allowed : allowance p.slave.retry p.position ≤ allowance p'.slave.retry p'.position) : Attempted p' n where
  held := by
    rw [queue]
    exact attempted.held
  spent := attempted.spent.trans allowed

theorem Attempted.none_yet (attempted : Attempted p n) (here : allowance p.slave.retry p.position = 0) :
    n = 0 := by
  have spent := attempted.spent
  omega

theorem Attempted.of_empty (attempted : Attempted p n) (empty : p.slave.msglist = []) : n = 0 := by
  by_contra some_attempts
  exact attempted.held (Nat.pos_of_ne_zero some_attempts) empty

theorem Attempted.sends (attempted : Attempted p n) (standing : Standing p call) {payload : Bytes} {sendmsg : Bool}
    (here : p.position = .transmit payload sendmsg) (same : p'.slave = p.slave) (seq : UInt8)
    (there : p'.position = .receive sendmsg ∨ p'.position = .fault) :
    Attempted p' (noteAttempt n (.sent seq payload sendmsg)) := by
  simp only [Standing, here] at standing
  have spent := attempted.spent
  rw [here] at spent
  cases sendmsg with
  | true =>
    obtain ⟨_, online, head⟩ := standing
    have low : p.slave.retry < OSDPSLAVE_RETRY_MAX := by
      simpa only [offline, decide_eq_false_iff_not, not_le, ge_iff_le] using online
    simp only [allowance] at spent
    refine ⟨fun _ => ?_, ?_⟩
    · rw [same]
      intro empty
      rw [empty] at head
      cases head
    · rw [same]
      simp only [noteAttempt, Nat.cast_add, Nat.cast_one]
      rcases there with out | lost
      · rw [out]
        simp only [allowance, if_pos low]
        omega
      · rw [lost]
        simp only [allowance]
        omega
  | false =>
    have none_yet := attempted.none_yet (by rw [here]; rfl)
    subst none_yet
    refine ⟨fun positive => absurd positive (Nat.lt_irrefl 0), ?_⟩
    rcases there with out | lost
    · rw [out]
      exact le_refl 0
    · rw [lost]
      change (0 : Int) ≤ OSDPSLAVE_RETRY_MAX
      decide

/-- A missed poll uses up a retry, or finds the slave offline and its queue without attempts. -/
theorem Attempted.misses (attempted : Attempted p n) (retry : 0 ≤ p.slave.retry) {size : Int}
    (here : p.position = .failed size) (now : Timespec) (slave : p'.slave = (nak p.slave now).1)
    (there : p'.position = .idle) : Attempted p' n := by
  obtain ⟨_, _, kept⟩ := nak_slave p.slave now
  have queue : (nak p.slave now).1.msglist = p.slave.msglist := by rw [kept]
  refine attempted.keep (by rw [slave, queue]) ?_
  have off : offline p.slave = true ↔ p.slave.retry ≥ OSDPSLAVE_RETRY_MAX := decide_eq_true_iff
  rw [slave, there, here, nak_retry]
  simp only [allowance]
  by_cases gone : offline p.slave = true
  · have many := off.mp gone
    rw [if_pos gone, if_neg (by omega)]
    unfold OSDPSLAVE_RETRY_MAX
    omega
  · have few : ¬p.slave.retry ≥ OSDPSLAVE_RETRY_MAX := fun many => gone (off.mpr many)
    rw [if_neg gone, if_pos (by omega)]
    omega

theorem Scoped.ended {ending : Ending} (within : Scoped (call ++ [.ended ending])) {seq : UInt8}
    {message : Bytes} (sent : .sent seq message true ∈ call) : inScope (.ended ending) = true := by
  have carried : (call ++ [Event.ended ending]).any carries = true :=
    List.any_eq_true.mpr ⟨_, List.mem_append_left _ sent, rfl⟩
  exact List.all_eq_true.mp (within carried) _ (by simp)

theorem Standing.sent_receive (standing : Standing p call) (here : p.position = .receive true) :
    ∃ seq message, .sent seq message true ∈ call := by
  simp only [Standing, here] at standing
  obtain ⟨_, message, seq, _, sent⟩ := standing
  exact ⟨seq, message, sent⟩

theorem Standing.sent_reply {size : Int} (standing : Standing p call) (here : p.position = .reply size true) :
    ∃ seq message, .sent seq message true ∈ call := by
  simp only [Standing, here] at standing
  obtain ⟨_, _, message, seq, _, exchange⟩ := standing
  exact ⟨seq, message, exchange.subset List.mem_cons_self⟩

theorem Attempted.refuses (attempted : Attempted p (attempts history)) (standing : Standing p call)
    (retry : 0 ≤ p.slave.retry) {size : Int} {sendmsg : Bool} (here : p.position = .reply size sendmsg)
    (addr : inByte p.port 1 &&& 0x7F = p.slave.addr)
    (within : Scoped (call ++ [.ended (if inByte p.port 5 = OSDP_NAK then .nak else .busy)]))
    (sparing : Sparing p history) (slave : OsdpSlave) (queue : slave.msglist = p.slave.msglist)
    (same : slave.retry = p.slave.retry) :
    Attempted { p with slave := slave, position := .idle } (attempts history) := by
  cases sendmsg with
  | false =>
    have none_yet := attempted.none_yet (by rw [here]; rfl)
    rw [none_yet]
    exact attempted_none _ (by rw [same]; exact retry)
  | true =>
    obtain ⟨seq, message, sent⟩ := Standing.sent_reply standing here
    have nak : inByte p.port 5 = OSDP_NAK := by
      by_contra other
      have ended := within.ended sent
      rw [if_neg other] at ended
      cases ended
    simp only [Sparing, here] at sparing
    have spared := sparing addr nak
    have limit := attempted.spent.trans (allowance_le _ _)
    refine ⟨by rw [queue]; exact attempted.held, ?_⟩
    simp only [allowance, same]
    omega

theorem attempted_poll (stepped : PollStepped p p' events) (standing : Standing p call)
    (retry : 0 ≤ p.slave.retry) (within : Scoped (events.foldl noteCall call)) (sparing : Sparing p history)
    (attempted : Attempted p (attempts history)) : Attempted p' (events.foldl noteAttempt (attempts history)) := by
  have reset {after : Poll} (none_yet : attempts history = 0) (retry : 0 ≤ after.slave.retry) :
      Attempted after (attempts history) := by
    rw [none_yet]
    exact attempted_none after retry
  cases stepped with
  | foundOffline here off => exact attempted.keep rfl (by rw [here]; exact le_refl _)
  | foundOnline here on => exact attempted.keep rfl (by rw [here]; exact le_refl _)
  | purged here empty => exact reset (attempted.of_empty empty) retry
  | purging here some_left => exact attempted.keep rfl (by rw [here]; exact le_refl _)
  | purgePopped here message rest queue => exact attempted_none _ retry
  | notDue here now early => exact reset (attempted.none_yet (by rw [here]; rfl)) retry
  | tickled here now due => exact reset (attempted.none_yet (by rw [here]; rfl)) retry
  | notYet here missed now nextPoll set early => exact attempted.keep rfl (by rw [here]; exact le_refl _)
  | backedOff here now due => exact attempted.keep rfl (by rw [here]; exact le_refl _)
  | foundEmpty here empty => exact reset (attempted.of_empty empty) retry
  | foundMessage here some_left => exact attempted.keep rfl (by rw [here]; exact le_refl _)
  | fronted here => exact attempted.keep rfl (by rw [here]; exact le_refl _)
  | flushFailed payload sendmsg here =>
    cases sendmsg with
    | true => exact attempted.keep rfl (by rw [here]; exact le_refl _)
    | false => exact reset (attempted.none_yet (by rw [here]; rfl)) retry
  | transmitted payload sendmsg here t value port run =>
    exact attempted.sends standing here (by rfl) _ (Or.inl (by rfl))
  | transmitFailed payload sendmsg here t message port run =>
    cases sendmsg with
    | true =>
      have within' : Scoped (call ++ [.sent p.slave.txseq payload true] ++ [.ended (.exception message)]) := within
      exact absurd (within'.ended (List.mem_append_right _ List.mem_cons_self)) Bool.false_ne_true
    | false => exact reset (attempted.none_yet (by rw [here]; rfl)) retry
  | overran payload sendmsg here t port run =>
    exact attempted.sends standing here (by rfl) _ (Or.inr (by rfl))
  | received sendmsg here t size port run =>
    cases sendmsg with
    | true =>
      refine attempted.keep rfl ?_
      rw [here]
      dsimp only
      split <;> exact le_refl _
    | false => exact reset (attempted.none_yet (by rw [here]; rfl)) retry
  | receiveFailed sendmsg here t message port run =>
    cases sendmsg with
    | true =>
      obtain ⟨seq, payload, sent⟩ := Standing.sent_receive standing here
      exact absurd (within.ended sent) Bool.false_ne_true
    | false => exact reset (attempted.none_yet (by rw [here]; rfl)) retry
  | wrongAddress size sendmsg here addr =>
    cases sendmsg with
    | true =>
      obtain ⟨seq, payload, sent⟩ := Standing.sent_reply standing here
      exact absurd (within.ended sent) Bool.false_ne_true
    | false => exact reset (attempted.none_yet (by rw [here]; rfl)) retry
  | refused size sendmsg here addr unwilling =>
    obtain ⟨rxseq, noted⟩ := noteSeq_slave p.slave (inByte p.port 4 &&& 0x03)
    exact attempted.refuses standing retry here addr within sparing _ (by rw [noted]; rfl) (by rw [noted]; rfl)
  | accepted size sendmsg here addr willing =>
    obtain ⟨rxseq, noted⟩ := noteSeq_slave p.slave (inByte p.port 4 &&& 0x03)
    have silent : (Event.accepted :: (ack (noteSeq p.slave (inByte p.port 4 &&& 0x03))).2.map .published).foldl
        noteAttempt (attempts history) = attempts history := foldl_published (fun _ _ => rfl) _ _
    rw [silent]
    cases sendmsg with
    | true => exact attempted.keep (by rw [noted]; rfl) (allowance_le _ _)
    | false => exact reset (attempted.none_yet (by rw [here]; rfl)) (le_refl 0)
  | popped size here message rest queue => exact attempted_none _ retry
  | handedOn size here news => exact reset (attempted.none_yet (by rw [here]; rfl)) retry
  | replied size here mundane => exact reset (attempted.none_yet (by rw [here]; rfl)) retry
  | missed size here now =>
    have silent : ((nak p.slave now).2.map Event.published ++ [Event.ended (.failed size)]).foldl noteAttempt
        (attempts history) = attempts history := by
      rw [List.foldl_append, foldl_published (fun _ _ => rfl)]
      rfl
    rw [silent]
    exact attempted.misses retry here now (by rfl) (by rfl)
  | faulted here => exact attempted.keep rfl (allowance_le _ _)

theorem attempted_message (attempted : Attempted p n) (components : List Bytes) (payload : Bytes) :
    Attempted { p with slave := (deliver p.slave components payload).1 }
      ((deliver p.slave components payload).2.foldl noteAttempt n) := by
  have silent : (deliver p.slave components payload).2.foldl noteAttempt n = n :=
    foldl_deliver (fun _ _ => rfl) (fun _ _ _ => rfl) _ _ _ _
  obtain ⟨more, enabled, slave_eq⟩ := deliver_slave p.slave components payload
  rw [silent, slave_eq]
  refine ⟨?_, attempted.spent⟩
  intro positive empty
  exact attempted.held positive (List.append_eq_nil_iff.mp empty).1

end Steps

def current (master : Master) (slave : OsdpSlave) : Poll :=
  ⟨slave, master.port, master.crcCount, master.timeoutCount, master.position⟩

/-- The runs the bound is about: a call that sent a message ends as it should. -/
def InScope (master : Master) (history : List (Nat × Event)) : Action → Prop
  | .poll t => ∀ slave ∈ master.slaves[master.pollSlave]?, ∀ reached ∈ pollStep (current master slave) t,
      Scoped (reached.2.foldl noteCall (callOf (eventsOf master.pollSlave history)))
  | .message _ _ => True

instance (master : Master) (history : List (Nat × Event)) : ∀ action, Decidable (InScope master history action)
  | .poll t => inferInstanceAs (Decidable (∀ slave ∈ master.slaves[master.pollSlave]?,
      ∀ reached ∈ pollStep (current master slave) t,
        Scoped (reached.2.foldl noteCall (callOf (eventsOf master.pollSlave history)))))
  | .message _ _ => isTrue trivial

/-- The condition on a step: a NAK for a message finds no more attempts than missed polls. -/
def Spares (master : Master) (history : List (Nat × Event)) : Action → Prop
  | .poll _ => ∀ slave ∈ master.slaves[master.pollSlave]?,
      Sparing (current master slave) (eventsOf master.pollSlave history)
  | .message _ _ => True

instance (master : Master) (history : List (Nat × Event)) : ∀ action, Decidable (Spares master history action)
  | .poll _ => inferInstanceAs (Decidable (∀ slave ∈ master.slaves[master.pollSlave]?,
      Sparing (current master slave) (eventsOf master.pollSlave history)))
  | .message _ _ => isTrue trivial

def BoundedMove (p : Poll) (history : List Event) : Move → Prop
  | .poll t => (∀ reached ∈ pollStep p t, Scoped (reached.2.foldl noteCall (callOf history))) ∧ Sparing p history
  | _ => True

theorem bounded_behind {config : SerialConfig} {i : Nat} {master : Master} {p : Poll}
    {history : List (Nat × Event)} {action : Action} {move : Move} (follows : Follows config i master p)
    (bounded : InScope master history action ∧ Spares master history action) (behind : Behind i master action move) :
    BoundedMove p (eventsOf i history) move := by
  cases move with
  | call port crcCount timeoutCount => trivial
  | message components payload => trivial
  | poll t =>
    obtain ⟨action_eq, selected⟩ := behind
    subst action_eq
    by_cases idle : p.position = .idle
    · refine ⟨?_, ?_⟩
      · intro reached stepped
        simp only [pollStep, idle, Option.mem_def] at stepped
        cases stepped
      · unfold Sparing
        rw [idle]
        trivial
    · have position : p.position = master.position := by rw [follows.position, if_pos selected]
      obtain ⟨port, crcCount, timeoutCount⟩ := follows.busy idle
      have same : current master p.slave = p := by
        rw [current, ← port, ← crcCount, ← timeoutCount, ← position]
      obtain ⟨scope, spares⟩ := bounded
      have there : p.slave ∈ master.slaves[master.pollSlave]? := by
        rw [selected]
        exact follows.slave
      have scope' := scope p.slave there
      have spares' := spares p.slave there
      rw [same, selected] at scope' spares'
      exact ⟨scope', spares'⟩

theorem attempted_run {config : SerialConfig} {text : Bytes} {p : Poll} {history : List Event}
    (run : Run (slaveSystem config text) BoundedMove p history) : Attempted p (attempts history) := by
  apply slaveRun_invariant (I := fun p history => Attempted p (attempts history)) _ _ _ _ run
  · have positive : (0 : Int) ≤ OSDPSLAVE_RETRY_MAX + 1 := by decide
    exact attempted_none _ positive
  · intro p history port crcCount timeoutCount idle attempted
    exact attempted.keep rfl (by rw [idle]; exact le_refl _)
  · intro p history t p' events run bounded stepped attempted
    rw [attempts_append]
    exact attempted_poll (pollStep_stepped stepped) (standing_run run) (counted_run run).range.1
      (bounded.1 _ stepped) bounded.2 attempted
  · intro p history components payload _ _ attempted
    rw [attempts_append]
    exact attempted_message attempted components payload

/-- While no NAK finds more attempts than missed polls, a message is sent at most
`OSDPSLAVE_RETRY_MAX` times before it leaves the queue. -/
theorem attempts_bounded (config : SerialConfig) (texts : List Bytes) (i : Nat) (text : Bytes)
    (configured : texts[i]? = some text) (master : Master) (history : List (Nat × Event))
    (run : Run (bus config texts)
      (fun master history action => InScope master history action ∧ Spares master history action) master history) :
    (attempts (eventsOf i history) : Int) ≤ OSDPSLAVE_RETRY_MAX := by
  obtain ⟨p, _, slaveRun⟩ := run_follows configured
    (fun _ _ _ _ _ follows bounded behind => bounded_behind follows bounded behind) run
  exact (attempted_run slaveRun).spent.trans (allowance_le _ _)

def nakReply : Bytes := [0x53, 0x85, 7, 0, 0, OSDP_NAK, 0x20]

theorem attempts_bounded_twice :
    ∃ history, attempts (eventsOf 0 history) = 2 ∧ (attempts (eventsOf 0 history) : Int) ≤ OSDPSLAVE_RETRY_MAX := by
  have checked : (replay (bus plainPort [ascii "5"])
      (fun master history action => InScope master history action ∧ Spares master history action)
      (bus plainPort [ascii "5"]).start (bus plainPort [ascii "5"]).startup
      (polls 8 ⟨0, 0⟩ [.data ackReply] ++ polls 7 ⟨0, 0⟩ [.eagain ⟨1, 0⟩] ++
        .message (ascii "osdp/bus1/outgoing/5") [OSDP_POLL, 7] :: polls 14 ⟨1, 0⟩ [.data nakReply])).any
      (fun reached => attempts (eventsOf 0 reached.2) == 2) = true := by
    decide +kernel
  obtain ⟨master, history, run, twice⟩ := exists_run checked
  exact ⟨history, beq_iff_eq.mp twice, attempts_bounded plainPort [ascii "5"] 0 (ascii "5") rfl master history run⟩

/-- A slave that answers its polls refuses a message eleven times. -/
theorem attempts_unbounded :
    ¬∀ (master : Master) (history : List (Nat × Event)), Run (bus plainPort [ascii "5"]) InScope master history →
      (attempts (eventsOf 0 history) : Int) ≤ OSDPSLAVE_RETRY_MAX := by
  intro always
  have checked : (replay (bus plainPort [ascii "5"]) InScope (bus plainPort [ascii "5"]).start
      (bus plainPort [ascii "5"]).startup
      (polls 8 ⟨0, 0⟩ [.data ackReply] ++ .message (ascii "osdp/bus1/outgoing/5") [OSDP_POLL, 7] ::
        polls 88 ⟨0, 0⟩ [.data nakReply])).any (fun reached => attempts (eventsOf 0 reached.2) == 11) = true := by
    decide +kernel
  obtain ⟨master, history, run, eleven⟩ := exists_run checked
  have bound := always master history run
  rw [beq_iff_eq.mp eleven] at bound
  exact absurd bound (by decide)

end OsdpMaster.RetryBound
