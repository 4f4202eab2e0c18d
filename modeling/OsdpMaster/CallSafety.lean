import OsdpMaster.BusStep
import OsdpMaster.MessageBounds

/-!
What the poll thread never does, whichever way the two threads take turns: take a
message from an empty queue, compare a time that was never set, read outside
`m_in_buffer`. It stores outside `m_out_buffer` for a frame that is too long, and
for no other reason does it go wrong.
-/

namespace OsdpMaster.CallSafety
open OsdpMaster.Protocol OsdpMaster.Slave OsdpMaster.SlavePoll OsdpMaster.SlaveRun OsdpMaster.CallHistory
open OsdpMaster.QueueHistory OsdpMaster.MessageBounds OsdpMaster.WriteSpec OsdpMaster.Bus OsdpMaster.BusStep OsdpMaster.RetryBound
open OsdpMaster.Lib.Program OsdpMaster.Lib.Trace

def TooLong (config : SerialConfig) (payload : Bytes) : Prop :=
  SLAVE_BUFF_SIZE < config.lead.toNat + (payload.length + 7) + config.trail.toNat

def overlong (config : SerialConfig) : Event → Prop
  | .sent _ payload _ => TooLong config payload
  | _ => False

section Steps

variable {config : SerialConfig} {p p' : Poll} {events : List Event}

def Scheduled (slave : OsdpSlave) : Prop := 0 < slave.retry → offline slave = false → ∃ time, slave.nextPoll = some time

theorem nak_scheduled (slave : OsdpSlave) (now : Timespec) : Scheduled (nak slave now).1 := by
  intro missed on
  unfold nak at missed on ⊢
  split
  next off => rw [if_pos off, off] at on; cases on
  next was_on =>
    rw [if_neg was_on] at on
    dsimp only at on ⊢
    split
    next lost => rw [if_pos lost, lost] at on; cases on
    next => exact ⟨_, rfl⟩

theorem scheduled_poll (stepped : PollStepped p p' events) (scheduled : Scheduled p.slave) : Scheduled p'.slave := by
  cases stepped with
  | accepted size sendmsg here addr willing =>
    intro missed
    exact absurd missed (lt_irrefl 0)
  | refused size sendmsg here addr unwilling =>
    obtain ⟨rxseq, noted⟩ := noteSeq_slave p.slave (inByte p.port 4 &&& 0x03)
    rw [noted]
    exact scheduled
  | missed size here now => exact nak_scheduled p.slave now
  | _ => exact scheduled

theorem scheduled_run {text : Bytes} {ok : Poll → List Event → Move → Prop} {history : List Event}
    (run : Run (slaveSystem config text) ok p history) : Scheduled p.slave := by
  apply slaveRun_invariant (I := fun p _ => Scheduled p.slave) _ _ _ _ run
  · intro _ on
    cases on
  · intro p history port crcCount timeoutCount _ scheduled
    exact scheduled
  · intro p history t p' events _ _ stepped scheduled
    exact scheduled_poll (pollStep_stepped stepped) scheduled
  · intro p history components payload _ _ scheduled
    obtain ⟨more, enabled, kept⟩ := deliver_slave p.slave components payload
    rw [kept]
    exact scheduled

theorem overran_of_fault {call : List Event} (stepped : PollStepped p p' events) (standing : Standing p call)
    (scheduled : Scheduled p.slave) (settings : p.port.config = config) (fault : p'.position = .fault) :
    ∃ event ∈ events, overlong config event := by
  cases stepped with
  | overran payload sendmsg here t port run =>
    refine ⟨_, List.mem_singleton_self _, ?_⟩
    rcases (writecook_ends _ t.now _ _ _ _ rfl).of_error run with ⟨_, long⟩ | ⟨broken, _⟩
    · rw [transmission_length] at long
      exact settings ▸ long
    · rcases broken with blocked | failed
      · cases blocked
      · cases failed
  | faulted here =>
    rcases here with ⟨here, empty⟩ | ⟨here, missed, unset⟩ | ⟨size, here, empty⟩
    · simp only [Standing, here] at standing
      exact absurd empty standing.2.2
    · simp only [Standing, here] at standing
      obtain ⟨time, time_set⟩ := scheduled missed standing.2
      rw [unset] at time_set
      cases time_set
    · simp only [Standing, here, empty] at standing
      obtain ⟨message, seq, buffer, head, _⟩ := standing
      cases head
  | received sendmsg here t size port run =>
    dsimp only at fault
    split at fault
    · cases fault
    · cases fault
  | accepted size sendmsg here addr willing => cases sendmsg <;> cases fault
  | _ => cases fault

theorem fault_of_overran (stepped : PollStepped p p' events) (settings : p.port.config = config)
    (long : ∃ event ∈ events, overlong config event) : p'.position = .fault := by
  obtain ⟨event, member, long⟩ := long
  have fits {payload : Bytes} (inside : (transmission p.port.config (p.slave.addr.toNat : Int)
      (p.slave.txseq.toNat : Int) payload).length ≤ SLAVE_BUFF_SIZE) : ¬TooLong config payload := by
    rw [transmission_length, settings] at inside
    exact not_lt.mpr inside
  cases stepped with
  | transmitted payload sendmsg here t value port run =>
    rw [List.mem_singleton.mp member] at long
    exact absurd long (fits ((writecook_ends _ t.now _ _ _ _ rfl).of_ok run).2.1)
  | transmitFailed payload sendmsg here t message port run =>
    rcases List.mem_cons.mp member with sent | ended
    · rw [sent] at long
      rcases (writecook_ends _ t.now _ _ _ _ rfl).of_error run with ⟨fault, _⟩ | ⟨_, inside, _⟩
      · cases fault
      · exact absurd long (fits inside)
    · rw [List.mem_singleton.mp ended] at long
      exact long.elim
  | overran | faulted => rfl
  | accepted size sendmsg here addr willing =>
    rcases List.mem_cons.mp member with accepted | told
    · rw [accepted] at long
      exact long.elim
    · exact (forall_published (P := fun event => ¬overlong config event) (fun _ => id) _ _ told long).elim
  | missed size here now =>
    rcases List.mem_append.mp member with told | ended
    · exact (forall_published (P := fun event => ¬overlong config event) (fun _ => id) _ _ told long).elim
    · rw [List.mem_singleton.mp ended] at long
      exact long.elim
  | handedOn size here news =>
    rcases List.mem_cons.mp member with told | ended
    · rw [told] at long
      exact long.elim
    · rw [List.mem_singleton.mp ended] at long
      exact long.elim
  | purged | purging | tickled | backedOff | foundEmpty | foundMessage | fronted => cases member
  | _ =>
    rw [List.mem_singleton.mp member] at long
    exact long.elim

end Steps

section Runs

variable {config : SerialConfig} {texts : List Bytes} {master : Master} {history : List (Nat × Event)}

/-- The poll thread has gone wrong exactly if a frame too long was handed to `writecook`. -/
def Sound (config : SerialConfig) (master : Master) (history : List (Nat × Event)) : Prop :=
  master.position = .fault ↔ ∃ tagged ∈ history, overlong config tagged.2

theorem sound_quiet {master' : Master} {events : List (Nat × Event)} (sound : Sound config master history)
    (position : master'.position = .fault ↔ master.position = .fault)
    (short : ∀ tagged ∈ events, ¬overlong config tagged.2) : Sound config master' (history ++ events) := by
  unfold Sound at sound ⊢
  rw [position, sound]
  constructor
  · rintro ⟨tagged, member, long⟩
    exact ⟨tagged, List.mem_append_left _ member, long⟩
  · rintro ⟨tagged, member, long⟩
    rcases List.mem_append.mp member with before | now
    · exact ⟨tagged, before, long⟩
    · exact absurd long (short tagged now)

theorem sound_run (run : Run (bus config texts) free master history) : Sound config master history := by
  apply run.invariant (I := Sound config)
  · constructor
    · intro fault
      cases fault
    · rintro ⟨tagged, member, long⟩
      obtain ⟨numbered, _, same⟩ := List.mem_map.mp member
      rw [← same] at long
      exact long.elim
  · intro master history action master' events run sound _ step
    cases step_stepped step with
    | selected t idle a slave next there =>
      apply sound_quiet sound _ (by simp)
      rw [idle]
      cases pollable slave <;> simp
    | passed topic payload components routed => exact sound_quiet sound Iff.rfl (by simp)
    | told topic payload components i routed slave there =>
      apply sound_quiet sound Iff.rfl
      intro tagged member
      exact forall_deliver (P := fun event => ¬overlong config event) (fun _ => id) (fun _ _ => id) slave components
        payload tagged.2 (mem_tag.mp member).2
    | polled t busy slave there p own polled =>
      obtain ⟨text, _, settings, slaveRun⟩ := run_current run busy there
      have stepped := pollStep_stepped polled
      have config_eq : (current master slave).port.config = config := congrArg Prod.fst settings
      have going : master.position ≠ .fault := by
        intro fault
        have stuck : pollStep (current master slave) t = none := by
          unfold pollStep
          rw [show (current master slave).position = .fault from fault]
        rw [stuck] at polled
        cases polled
      constructor
      · intro fault
        obtain ⟨event, member, long⟩ := overran_of_fault stepped (standing_run slaveRun) (scheduled_run slaveRun)
          config_eq fault
        exact ⟨(master.pollSlave, event), List.mem_append_right _ (mem_tag.mpr ⟨rfl, member⟩), long⟩
      · rintro ⟨tagged, member, long⟩
        rcases List.mem_append.mp member with before | now
        · exact absurd (sound.mpr ⟨tagged, before, long⟩) going
        · exact fault_of_overran stepped config_eq ⟨tagged.2, (mem_tag.mp now).2, long⟩

theorem sourced_poll {text : Bytes} {p p' : Poll} {own : List Event} {call : List Event} {history : List Event}
    (stepped : PollStepped p p' own) (standing : Standing p call) (ledger : Ledger text p history) {seq : UInt8}
    {payload : Bytes} {sendmsg : Bool} (sent : .sent seq payload sendmsg ∈ own) :
    payload = [OSDP_POLL] ∨ payload ∈ arrivals history := by
  have source (here : p.position = .transmit payload sendmsg) : payload = [OSDP_POLL] ∨ payload ∈ arrivals history := by
    simp only [Standing, here] at standing
    cases sendmsg with
    | true => exact Or.inr (queued_arrived ledger (List.mem_of_mem_head? standing.2.2))
    | false => exact Or.inl standing.2
  cases stepped with
  | transmitted payload' sendmsg' here | overran payload' sendmsg' here =>
    cases List.mem_singleton.mp sent
    exact source here
  | transmitFailed payload' sendmsg' here =>
    rcases List.mem_cons.mp sent with same | ended
    · cases same
      exact source here
    · simp at ended
  | _ => simp at sent

theorem sourced_run {text : Bytes} {ok : Poll → List Event → Move → Prop} {p : Poll} {history : List Event}
    (run : Run (slaveSystem config text) ok p history) {seq : UInt8} {payload : Bytes} {sendmsg : Bool}
    (sent : .sent seq payload sendmsg ∈ history) : payload = [OSDP_POLL] ∨ payload ∈ arrivals history := by
  have grown {before : List Event} (after : List Event) (source : payload = [OSDP_POLL] ∨ payload ∈ arrivals before) :
      payload = [OSDP_POLL] ∨ payload ∈ arrivals (before ++ after) := by
    rw [arrivals_append]
    exact source.imp id (List.mem_append_left _)
  revert sent
  apply slaveRun_invariant (I := fun _ history => .sent seq payload sendmsg ∈ history →
    payload = [OSDP_POLL] ∨ payload ∈ arrivals history) _ _ _ _ run
  · intro sent
    cases List.mem_singleton.mp sent
  · intro p history port crcCount timeoutCount _ sourced
    exact sourced
  · intro p history t p' own run _ stepped sourced sent
    rcases List.mem_append.mp sent with before | now
    · exact grown own (sourced before)
    · exact grown own (sourced_poll (pollStep_stepped stepped) (standing_run run) (ledger_run run) now)
  · intro p history components message _ _ sourced sent
    rcases List.mem_append.mp sent with before | now
    · exact grown _ (sourced before)
    · rcases deliver_events _ _ _ _ now with ⟨publication, published⟩ | arrived
      · cases published
      · cases arrived

end Runs

/-- In every run the poll thread goes wrong (it takes from an empty queue, compares a time never set, or leaves
its buffers) exactly if a frame that does not fit `m_out_buffer` was handed to `writecook`; so it never does while
the plain poll fits and each message that comes in for an enabled slave does. -/
theorem faults_iff_overlong (config : SerialConfig) (texts : List Bytes) (master : Master)
    (history : List (Nat × Event)) (run : Run (bus config texts) free master history) :
    (master.position = .fault ↔
      ∃ i seq payload sendmsg, (i, .sent seq payload sendmsg) ∈ history ∧ TooLong config payload) ∧
    (¬TooLong config [OSDP_POLL] → (∀ i, ∀ message ∈ arrivals (eventsOf i history), ¬TooLong config message) →
      master.position ≠ .fault) := by
  have exactly : master.position = .fault ↔
      ∃ i seq payload sendmsg, (i, .sent seq payload sendmsg) ∈ history ∧ TooLong config payload := by
    have sound := sound_run run
    unfold Sound at sound
    rw [sound]
    constructor
    · rintro ⟨⟨i, event⟩, member, long⟩
      cases event with
      | sent seq payload sendmsg => exact ⟨i, seq, payload, sendmsg, member, long⟩
      | _ => exact long.elim
    · rintro ⟨i, seq, payload, sendmsg, member, long⟩
      exact ⟨_, member, long⟩
  refine ⟨exactly, ?_⟩
  intro poll_fits all_fit fault
  obtain ⟨i, seq, payload, sendmsg, member, long⟩ := exactly.mp fault
  have configured := List.getElem?_eq_getElem (run_inside run _ member)
  obtain ⟨p, _, slaveRun⟩ := run_slave configured run
  rcases sourced_run slaveRun (mem_eventsOf.mpr member) with poll | arrived
  · exact poll_fits (poll ▸ long)
  · exact all_fit i payload arrived long

theorem faults_iff_overlong_arrival :
    ∃ (master : Master) (history : List (Nat × Event)), master.position = .fault ∧
      ∃ i seq payload sendmsg, (i, .sent seq payload sendmsg) ∈ history ∧ TooLong plainPort payload := by
  have checked : (replay (bus plainPort [ascii "5"]) free (bus plainPort [ascii "5"]).start
      (bus plainPort [ascii "5"]).startup (handing (List.replicate 265 0) ++ polls 1 ⟨0, 0⟩ [])).any
      (fun reached => reached.1.position == .fault) = true := by
    decide +kernel
  obtain ⟨master, history, run, fault⟩ := exists_run checked
  rw [beq_iff_eq] at fault
  exact ⟨master, history, fault, (faults_iff_overlong plainPort [ascii "5"] master history run).1.mp fault⟩

end OsdpMaster.CallSafety
