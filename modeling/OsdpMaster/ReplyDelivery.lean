import OsdpMaster.BusStep
import OsdpMaster.QueueHistory

/-!
The replies of a slave over a run: each one that is accepted and is not a bare
acknowledgement goes to the broker once, in order, from the bytes that `readcook`
left in `m_in_buffer` for it.
-/

namespace OsdpMaster.ReplyDelivery
open OsdpMaster.Protocol OsdpMaster.Slave OsdpMaster.SlavePoll OsdpMaster.SlaveRun OsdpMaster.CallHistory
open OsdpMaster.Split OsdpMaster.QueueHistory OsdpMaster.Bus OsdpMaster.BusStep OsdpMaster.Lib.Trace

def replyOf (size : Int) (buffer : Bytes) : Publication :=
  ⟨ascii "osdp/bus1/incoming/" ++ decimal (buffer.getD 1 0 &&& 0x7F).toNat, size - 5,
    (buffer.drop 5).take (size - 5).toNat, 1, false⟩

theorem incoming_eq (size : Int) (port : Protocol) : incoming size port = replyOf size port.inBuffer.bytes := rfl

/-- What of a reply is news. -/
def newsOf (size : Int) (buffer : Bytes) : List Publication :=
  if buffer.getD 5 0 ≠ OSDP_ACK then [replyOf size buffer] else []

structure Heard where
  last : Option (Int × Bytes)
  news : List Publication

def noteHeard (heard : Heard) : Event → Heard
  | .received size buffer => { heard with last := some (size, buffer) }
  | .accepted => { heard with news := heard.news ++ (heard.last.map fun reply => newsOf reply.1 reply.2).getD [] }
  | _ => heard

def heardIn (history : List Event) : Heard := history.foldl noteHeard ⟨none, []⟩

def passedOn (history : List Event) : List Publication :=
  history.filterMap fun event => match event with
    | .published publication => if publication.retain then none else some publication
    | _ => none

/-- A good reply of the slave that is no bare acknowledgement. -/
def Worthy (addr : UInt8) (publication : Publication) : Prop :=
  ∃ size buffer, Answers addr size buffer ∧ buffer.getD 5 0 ≠ OSDP_ACK ∧ publication = replyOf size buffer

def pendingOf (p : Poll) : List Publication :=
  match p.position with
  | .pop size | .publish size => newsOf size p.port.inBuffer.bytes
  | _ => []

/-- The replies of one slave: what went out, and what is to go out. -/
structure Relays (p : Poll) (history : List Event) : Prop where
  balance : passedOn history ++ pendingOf p = (heardIn history).news
  worthy : ∀ publication ∈ (heardIn history).news, Worthy p.slave.addr publication
  replying : ∀ size sendmsg, p.position = .reply size sendmsg →
    (heardIn history).last = some (size, p.port.inBuffer.bytes) ∧ Intact size p.port.inBuffer.bytes

section Steps

variable {p p' : Poll} {history events : List Event}

@[simp] theorem heardIn_append (history events : List Event) :
    heardIn (history ++ events) = events.foldl noteHeard (heardIn history) := List.foldl_append

@[simp] theorem passedOn_append (first second : List Event) :
    passedOn (first ++ second) = passedOn first ++ passedOn second := List.filterMap_append

theorem passedOn_retained {publications : List Publication}
    (retained : ∀ publication ∈ publications, publication.retain = true) :
    passedOn (publications.map .published) = [] := by
  rw [passedOn, List.filterMap_map, List.filterMap_eq_nil_iff]
  intro publication member
  simp [retained publication member]

theorem Relays.keep (relays : Relays p history) (addr : p'.slave.addr = p.slave.addr)
    (pending : pendingOf p' = pendingOf p) (unheard : events.foldl noteHeard (heardIn history) = heardIn history)
    (silent : passedOn events = []) (elsewhere : ∀ size sendmsg, p'.position ≠ .reply size sendmsg) :
    Relays p' (history ++ events) where
  balance := by
    rw [passedOn_append, silent, List.append_nil, pending, heardIn_append, unheard]
    exact relays.balance
  worthy := by
    rw [heardIn_append, unheard, addr]
    exact relays.worthy
  replying size sendmsg here := absurd here (elsewhere size sendmsg)

theorem relays_accepted {size : Int} {sendmsg : Bool} (relays : Relays p history)
    (here : p.position = .reply size sendmsg) (addr : inByte p.port 1 &&& 0x7F = p.slave.addr)
    (willing : ¬(inByte p.port 5 = OSDP_NAK ∨ inByte p.port 5 = OSDP_BUSY)) :
    Relays { p with
      slave := (ack (noteSeq p.slave (inByte p.port 4 &&& 0x03))).1
      position := if sendmsg then .pop size else .publish size }
      (history ++ .accepted :: (ack (noteSeq p.slave (inByte p.port 4 &&& 0x03))).2.map .published) := by
  obtain ⟨last, whole⟩ := relays.replying size sendmsg here
  obtain ⟨rxseq, noted⟩ := noteSeq_slave p.slave (inByte p.port 4 &&& 0x03)
  have silent : passedOn ((ack (noteSeq p.slave (inByte p.port 4 &&& 0x03))).2.map .published) = [] :=
    passedOn_retained fun publication => ack_retained
  have heard : (heardIn (history ++ .accepted ::
      (ack (noteSeq p.slave (inByte p.port 4 &&& 0x03))).2.map .published)).news =
      (heardIn history).news ++ newsOf size p.port.inBuffer.bytes := by
    rw [heardIn_append, List.foldl_cons, foldl_published (fun _ _ => rfl)]
    simp [noteHeard, last]
  have before : passedOn history = (heardIn history).news := by
    have balance := relays.balance
    rwa [pendingOf, here, List.append_nil] at balance
  refine ⟨?_, ?_, ?_⟩
  · have pending : pendingOf { p with
        slave := (ack (noteSeq p.slave (inByte p.port 4 &&& 0x03))).1
        position := if sendmsg then .pop size else .publish size } = newsOf size p.port.inBuffer.bytes := by
      cases sendmsg <;> rfl
    have none_yet : passedOn (.accepted :: (ack (noteSeq p.slave (inByte p.port 4 &&& 0x03))).2.map .published) = [] :=
      silent
    rw [heard, passedOn_append, none_yet, List.append_nil, pending, before]
  · rw [heard]
    intro publication member
    have same : (ack (noteSeq p.slave (inByte p.port 4 &&& 0x03))).1.addr = p.slave.addr := by
      rw [noted]
      rfl
    dsimp only
    rw [same]
    rcases List.mem_append.mp member with earlier | now
    · exact relays.worthy publication earlier
    · unfold newsOf at now
      split at now
      next news =>
        rw [not_or] at willing
        exact ⟨size, p.port.inBuffer.bytes, ⟨whole, addr, willing.1, willing.2⟩, news, List.mem_singleton.mp now⟩
      · cases now
  · intro size' sendmsg' there
    cases sendmsg <;> cases there

theorem relays_poll {call : List Event} (stepped : PollStepped p p' events) (standing : Standing p call)
    (relays : Relays p history) : Relays p' (history ++ events) := by
  have same := (queue_poll stepped).2.2
  cases stepped with
  | accepted size sendmsg here addr willing => exact relays_accepted relays here addr willing
  | received sendmsg here t size port run =>
    have before := relays.balance
    rw [pendingOf, here, List.append_nil] at before
    have heard : (heardIn (history ++ [.received size port.inBuffer.bytes])).news = (heardIn history).news := by
      rw [heardIn_append]
      rfl
    refine ⟨?_, heard ▸ relays.worthy, ?_⟩
    · have nothing : pendingOf ⟨p.slave, port, p.crcCount, p.timeoutCount,
          if size > 0 then .reply size sendmsg else .failed size⟩ = [] := by
        by_cases positive : size > 0
        · rw [if_pos positive]
          rfl
        · rw [if_neg positive]
          rfl
      rw [nothing, List.append_nil, passedOn_append, heard]
      exact (List.append_nil _).trans before
    · intro size' sendmsg' there
      dsimp only at there
      split at there
      next positive =>
        cases there
        exact ⟨by simp [noteHeard], received_intact run positive⟩
      · cases there
  | handedOn size here news =>
    have before := relays.balance
    have owed : newsOf size p.port.inBuffer.bytes = [incoming size p.port] := by
      rw [incoming_eq]
      exact if_pos news
    rw [pendingOf, here] at before
    dsimp only at before
    rw [owed] at before
    have heard : heardIn (history ++ [.published (incoming size p.port), .ended .replied]) = heardIn history := by
      rw [heardIn_append]
      rfl
    refine ⟨?_, heard ▸ relays.worthy, (fun _ _ there => by cases there)⟩
    rw [passedOn_append, heard]
    exact (List.append_nil _).trans before
  | replied size here mundane =>
    have nothing : newsOf size p.port.inBuffer.bytes = [] := if_neg (not_not.mpr mundane)
    refine relays.keep same ?_ rfl rfl (fun _ _ there => by cases there)
    rw [pendingOf, pendingOf, here]
    exact nothing.symm
  | popped size here message rest queue =>
    refine relays.keep same ?_ rfl rfl (fun _ _ there => by cases there)
    rw [pendingOf, pendingOf, here]
  | missed size here now =>
    refine relays.keep same ?_ ?_ ?_ (fun _ _ there => by cases there)
    · rw [pendingOf, pendingOf, here]
    · rw [List.foldl_append, foldl_published (fun _ _ => rfl)]
      rfl
    · rw [passedOn_append, passedOn_retained fun _ => nak_retained]
      rfl
  | faulted here =>
    refine relays.keep same ?_ rfl rfl (fun _ _ there => by cases there)
    rcases here with ⟨here, _⟩ | ⟨here, _⟩ | ⟨size, here, empty⟩
    · rw [pendingOf, pendingOf, here]
    · rw [pendingOf, pendingOf, here]
    · simp only [Standing, here, empty] at standing
      obtain ⟨message, seq, buffer, head, _⟩ := standing
      cases head
  | foundOffline here | foundOnline here | purged here | purging here | purgePopped here | notDue here | tickled here
  | notYet here | backedOff here | foundEmpty here | foundMessage here | fronted here | flushFailed _ _ here
  | transmitted _ _ here | transmitFailed _ _ here | overran _ _ here | receiveFailed _ here | wrongAddress _ _ here
  | refused _ _ here =>
    refine relays.keep same ?_ rfl rfl (fun _ _ there => by cases there)
    rw [pendingOf, pendingOf, here]

theorem relays_message (relays : Relays p history) (components : List Bytes) (payload : Bytes) :
    Relays { p with slave := (deliver p.slave components payload).1 }
      (history ++ (deliver p.slave components payload).2) := by
  have silent : passedOn (deliver p.slave components payload).2 = [] := by
    simp only [deliver, passedOn_append, passedOn_retained fun _ => messageForSlave_retained, List.append_nil]
    split <;> rfl
  have unheard : (deliver p.slave components payload).2.foldl noteHeard (heardIn history) = heardIn history :=
    foldl_deliver (fun _ _ => rfl) (fun _ _ _ => rfl) p.slave components payload _
  refine ⟨?_, ?_, ?_⟩
  · rw [passedOn_append, silent, List.append_nil, heardIn_append, unheard]
    exact relays.balance
  · rw [heardIn_append, unheard]
    dsimp only
    rw [(queue_message p.slave components payload).2.2]
    exact relays.worthy
  · rw [heardIn_append, unheard]
    exact relays.replying

end Steps

section Runs

theorem relays_run {config : SerialConfig} {text : Bytes} {ok : Poll → List Event → Move → Prop} {p : Poll}
    {history : List Event} (run : Run (slaveSystem config text) ok p history) : Relays p history := by
  apply slaveRun_invariant (I := Relays) _ _ _ _ run
  · exact ⟨rfl, (fun _ member => by cases member), (fun _ _ there => by cases there)⟩
  · intro p history port crcCount timeoutCount idle relays
    refine ⟨?_, relays.worthy, (fun _ _ there => by cases there)⟩
    have before := relays.balance
    rwa [pendingOf, idle] at before
  · intro p history t p' events run _ stepped relays
    exact relays_poll (pollStep_stepped stepped) (standing_run run) relays
  · intro p history components payload _ _ relays
    exact relays_message relays components payload

/-- In every run, for every slave, the replies handed to the broker are the news of the replies accepted from it:
each once, in order, and only the last one may still be on its way, in a call of the slave that is about to hand
it on. Each is a frame whose trailer matched, from the address of the slave, no bare acknowledgement, NAK or BUSY. -/
theorem replies_delivered (config : SerialConfig) (texts : List Bytes) (i : Nat) (text : Bytes)
    (configured : texts[i]? = some text) (master : Master) (history : List (Nat × Event))
    (run : Run (bus config texts) free master history) :
    ∃ pending, passedOn (eventsOf i history) ++ pending = (heardIn (eventsOf i history)).news ∧ pending.length ≤ 1 ∧
      (pending ≠ [] → master.pollSlave = i ∧ ∃ size, master.position = .pop size ∨ master.position = .publish size) ∧
      ∀ publication ∈ (heardIn (eventsOf i history)).news, Worthy (addSlave text).addr publication := by
  obtain ⟨p, follows, slaveRun⟩ := run_slave configured run
  have relays := relays_run slaveRun
  refine ⟨pendingOf p, relays.balance, ?_, ?_, ?_⟩
  · unfold pendingOf newsOf
    split
    · split <;> simp
    · split <;> simp
    · exact Nat.zero_le 1
  · intro some_left
    have busy : ∃ size, p.position = .pop size ∨ p.position = .publish size := by
      unfold pendingOf at some_left
      split at some_left
      next size here => exact ⟨size, Or.inl here⟩
      next size here => exact ⟨size, Or.inr here⟩
      · exact absurd rfl some_left
    rw [follows.position] at busy
    split at busy
    next here => exact ⟨here, busy⟩
    · obtain ⟨size, idle | idle⟩ := busy <;> cases idle
  · rw [← (ledger_run slaveRun).addr]
    exact relays.worthy

def rawReply : Bytes := [0x53, 0x85, 8, 0, 0, 0x50, 1, 0x31]

theorem replies_delivered_raw :
    ∃ (history : List (Nat × Event)) (pending : List Publication),
      passedOn (eventsOf 0 history) = [⟨ascii "osdp/bus1/incoming/5", 2, [0x50, 1], 1, false⟩] ∧
      passedOn (eventsOf 0 history) ++ pending = (heardIn (eventsOf 0 history)).news ∧ pending.length ≤ 1 := by
  have checked : (replay (bus plainPort [ascii "5"]) free (bus plainPort [ascii "5"]).start
      (bus plainPort [ascii "5"]).startup (polls 8 ⟨0, 0⟩ [.data ackReply] ++ polls 8 ⟨1, 0⟩ [.data rawReply])).any
      (fun reached => passedOn (eventsOf 0 reached.2) == [⟨ascii "osdp/bus1/incoming/5", 2, [0x50, 1], 1, false⟩]) =
        true := by
    decide +kernel
  obtain ⟨master, history, run, out⟩ := exists_run checked
  rw [beq_iff_eq] at out
  obtain ⟨pending, balance, one, _⟩ := replies_delivered plainPort [ascii "5"] 0 (ascii "5") rfl master history run
  exact ⟨history, pending, out, balance, one⟩

end Runs

end OsdpMaster.ReplyDelivery
