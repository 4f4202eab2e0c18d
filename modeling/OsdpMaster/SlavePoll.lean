import OsdpMaster.ProtocolRead
import OsdpMaster.ProtocolWrite
import OsdpMaster.Slave

/-!
One call of `slave_poll` on the slave it selected, as steps between which the
MQTT thread may run: each access to the queue is a step of its own. The steps
emit what the call does that others can see.
-/

namespace OsdpMaster.SlavePoll
open OsdpMaster.Protocol OsdpMaster.Slave OsdpMaster.Split OsdpMaster.Lib.Program

inductive Position
  /-- Not in a call for this slave. -/
  | idle
  /-- `if(s.offline())` -/
  | offlineTest
  /-- `while(!m_msglist.empty())` in `purge` -/
  | purgeTest
  /-- `m_msglist.pop()` in `purge` -/
  | purgePop
  /-- Is it time to try another poll? -/
  | tickle
  /-- `if(s.m_retry > 0)` -/
  | backoff
  /-- `if(!s.empty())` -/
  | emptyTest
  /-- `blob msg = s.front();` -/
  | front
  /-- `flush_input(); writecook(...);` -/
  | transmit (payload : Bytes) (sendmsg : Bool)
  /-- `int size = readcook();` -/
  | receive (sendmsg : Bool)
  /-- The work on a reply, up to `s.ack()`. -/
  | reply (size : Int) (sendmsg : Bool)
  /-- `s.pop()` -/
  | pop (size : Int)
  /-- `if(omsg->data[0] != OSDP_ACK)` -/
  | publish (size : Int)
  /-- The branch for an error of `readcook`. -/
  | failed (size : Int)
  /-- After an access outside an array or to a value never set. -/
  | fault
  deriving DecidableEq

inductive Ending
  | notTime
  | exception (message : String)
  | wrongAddress
  | nak
  | busy
  | replied
  | failed (size : Int)
  deriving DecidableEq

inductive Event
  /-- A message for the slave came in while it was enabled, or not. -/
  | arrived (message : Bytes) (enabled : Bool)
  | called (offline : Bool)
  /-- A frame was handed to `writecook`: a message of the queue, or a plain poll. -/
  | sent (seq : UInt8) (payload : Bytes) (sendmsg : Bool)
  /-- `readcook` returned, and left `m_in_buffer` so. -/
  | received (size : Int) (buffer : Bytes)
  | accepted
  /-- A message left the queue, by a purge or after its reply. -/
  | removed (message : Bytes) (purged : Bool)
  | published (publication : Publication)
  | ended (ending : Ending)
  deriving DecidableEq

/-- The slave at work, the port, the error counters and where the call stands. -/
structure Poll where
  slave : OsdpSlave
  port : Protocol
  crcCount : Nat
  timeoutCount : Nat
  position : Position
  deriving DecidableEq

/-- What the system does for one step: its clock at the step and at the end of `readcook`, whether
`tcflush` succeeds, what the reads find and the writes take. -/
structure Tick where
  now : Timespec
  stamp : Timespec
  flushes : Bool
  input : List ReadOutcome
  output : List WriteOutcome

/-- The next poll of a stopped slave. -/
def nextTickle (now : Timespec) : Timespec := ⟨now.sec + 5, now.nsec⟩

def inByte (port : Protocol) (i : Nat) : UInt8 := port.inBuffer.bytes.getD i 0

/-- The publication of a reply: `size-5` bytes from `m_in_buffer + 5`. -/
def incoming (size : Int) (port : Protocol) : Publication :=
  let topic := ascii "osdp/bus1/incoming/" ++ decimal (inByte port 1 &&& 0x7F).toNat
  ⟨topic, size - 5, (port.inBuffer.bytes.drop 5).take (size - 5).toNat, 1, false⟩

/-- `m_rxseq` at a reply that carries `seq`. -/
def noteSeq (slave : OsdpSlave) (seq : UInt8) : OsdpSlave :=
  if slave.rxseq = 0 ∨ seq = 0 then { slave with rxseq := nextSeq seq } else slave

theorem noteSeq_slave (slave : OsdpSlave) (seq : UInt8) :
    ∃ rxseq, noteSeq slave seq = { slave with rxseq := rxseq } := by
  unfold noteSeq
  split
  · exact ⟨_, rfl⟩
  · exact ⟨slave.rxseq, rfl⟩

def refused (slave : OsdpSlave) (code seq : UInt8) : OsdpSlave :=
  { slave with txseq := if code = OSDP_NAK then 0 else slave.txseq, rxseq := nextSeq seq }

abbrev Outcome := Option (Poll × List Event)

def Poll.leave (p : Poll) (ending : Ending) (events : List Event) : Outcome :=
  some ({ p with position := .idle }, events ++ [.ended ending])

def Poll.goto (p : Poll) (position : Position) (events : List Event) : Outcome :=
  some ({ p with position := position }, events)

/-- `flush_input` and `writecook`. The sequence number and address are those of the slave. -/
def transmit (p : Poll) (t : Tick) (payload : Bytes) (sendmsg : Bool) : Outcome :=
  let sent := Event.sent p.slave.txseq payload sendmsg
  if !t.flushes then p.leave (.exception "Failed to flush input buffer") []
  else
    match writecook t.now p.slave.addr.toNat p.slave.txseq.toNat payload { p.port with output := t.output } with
    | .ok _ port => { p with port := port }.goto (.receive sendmsg) [sent]
    | .error (.exception message) port => { p with port := port }.leave (.exception message) [sent]
    | .error .fault port => { p with port := port }.goto .fault [sent]
    | .error _ _ => none

def receive (p : Poll) (t : Tick) (sendmsg : Bool) : Outcome :=
  match readcook t.now t.stamp { p.port with input := t.input } with
  | .ok size port =>
    { p with port := port }.goto (if size > 0 then .reply size sendmsg else .failed size)
      [.received size port.inBuffer.bytes]
  | .error (.exception message) port => { p with port := port }.leave (.exception message) []
  | .error .fault port => { p with port := port }.goto .fault []
  | .error _ _ => none

/-- `prepare to work the reply`, up to `s.ack()`. -/
def reply (p : Poll) (size : Int) (sendmsg : Bool) : Outcome :=
  if inByte p.port 1 &&& 0x7F ≠ p.slave.addr then p.leave .wrongAddress []
  else
    let seq := inByte p.port 4 &&& 0x03
    let code := inByte p.port 5
    let slave := noteSeq p.slave seq
    if code = OSDP_NAK ∨ code = OSDP_BUSY then
      { p with slave := refused slave code seq }.leave (if code = OSDP_NAK then .nak else .busy) []
    else
      let (slave, published) := ack slave
      { p with slave := slave }.goto (if sendmsg then .pop size else .publish size)
        (.accepted :: published.map .published)

/-- `m_msglist.pop()`, from `position` to `next`. -/
def popMessage (p : Poll) (next : Position) (purged : Bool) : Outcome :=
  match p.slave.msglist with
  | [] => p.goto .fault []
  | message :: rest =>
    { p with slave := { p.slave with msglist := rest } }.goto next [.removed message purged]

/-- `m_next_poll` is compared for a slave that missed a poll. -/
def backoff (p : Poll) (now : Timespec) : Outcome :=
  if p.slave.retry > 0 then
    match p.slave.nextPoll with
    | none => p.goto .fault []
    | some nextPoll => if now.before nextPoll then p.leave .notTime [] else p.goto .emptyTest []
  else p.goto .emptyTest []

def countError (p : Poll) (size : Int) : Poll :=
  if size = PROTO_ERR_CRC then { p with crcCount := p.crcCount + 1 }
  else if size = PROTO_ERR_TIMEOUT then { p with timeoutCount := p.timeoutCount + 1 }
  else p

/-- `s.nak()` and the counters. -/
def failed (p : Poll) (size : Int) (now : Timespec) : Outcome :=
  let (slave, published) := nak p.slave now
  { countError p size with slave := slave }.leave (.failed size) (published.map .published)

/-- The poll thread's next step; `none` while the system has not done what it waits for. -/
def pollStep (p : Poll) (t : Tick) : Outcome :=
  match p.position with
  | .idle => none
  | .offlineTest =>
    p.goto (if offline p.slave then .purgeTest else .backoff) [.called (offline p.slave)]
  | .purgeTest => p.goto (if p.slave.msglist = [] then .tickle else .purgePop) []
  | .purgePop => popMessage p .purgeTest true
  | .tickle =>
    if t.now.before p.slave.nextAssign then p.leave .notTime []
    else
      { p with slave := { p.slave with nextAssign := nextTickle t.now } }.goto
        (.transmit [OSDP_POLL] false) []
  | .backoff => backoff p t.now
  | .emptyTest => p.goto (if p.slave.msglist = [] then .transmit [OSDP_POLL] false else .front) []
  | .front => p.goto (.transmit (front p.slave) true) []
  | .transmit payload sendmsg => transmit p t payload sendmsg
  | .receive sendmsg => receive p t sendmsg
  | .reply size sendmsg => reply p size sendmsg
  | .pop size => popMessage p (.publish size) false
  | .publish size =>
    if inByte p.port 5 ≠ OSDP_ACK then p.leave .replied [.published (incoming size p.port)]
    else p.leave .replied []
  | .failed size => failed p size t.now
  | .fault => none

/-- `message_for_slave` and what it lets others see. -/
def deliver (slave : OsdpSlave) (components : List Bytes) (payload : Bytes) : OsdpSlave × List Event :=
  let (after, published) := messageForSlave slave components payload
  let arrival := if isControl components then [] else [Event.arrived payload slave.enabled]
  (after, arrival ++ published.map .published)

theorem deliver_slave (slave : OsdpSlave) (components : List Bytes) (payload : Bytes) :
    ∃ more enabled, (deliver slave components payload).1 =
      { slave with msglist := slave.msglist ++ more, enabled := enabled } := by
  simp only [deliver, messageForSlave]
  split
  · obtain ⟨enabled, kept⟩ := control_slave slave payload
    exact ⟨[], enabled, by simp [kept]⟩
  · split
    · exact ⟨[], slave.enabled, by simp⟩
    · exact ⟨[payload], slave.enabled, by simp [push]⟩

theorem deliver_events (slave : OsdpSlave) (components : List Bytes) (payload : Bytes) :
    ∀ event ∈ (deliver slave components payload).2,
      (∃ publication, event = .published publication) ∨ event = .arrived payload slave.enabled := by
  intro event member
  simp only [deliver, List.mem_append, List.mem_map] at member
  rcases member with arrival | ⟨publication, _, published⟩
  · split at arrival
    · cases arrival
    · exact Or.inr (List.mem_singleton.mp arrival)
  · exact Or.inl ⟨publication, published.symm⟩

theorem forall_deliver {P : Event → Prop} (published : ∀ publication, P (.published publication))
    (arrived : ∀ message enabled, P (.arrived message enabled)) (slave : OsdpSlave) (components : List Bytes)
    (payload : Bytes) : ∀ event ∈ (deliver slave components payload).2, P event := by
  intro event member
  rcases deliver_events _ _ _ _ member with ⟨publication, publishes⟩ | arrives
  · exact publishes ▸ published publication
  · exact arrives ▸ arrived payload slave.enabled

theorem forall_published {P : Event → Prop} (published : ∀ publication, P (.published publication))
    (publications : List Publication) : ∀ event ∈ publications.map Event.published, P event := by
  intro event member
  obtain ⟨publication, _, publishes⟩ := List.mem_map.mp member
  exact publishes ▸ published publication

theorem deliver_noticed (slave : OsdpSlave) (components : List Bytes) (payload : Bytes) :
    (deliver slave components payload).2 ≠ [] := by
  simp only [deliver, messageForSlave]
  cases told : isControl components with
  | true =>
    obtain ⟨tf, only⟩ := control_published slave payload
    simp [only]
  | false => simp

theorem deliver_control {components : List Bytes} (control : isControl components = true)
    (slave : OsdpSlave) (payload : Bytes) : deliver slave components payload =
      ((Slave.control slave payload).1, (Slave.control slave payload).2.map .published) := by
  simp only [deliver, messageForSlave, control, if_true, List.nil_append]

def pollable (slave : OsdpSlave) : Bool := defined slave && slave.enabled

/-- A slave as `add_slave` makes it from the address of its section. -/
def addSlave (text : Bytes) : OsdpSlave := init { Slave.construct with addr := UInt8.ofNat (strtoul text) }

end OsdpMaster.SlavePoll
