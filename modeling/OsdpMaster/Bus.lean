import OsdpMaster.Lib.Trace
import OsdpMaster.SlavePoll

/-!
The master: the poll thread of `busprotocol::run` over the list of slaves, and
the MQTT thread with `message_callback`, each taking its steps in any order.
-/

namespace OsdpMaster.Bus
open OsdpMaster.Protocol OsdpMaster.SlavePoll OsdpMaster.Split OsdpMaster.Lib.Trace

/-- `m_poll_slave` is the index of a slave. -/
structure Master where
  slaves : List OsdpSlave
  pollSlave : Nat
  port : Protocol
  crcCount : Nat
  timeoutCount : Nat
  position : Position

inductive Action
  | poll (t : Tick)
  | message (topic payload : Bytes)

/-- The selection loop of `slave_poll` from `a` on; as many rounds as there are slaves are enough. -/
def nextSlave (slaves : List OsdpSlave) (current : Nat) : Nat → Nat → Nat
  | 0, a => a
  | rounds + 1, a =>
    let a := if a + 1 = slaves.length then 0 else a + 1
    if a = current then a
    else if (slaves[a]?.map pollable).getD false then a
    else nextSlave slaves current rounds a

/-- The start of `slave_poll`, up to `s.offline()`. -/
def select (master : Master) : Option (Master × List (Nat × Event)) :=
  let a := nextSlave master.slaves master.pollSlave master.slaves.length master.pollSlave
  match master.slaves[a]? with
  | none => none
  | some slave =>
    some ({ master with
      pollSlave := a, position := if pollable slave then .offlineTest else .idle }, [])

/-- What `run` does about an exception: it opens the port again, and `prepcom` clears the time of the
next write. -/
def reopen (events : List Event) (port : Protocol) : Protocol :=
  if events.any (fun event => match event with | .ended (.exception _) => true | _ => false) then
    { port with nextWrite := ⟨0, 0⟩ }
  else port

def pollSelected (master : Master) (t : Tick) : Option (Master × List (Nat × Event)) :=
  match master.slaves[master.pollSlave]? with
  | none => none
  | some slave =>
    match pollStep ⟨slave, master.port, master.crcCount, master.timeoutCount, master.position⟩ t with
    | none => none
    | some (p, events) =>
      some ({ master with
        slaves := master.slaves.set master.pollSlave p.slave
        port := reopen events p.port
        crcCount := p.crcCount
        timeoutCount := p.timeoutCount
        position := p.position }, events.map (fun event => (master.pollSlave, event)))

/-- The slave a topic is for; no answer where an assertion fails or a component is missing. -/
def route (slaves : List OsdpSlave) (topic : Bytes) : Option (List Bytes × Option Nat) :=
  match split topic 0x2F 0 with
  | first :: second :: third :: fourth :: rest =>
    if first = ascii "osdp" ∧ second = ascii "bus1" ∧ third = ascii "outgoing" then
      some (first :: second :: third :: fourth :: rest,
        slaves.findIdx? (fun slave => slave.addr.toNat = strtoul fourth))
    else none
  | _ => none

def messageCallback (master : Master) (topic payload : Bytes) : Option (Master × List (Nat × Event)) :=
  match route master.slaves topic with
  | none => none
  | some (_, none) => some (master, [])
  | some (components, some i) =>
    match master.slaves[i]? with
    | none => none
    | some slave =>
      let (after, events) := deliver slave components payload
      some ({ master with slaves := master.slaves.set i after }, events.map (fun event => (i, event)))

def step (master : Master) : Action → Option (Master × List (Nat × Event))
  | .poll t => if master.position = .idle then select master else pollSelected master t
  | .message topic payload => messageCallback master topic payload

/-- The slaves of the configuration, each announced as offline. -/
def bus (config : SerialConfig) (texts : List Bytes) : System Master Action (Nat × Event) where
  start := ⟨texts.map addSlave, 0, Protocol.construct config, 0, 0, .idle⟩
  startup := texts.zipIdx.map (fun numbered =>
    (numbered.2, .published (Slave.declareOnline (addSlave numbered.1) false)))
  step := step

def eventsOf (i : Nat) (history : List (Nat × Event)) : List Event :=
  history.filterMap (fun tagged => if tagged.1 = i then some tagged.2 else none)

/-- So many steps of the poll thread with the clock at `now`, where the port takes whole frames and the
reads of a reply find `input`. -/
def polls (steps : Nat) (now : Timespec) (input : List ReadOutcome) : List Action :=
  List.replicate steps (.poll ⟨now, now, true, input, [.accept SLAVE_BUFF_SIZE]⟩)

def plainPort : SerialConfig := ⟨0, 0, 1000, 0, 0⟩

def ackReply : Bytes := [0x53, 0x85, 7, 0, 0, OSDP_ACK, 0x1F]

end OsdpMaster.Bus
