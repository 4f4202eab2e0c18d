import OsdpMaster.BusStep
import OsdpMaster.Descriptors

/-!
The whole process: the poll thread in the loops of `busprotocol::run`, which
opens the port and opens it again after an I/O error, and the MQTT thread beside
it at any time. Seen from the port it is `Prepcom.busRun`, and seen from the
slaves it is `Bus.bus`, where the loops do not show.
-/

namespace OsdpMaster.WholeProcess
open OsdpMaster.Protocol OsdpMaster.SlavePoll OsdpMaster.Bus OsdpMaster.BusStep OsdpMaster.Prepcom
open OsdpMaster.Descriptors OsdpMaster.Lib.Trace
open OsdpMaster.RetryBound (current)

/-- The master without its port, and the loops of `run` with it. -/
structure Process where
  slaves : List OsdpSlave
  pollSlave : Nat
  crcCount : Nat
  timeoutCount : Nat
  position : Position
  run : BusRun

inductive Action
  | prepcom (device : Device)
  | poll (t : Tick)
  | message (topic payload : Bytes)

inductive Note
  | port (event : Prepcom.Event)
  | slave (tagged : Nat × SlavePoll.Event)
  deriving DecidableEq

def Process.master (p : Process) : Master :=
  ⟨p.slaves, p.pollSlave, p.run.port.protocol, p.crcCount, p.timeoutCount, p.position⟩

def Process.after (master : Master) (run : BusRun) : Process :=
  ⟨master.slaves, master.pollSlave, master.crcCount, master.timeoutCount, master.position, run⟩

def thrownIn (events : List (Nat × SlavePoll.Event)) : Option String :=
  events.findSome? fun tagged => match tagged.2 with | .ended (.exception message) => some message | _ => none

def call (master : Master) (t : Tick) : Option (Master × List (Nat × SlavePoll.Event)) :=
  if master.position = .idle then select master
  else
    match master.slaves[master.pollSlave]? with
    | none => none
    | some slave =>
      match pollStep (current master slave) t with
      | none => none
      | some (p, events) =>
        some (⟨master.slaves.set master.pollSlave p.slave, master.pollSlave, p.port, p.crcCount, p.timeoutCount,
          p.position⟩, tag master.pollSlave events)

def step (settings : PortSettings) (p : Process) : Action → Option (Process × List Note)
  | .prepcom device =>
    match Prepcom.step settings p.run (.prepcom device) with
    | none => none
    | some (run, reports) => some ({ p with run := run }, reports.map .port)
  | .poll t =>
    match call p.master t with
    | none => none
    | some (master, events) =>
      match Prepcom.step settings p.run (.poll master.port (thrownIn events)) with
      | none => none
      | some (run, reports) => some (.after master run, events.map .slave ++ reports.map .port)
  | .message topic payload =>
    if p.run.stage = .fault then none
    else
      match messageCallback p.master topic payload with
      | none => none
      | some (master, events) => some (.after master p.run, events.map .slave)

/-- `name` and `name2` are `port.device` and `port.device2` of the configuration. -/
def process (settings : PortSettings) (config : SerialConfig) (name : Bytes) (name2 : Option Bytes) (memory : Int)
    (texts : List Bytes) : System Process Action Note where
  start := .after (bus config texts).start (busRun settings config name name2 memory).start
  startup := (bus config texts).startup.map .slave
  step := step settings

section Views

def seePort : Note → Option Prepcom.Event
  | .port event => some event
  | .slave _ => none

def seeSlave : Note → Option (Nat × SlavePoll.Event)
  | .port _ => none
  | .slave tagged => some tagged

@[simp] theorem seePort_port (reports : List Prepcom.Event) : (reports.map Note.port).filterMap seePort = reports := by
  rw [List.filterMap_map]
  exact List.filterMap_some

@[simp] theorem seePort_slave (events : List (Nat × SlavePoll.Event)) :
    (events.map Note.slave).filterMap seePort = [] := by
  rw [List.filterMap_map, List.filterMap_eq_nil_iff]
  exact fun _ _ => rfl

@[simp] theorem seeSlave_slave (events : List (Nat × SlavePoll.Event)) :
    (events.map Note.slave).filterMap seeSlave = events := by
  rw [List.filterMap_map]
  exact List.filterMap_some

@[simp] theorem seeSlave_port (reports : List Prepcom.Event) : (reports.map Note.port).filterMap seeSlave = [] := by
  rw [List.filterMap_map, List.filterMap_eq_nil_iff]
  exact fun _ _ => rfl

end Views

section Port

variable {settings : PortSettings} {config : SerialConfig} {name : Bytes} {name2 : Option Bytes} {memory : Int}
  {texts : List Bytes} {p p' : Process} {action : Action} {history notes : List Note}

/-- What each step is, at the port and for the slaves. -/
inductive Stepped (settings : PortSettings) (p : Process) : Action → Process → List Note → Prop
  | tried (device : Device) (run : BusRun) (reports : List Prepcom.Event)
      (attempt : Prepcom.step settings p.run (.prepcom device) = some (run, reports)) :
      Stepped settings p (.prepcom device) { p with run := run } (reports.map .port)
  | polled (t : Tick) (master : Master) (events : List (Nat × SlavePoll.Event))
      (called : call p.master t = some (master, events)) (run : BusRun) (reports : List Prepcom.Event)
      (left : Prepcom.step settings p.run (.poll master.port (thrownIn events)) = some (run, reports)) :
      Stepped settings p (.poll t) (.after master run) (events.map .slave ++ reports.map .port)
  | told (topic payload : Bytes) (alive : p.run.stage ≠ .fault) (master : Master)
      (events : List (Nat × SlavePoll.Event)) (worked : messageCallback p.master topic payload = some (master, events)) :
      Stepped settings p (.message topic payload) (.after master p.run) (events.map .slave)

theorem step_stepped (stepped : step settings p action = some (p', notes)) : Stepped settings p action p' notes := by
  cases action with
  | prepcom device =>
    simp only [step] at stepped
    split at stepped
    · cases stepped
    next run reports attempt =>
      cases stepped
      exact .tried device run reports attempt
  | poll t =>
    simp only [step] at stepped
    split at stepped
    · cases stepped
    next master events called =>
      split at stepped
      · cases stepped
      next run reports left =>
        cases stepped
        exact .polled t master events called run reports left
  | message topic payload =>
    simp only [step] at stepped
    split at stepped
    · cases stepped
    next alive =>
      split at stepped
      · cases stepped
      next master events worked =>
        cases stepped
        exact .told topic payload alive master events worked

theorem port_run (run : Run (process settings config name name2 memory texts) free p history) :
    Run (busRun settings config name name2 memory) free p.run (history.filterMap seePort) := by
  have simulated := @Run.simulated _ _ _ _ _ _ _ (busRun settings config name name2 memory) free free seePort
    (fun p run => p.run = run) rfl (seePort_slave _) ?_ p history run
  · obtain ⟨_, same, image⟩ := simulated
    exact same ▸ image
  · rintro p _ history action p' notes rfl _ _ stepped
    cases step_stepped stepped with
    | tried device run reports attempt =>
      rw [seePort_port]
      exact Or.inr ⟨run, .prepcom device, rfl, trivial, attempt⟩
    | polled t master events called run reports left =>
      rw [List.filterMap_append, seePort_slave, seePort_port]
      exact Or.inr ⟨run, .poll master.port (thrownIn events), rfl, trivial, left⟩
    | told => exact Or.inl ⟨rfl, seePort_slave _⟩

end Port

section Slaves

variable {settings : PortSettings} {config : SerialConfig} {name : Bytes} {name2 : Option Bytes} {memory : Int}
  {texts : List Bytes} {p p' : Process} {history notes : List Note} {master master' : Master}
  {events : List (Nat × SlavePoll.Event)}

/-- The port of a process that does not poll is as good as reopened. -/
def settled (stage : Stage) (port : Protocol) : Protocol :=
  if stage = .polling then port else { port with nextWrite := ⟨0, 0⟩ }

def Process.seen (p : Process) : Master := { p.master with port := settled p.run.stage p.run.port.protocol }

theorem reopen_thrown (i : Nat) (own : List SlavePoll.Event) (port : Protocol) :
    reopen own port = if (thrownIn (tag i own)).isSome then { port with nextWrite := ⟨0, 0⟩ } else port := by
  refine if_congr ?_ rfl rfl
  rw [List.any_eq_true, thrownIn, List.findSome?_isSome_iff]
  constructor
  · rintro ⟨event, member, thrown⟩
    refine ⟨(i, event), mem_tag.mpr ⟨rfl, member⟩, ?_⟩
    split at thrown
    · rfl
    · cases thrown
  · rintro ⟨⟨j, event⟩, member, thrown⟩
    refine ⟨event, (mem_tag.mp member).2, ?_⟩
    split at thrown
    next message same =>
      simp only at same
      rw [same]
    · cases thrown

/-- The step of `Bus` is the step of the call, and then the port is opened again if the call threw. -/
theorem step_call {t : Tick} (called : call master t = some (master', events)) :
    Bus.step master (.poll t) = some ({ master' with
      port := if (thrownIn events).isSome then { master'.port with nextWrite := ⟨0, 0⟩ } else master'.port }, events) := by
  simp only [call] at called
  split at called
  next idle =>
    rw [Bus.step, if_pos idle, called]
    simp only [select] at called
    split at called
    · cases called
    · cases called
      rfl
  next busy =>
    split at called
    · cases called
    next slave there =>
      split at called
      · cases called
      next q own polled =>
        cases called
        rw [step_polled busy there polled, afterStep, reopen_thrown]

theorem messageCallback_port {topic payload : Bytes} (port : Protocol)
    (worked : messageCallback master topic payload = some (master', events)) :
    Bus.step { master with port := port } (.message topic payload) = some ({ master' with port := port }, events) := by
  cases BusStep.step_stepped (show Bus.step master (.message topic payload) = _ from worked) with
  | passed _ _ components routed => exact step_passed routed
  | told _ _ components i routed slave there =>
    exact @step_told { master with port := port } topic payload components i routed slave there

theorem step_left {settings : PortSettings} {run run' : BusRun} {left : Protocol} {thrown : Option String}
    {reports : List Prepcom.Event} (stepped : Prepcom.step settings run (.poll left thrown) = some (run', reports)) :
    run.stage = .polling ∧
      settled run'.stage run'.port.protocol = if thrown.isSome then { left with nextWrite := ⟨0, 0⟩ } else left := by
  simp only [Prepcom.step] at stepped
  split at stepped
  next polling =>
    refine ⟨polling, ?_⟩
    cases thrown with
    | none =>
      cases stepped
      simp [settled, polling]
    | some message =>
      cases stepped
      rfl
  · cases stepped

theorem step_tried {settings : PortSettings} {run run' : BusRun} {device : Device} {reports : List Prepcom.Event}
    (stepped : Prepcom.step settings run (.prepcom device) = some (run', reports)) :
    settled run'.stage run'.port.protocol = settled run.stage run.port.protocol := by
  obtain ⟨retrying, attempt⟩ := step_prepcom stepped
  have before : run.stage ≠ .polling := by
    intro polling
    rw [polling] at retrying
    cases retrying
  rw [settled, settled, if_neg before]
  cases attempt with
  | opened done polls silent =>
    obtain ⟨fd, _, _, after⟩ := prepcom_ok done
    rw [if_pos polls, after]
  | again message thrown retries reported only =>
    have still : run'.stage ≠ .polling := by
      intro polling
      rw [polling] at retries
      cases retries
    rw [if_neg still]
    rcases prepcom_throws thrown with ⟨_, after⟩ | ⟨fd, _, _, after⟩
    · rw [after]
    · rw [after]
  | gone stop stopped not_thrown stage silent =>
    obtain ⟨fd, _, _, after⟩ := prepcom_stops stopped not_thrown
    rw [stage, after]
    rfl

/-- Each step of the process is a step of the master, or nothing to the slaves. -/
theorem step_seen {settings : PortSettings} {action : Action} (stepped : step settings p action = some (p', notes)) :
    p'.seen = p.seen ∧ notes.filterMap seeSlave = [] ∨
      ∃ action', Bus.step p.seen action' = some (p'.seen, notes.filterMap seeSlave) := by
  cases step_stepped stepped with
  | tried device run reports attempt =>
    refine Or.inl ⟨?_, seeSlave_port _⟩
    simp only [Process.seen, step_tried attempt]
    rfl
  | polled t master events called run reports left =>
    obtain ⟨polling, after⟩ := step_left left
    refine Or.inr ⟨.poll t, ?_⟩
    have same : p.seen = p.master := by
      simp only [Process.seen, settled, if_pos polling]
      rfl
    rw [same, step_call called, List.filterMap_append, seeSlave_slave, seeSlave_port, List.append_nil, ← after]
    rfl
  | told topic payload alive master events worked =>
    refine Or.inr ⟨.message topic payload, ?_⟩
    rw [seeSlave_slave]
    have seen := messageCallback_port (settled p.run.stage p.run.port.protocol) worked
    exact seen

/-- In every run of the process, however its threads take turns, `prepcom` fails and the port breaks: the slaves
see a run of the master, and the port sees a run of the loops. -/
theorem process_refines (settings : PortSettings) (config : SerialConfig) (name : Bytes) (name2 : Option Bytes)
    (memory : Int) (texts : List Bytes) (p : Process) (history : List Note)
    (run : Run (process settings config name name2 memory texts) free p history) :
    Run (bus config texts) free p.seen (history.filterMap seeSlave) ∧
      Run (busRun settings config name name2 memory) free p.run (history.filterMap seePort) := by
  refine ⟨?_, port_run run⟩
  have simulated := @Run.simulated _ _ _ _ _ _ _ (bus config texts) free free seeSlave
    (fun p master => p.seen = master) rfl (seeSlave_slave _) ?_ p history run
  · obtain ⟨_, same, image⟩ := simulated
    exact same ▸ image
  · rintro p _ history action p' notes rfl _ _ stepped
    rcases step_seen stepped with ⟨same, unseen⟩ | ⟨action', there⟩
    · exact Or.inl ⟨same, unseen⟩
    · exact Or.inr ⟨p'.seen, action', rfl, trivial, there⟩

/-- The first port is unplugged; the second one breaks after a call; the first one is there again. -/
def failover : List Action :=
  [.prepcom unplugged, .prepcom (working 3)] ++
    List.replicate 8 (.poll ⟨⟨0, 0⟩, ⟨0, 0⟩, true, [.data ackReply], [.accept SLAVE_BUFF_SIZE]⟩) ++
    List.replicate 4 (.poll ⟨⟨1, 0⟩, ⟨1, 0⟩, true, [], []⟩) ++
    [.poll ⟨⟨1, 0⟩, ⟨1, 0⟩, true, [], [.accept 5, .error]⟩, .message (ascii "osdp/bus1/outgoing/5") [OSDP_POLL, 7],
      .prepcom unplugged, .prepcom (working 4)] ++
    List.replicate 8 (.poll ⟨⟨7, 0⟩, ⟨7, 0⟩, true, [.data ackReply], [.accept SLAVE_BUFF_SIZE]⟩)

theorem process_refines_failover :
    ∃ (p : Process) (history : List Note), .port (.reopened (ascii "a")) ∈ history ∧
      (history.filterMap seeSlave).countP (fun tagged => tagged.2 == .accepted) = 2 ∧
      Run (bus plainPort [ascii "5"]) free p.seen (history.filterMap seeSlave) := by
  have checked : (replay (process plainLine plainPort (ascii "a") (some (ascii "b")) 0 [ascii "5"]) free
      (process plainLine plainPort (ascii "a") (some (ascii "b")) 0 [ascii "5"]).start
      (process plainLine plainPort (ascii "a") (some (ascii "b")) 0 [ascii "5"]).startup failover).any (fun reached =>
        decide (.port (.reopened (ascii "a")) ∈ reached.2) &&
        (reached.2.filterMap seeSlave).countP (fun tagged => tagged.2 == .accepted) == 2) = true := by
    decide +kernel
  obtain ⟨p, history, run, reached⟩ := exists_run checked
  simp only [Bool.and_eq_true, beq_iff_eq, decide_eq_true_eq] at reached
  obtain ⟨reopened, accepted⟩ := reached
  exact ⟨p, history, reopened, accepted,
    (process_refines plainLine plainPort (ascii "a") (some (ascii "b")) 0 [ascii "5"] p history run).1⟩

end Slaves

section Reports

def opens : Prepcom.Event → Bool
  | .opened _ _ _ => true
  | _ => false

def failed : Prepcom.Event → Bool
  | .threw _ _ _ => true
  | _ => false

def openingFailed (history : List Prepcom.Event) : Bool := (history.takeWhile fun event => !opens event).any failed

def reported (history : List Prepcom.Event) : List Bytes :=
  history.filterMap fun event => match event with | .failedToOpen name => some name | _ => none

theorem openingFailed_append (history events : List Prepcom.Event) : openingFailed (history ++ events) =
    (openingFailed history || (!history.any opens && openingFailed events)) := by
  rw [openingFailed, List.takeWhile_append]
  cases ended : history.any opens with
  | false =>
    have whole : history.takeWhile (fun event => !opens event) = history := by
      rw [List.takeWhile_eq_self_iff]
      intro event member
      rw [List.any_eq_false] at ended
      simpa using ended event member
    rw [if_pos (by rw [whole]), List.any_append, openingFailed, whole]
    rfl
  | true =>
    have cut : (history.takeWhile fun event => !opens event).length ≠ history.length := by
      intro same
      have whole := (List.takeWhile_prefix fun event => !opens event).eq_of_length same
      obtain ⟨event, member, opening⟩ := List.any_eq_true.mp ended
      have kept := List.takeWhile_eq_self_iff.mp whole event member
      rw [opening] at kept
      cases kept
    rw [if_neg cut, openingFailed]
    simp

theorem reported_append (history events : List Prepcom.Event) :
    reported (history ++ events) = reported history ++ reported events := List.filterMap_append

/-- In the opening loop `first` says whether nothing has failed; after it no failure counts. -/
structure Tells (name : Bytes) (s : BusRun) (history : List Prepcom.Event) : Prop where
  told : reported history = if openingFailed history then [name] else []
  starting : ∀ first, s.stage = .starting first → history.any opens = false ∧ openingFailed history = !first ∧
    (first = true → s.name = name)
  later : s.stage = .polling ∨ s.stage = .recovering → history.any opens = true

variable {settings : PortSettings} {config : SerialConfig} {name : Bytes} {name2 : Option Bytes} {memory : Int}
  {s s' : BusRun} {history events : List Prepcom.Event}

theorem Tells.on (tells : Tells name s history) (ended : history.any opens = true) (silent : reported events = [])
    (stage : ∀ first, s'.stage ≠ .starting first) : Tells name s' (history ++ events) where
  told := by
    rw [reported_append, silent, List.append_nil, openingFailed_append, ended]
    simpa using tells.told
  starting first same := absurd same (stage first)
  later _ := by rw [List.any_append, ended, Bool.true_or]

/-- A failed attempt of the opening loop, of which the first one is reported. -/
theorem Tells.fails (tells : Tells name s history) {first : Bool} (stage : s.stage = .starting first)
    (message : String) (after : Port) :
    Tells name (switchPorts { s with port := after, stage := .starting false })
      (history ++ .threw s.name message after.descriptors :: if first then [.failedToOpen s.name] else []) := by
  obtain ⟨before, failures, named⟩ := tells.starting first stage
  have told := tells.told
  rw [failures] at told
  refine ⟨?_, ?_, ?_⟩
  · rw [reported_append, openingFailed_append, told, failures, before]
    cases first with
    | true => simp [reported, openingFailed, opens, failed, named rfl]
    | false => simp [reported]
  · intro first' same
    rw [switchPorts_stage] at same
    cases same
    refine ⟨?_, ?_, fun same => (by cases same)⟩
    · rw [List.any_append, before]
      cases first <;> rfl
    · rw [openingFailed_append, before]
      cases first <;> simp [openingFailed, opens, failed]
  · rw [switchPorts_stage]
    rintro (same | same) <;> cases same

theorem Tells.ends (tells : Tells name s history) (after : Port) :
    Tells name { s with port := after, stage := .fault } (history ++ []) := by
  rw [List.append_nil]
  exact ⟨tells.told, fun _ same => (by cases same), fun same => (by rcases same with same | same <;> cases same)⟩

theorem step_tells {action : Prepcom.Action} (tells : Tells name s history)
    (stepped : Prepcom.step settings s action = some (s', events)) : Tells name s' (history ++ events) := by
  cases action with
  | poll left thrown =>
    simp only [Prepcom.step] at stepped
    split at stepped
    next polling =>
      have ended := tells.later (Or.inl polling)
      split at stepped
      · cases stepped
        exact tells.on ended rfl (by simp [polling])
      · cases stepped
        exact tells.on ended rfl (by simp)
    · cases stepped
  | prepcom device =>
    simp only [Prepcom.step] at stepped
    split at stepped
    swap
    · cases stepped
    split at stepped
    next first after stage done =>
      cases stepped
      obtain ⟨before, failures, _⟩ := tells.starting _ stage
      refine ⟨?_, fun first same => (by cases same), fun _ => by simp [opens]⟩
      rw [reported_append, openingFailed_append]
      simpa [reported, openingFailed, opens] using tells.told
    next first message after stage thrown =>
      cases stepped
      exact tells.fails stage message after
    next stage done =>
      cases stepped
      exact tells.on (tells.later (Or.inr stage)) rfl (by simp)
    next message after stage thrown =>
      cases stepped
      exact tells.on (tells.later (Or.inr stage)) rfl (by simp)
    next stop after not_thrown stage stopped =>
      cases stepped
      exact tells.ends after
    next stop after not_thrown stage stopped =>
      cases stepped
      exact tells.ends after
    · cases stepped
    · cases stepped

theorem run_tells (run : Run (busRun settings config name name2 memory) free s history) : Tells name s history := by
  apply run.invariant (I := Tells name)
  · exact ⟨rfl, fun first same => by cases same; exact ⟨rfl, rfl, fun _ => rfl⟩, fun same => by
      rcases same with same | same <;> cases same⟩
  · intro s history action s' events _ tells _ stepped
    exact step_tells tells stepped

end Reports

section Turns

/-- Whether the port is open, as the log of `run` tells. -/
def openAfter (before : Bool) : Note → Bool
  | .port (.opened _ _ _) => true
  | .port (.reopened _) => true
  | .port (.errorWhilePolling _) => false
  | _ => before

def isOpen (history : List Note) : Bool := history.foldl openAfter false

def isFailure : Note → Bool
  | .port (.threw _ _ _) => true
  | _ => false

/-- `m_config.port` and `m_port2` after so many failures. -/
def turn (name : Bytes) (name2 : Option Bytes) (failures : Nat) : Bytes × Option Bytes :=
  match name2 with
  | none => (name, none)
  | some other => if failures % 2 = 0 then (name, some other) else (other, some name)

/-- What the poll thread does in `slave_poll`, and the MQTT thread does not. -/
def inCall : SlavePoll.Event → Bool
  | .arrived _ _ => false
  | .published publication => !publication.retain
  | _ => true

/-- When a note may come: calls run on an open port only, each attempt is made on the port whose turn it is, and a
failure is reported at once. -/
def Fitting (name : Bytes) (name2 : Option Bytes) (before : List Note) : Note → Prop
  | .port (.threw tried _ _) => isOpen before = false ∧ tried = (turn name name2 (before.countP isFailure)).1
  | .port (.failedToOpen tried) => isOpen before = false ∧ before.countP isFailure = 1 ∧
      before.getLast?.any isFailure = true ∧ tried = name
  | .port (.opened tried _ _) => isOpen before = false ∧ tried = (turn name name2 (before.countP isFailure)).1
  | .port (.reopened tried) => isOpen before = false ∧ tried = (turn name name2 (before.countP isFailure)).1
  | .port (.errorWhilePolling _) => isOpen before = true
  | .slave (_, event) => inCall event = true → isOpen before = true

/-- What `prepcom` does not throw at, whichever the device. -/
def supported (settings : PortSettings) : Bool :=
  flowKnown settings.flow && parityKnown settings.parity &&
    decide (settings.bits = 7 ∨ settings.bits = 8) && decide (settings.stop = 1 ∨ settings.stop = 2)

theorem supported_of_accepts {settings : PortSettings} {device : Device} (accepted : accepts settings device = true) :
    supported settings = true := by
  simp only [accepts, Bool.and_eq_true] at accepted
  obtain ⟨⟨⟨⟨⟨_, flow⟩, parity⟩, bits⟩, stop⟩, _⟩ := accepted
  simp only [supported, flow, parity, bits, stop, Bool.and_self]

theorem turn_switch {name : Bytes} {name2 : Option Bytes} {failures : Nat} {s : BusRun}
    (names : (s.name, s.name2) = turn name name2 failures) :
    ((switchPorts s).name, (switchPorts s).name2) = turn name name2 (failures + 1) := by
  obtain ⟨first, second⟩ := Prod.mk.inj names
  unfold switchPorts
  cases name2 with
  | none =>
    simp only [turn] at first second ⊢
    simp only [second, first]
  | some other =>
    simp only [turn] at first second ⊢
    by_cases even : failures % 2 = 0
    · rw [if_pos even] at first second
      rw [if_neg (by omega)]
      simp only [second, first]
    · rw [if_neg even] at first second
      rw [if_pos (by omega)]
      simp only [second, first]

variable {settings : PortSettings} {config : SerialConfig} {name : Bytes} {name2 : Option Bytes} {memory : Int}
  {texts : List Bytes} {p p' : Process} {history notes : List Note}

structure InTurn (settings : PortSettings) (name : Bytes) (name2 : Option Bytes) (p : Process) (history : List Note) :
    Prop where
  names : (p.run.name, p.run.name2) = turn name name2 (history.countP isFailure)
  opened : isOpen history = true ↔ p.run.stage = .polling
  first : p.run.stage = .starting true → history.countP isFailure = 0
  fitting : Always (Fitting name name2) history
  held : p.run.stage = .polling → supported settings = true ∧
    ∃ fd : Nat, p.run.port.fd = fd ∧ (fd : Int) ∈ p.run.port.descriptors

theorem isOpen_slaves (history : List Note) (events : List (Nat × SlavePoll.Event)) :
    isOpen (history ++ events.map Note.slave) = isOpen history ∧
      (history ++ events.map Note.slave).countP isFailure = history.countP isFailure := by
  constructor
  · rw [isOpen, List.foldl_append]
    apply foldl_keeps id
    intro note member before
    obtain ⟨tagged, _, rfl⟩ := List.mem_map.mp member
    rfl
  · rw [List.countP_append, List.countP_map]
    have none_fails : events.countP (isFailure ∘ Note.slave) = 0 := List.countP_eq_zero.mpr (fun _ _ => Bool.false_ne_true)
    rw [none_fails, Nat.add_zero]

theorem fitting_slaves (events : List (Nat × SlavePoll.Event))
    (allowed : ∀ tagged ∈ events, inCall tagged.2 = true → isOpen history = true) :
    Always (fun before note => Fitting name name2 (history ++ before) note) (events.map Note.slave) := by
  intro before note after split
  have part : before = (events.take before.length).map Note.slave := by
    rw [List.map_take, split, List.take_left]
  have member : note ∈ events.map Note.slave := split ▸ by simp
  obtain ⟨tagged, inside, rfl⟩ := List.mem_map.mp member
  intro working
  rw [part, (isOpen_slaves history _).1]
  exact allowed tagged inside working

theorem isOpen_snoc (history : List Note) (note : Note) : isOpen (history ++ [note]) = openAfter (isOpen history) note := by
  rw [isOpen, List.foldl_append]
  rfl

theorem InTurn.slaves (turns : InTurn settings name name2 p history) {events : List (Nat × SlavePoll.Event)}
    (allowed : ∀ tagged ∈ events, inCall tagged.2 = true → isOpen history = true)
    (names : (p'.run.name, p'.run.name2) = (p.run.name, p.run.name2)) (stage : p'.run.stage = p.run.stage)
    (held : (p'.run.port.fd, p'.run.port.descriptors) = (p.run.port.fd, p.run.port.descriptors)) :
    InTurn settings name name2 p' (history ++ events.map Note.slave) where
  names := by rw [names, (isOpen_slaves history events).2, turns.names]
  opened := by rw [(isOpen_slaves history events).1, stage, turns.opened]
  first := by
    rw [(isOpen_slaves history events).2, stage]
    exact turns.first
  fitting := always_append.mpr ⟨turns.fitting, fitting_slaves events allowed⟩
  held := by
    obtain ⟨fd, descriptors⟩ := Prod.mk.inj held
    rw [stage, fd, descriptors]
    exact turns.held

theorem InTurn.breaks (turns : InTurn settings name name2 p history) (polling : p.run.stage = .polling) (message : String)
    (names : (p'.run.name, p'.run.name2) = (p.run.name, p.run.name2)) (stage : p'.run.stage = .recovering) :
    InTurn settings name name2 p' (history ++ [.port (.errorWhilePolling message)]) where
  names := by
    rw [names, List.countP_append, turns.names]
    rfl
  opened := by
    rw [isOpen_snoc, stage]
    exact iff_of_false Bool.false_ne_true (fun same => by cases same)
  first := by
    rw [stage]
    intro same
    cases same
  fitting := always_snoc.mpr ⟨turns.fitting, turns.opened.mpr polling⟩
  held := by
    rw [stage]
    intro same
    cases same

theorem InTurn.fails (turns : InTurn settings name name2 p history) (shut : isOpen history = false) (stage : Stage)
    (after : Port) (message : String) (going : stage ≠ .polling) (later : stage ≠ .starting true) :
    InTurn settings name name2 { p with run := switchPorts { p.run with port := after, stage := stage } }
      (history ++ [.port (.threw p.run.name message after.descriptors)]) := by
  refine ⟨?_, ?_, ?_, always_snoc.mpr ⟨turns.fitting, shut, congrArg Prod.fst turns.names⟩, ?_⟩
  · rw [List.countP_append]
    exact turn_switch (s := ⟨after, p.run.name, p.run.name2, stage⟩) turns.names
  · rw [isOpen_snoc, switchPorts_stage, shut]
    exact iff_of_false Bool.false_ne_true going
  · rw [switchPorts_stage]
    exact fun same => absurd same later
  · rw [switchPorts_stage]
    exact fun same => absurd same going

theorem InTurn.reports (turns : InTurn settings name name2 p history) {note : Note}
    (silent : openAfter (isOpen history) note = isOpen history) (counted : isFailure note = false)
    (fits : Fitting name name2 history note) : InTurn settings name name2 p (history ++ [note]) := by
  have count : (history ++ [note]).countP isFailure = history.countP isFailure := by
    rw [List.countP_append, List.countP_singleton, counted]
    rfl
  refine ⟨?_, ?_, ?_, always_snoc.mpr ⟨turns.fitting, fits⟩, turns.held⟩
  · rw [count, turns.names]
  · rw [isOpen_snoc, silent, turns.opened]
  · rw [count]
    exact turns.first

theorem InTurn.gone (turns : InTurn settings name name2 p history) (shut : isOpen history = false) (after : Port) :
    InTurn settings name name2 { p with run := { p.run with port := after, stage := .fault } }
      (history ++ ([] : List Prepcom.Event).map .port) := by
  rw [List.map_nil, List.append_nil]
  refine ⟨turns.names, ?_, (fun same => by cases same), turns.fitting, (fun same => by cases same)⟩
  rw [shut]
  exact iff_of_false Bool.false_ne_true (fun same => by cases same)

theorem told_quiet {master master' : Master} {topic payload : Bytes} {events : List (Nat × SlavePoll.Event)}
    (worked : messageCallback master topic payload = some (master', events)) :
    ∀ tagged ∈ events, inCall tagged.2 = false := by
  cases BusStep.step_stepped (show Bus.step master (.message topic payload) = _ from worked) with
  | passed => exact fun _ member => by cases member
  | told _ _ components i routed slave there =>
    rintro ⟨j, event⟩ member
    have inside := (mem_tag.mp member).2
    simp only [deliver, List.mem_append, List.mem_map] at inside
    rcases inside with arrival | ⟨publication, published, rfl⟩
    · split at arrival
      · cases arrival
      · rw [List.mem_singleton.mp arrival]
        rfl
    · simp only [inCall, Slave.messageForSlave_retained published, Bool.not_true]

theorem InTurn.tried (turns : InTurn settings name name2 p history) {device : Device} {run : BusRun}
    {reports : List Prepcom.Event}
    (attempt : Prepcom.step settings p.run (.prepcom device) = some (run, reports)) :
    InTurn settings name name2 { p with run := run } (history ++ reports.map .port) := by
  have shut : isOpen history = false := by
    rw [Bool.eq_false_iff]
    intro standing
    have retrying := (step_prepcom attempt).1
    rw [turns.opened.mp standing] at retrying
    cases retrying
  have turned : p.run.name = (turn name name2 (history.countP isFailure)).1 := congrArg Prod.fst turns.names
  have opens {after : Port} {report : Note} (done : prepcom settings device p.run.port = .ok () after)
      (reported : openAfter false report = true) (counted : isFailure report = false)
      (fits : Fitting name name2 history report) :
      InTurn settings name name2 { p with run := { p.run with port := after, stage := .polling } }
        (history ++ [report]) := by
    obtain ⟨fd, _, accepted, there⟩ := prepcom_ok done
    refine ⟨?_, ?_, (fun same => by cases same), always_snoc.mpr ⟨turns.fitting, fits⟩, ?_⟩
    · rw [List.countP_append, List.countP_singleton, counted]
      exact turns.names
    · rw [isOpen_snoc, shut, reported]
      exact iff_of_true rfl rfl
    · intro _
      refine ⟨supported_of_accepts accepted, fd, ?_, ?_⟩
      · rw [there]
      · rw [there]
        exact List.mem_append_right _ List.mem_cons_self
  simp only [Prepcom.step] at attempt
  split at attempt
  swap
  · cases attempt
  split at attempt
  next stage done =>
    cases attempt
    exact opens done rfl rfl ⟨shut, turned⟩
  next first message after stage thrown =>
    cases attempt
    have failed := turns.fails shut (.starting false) after message (by simp) (by simp)
    cases first with
    | false => exact failed
    | true =>
      rw [if_pos rfl, List.map_cons, List.map_singleton, ← List.singleton_append, ← List.append_assoc]
      refine failed.reports rfl rfl ⟨?_, ?_, ?_, ?_⟩
      · rw [isOpen_snoc, shut]
        rfl
      · rw [List.countP_append, turns.first stage]
        rfl
      · rw [List.getLast?_concat]
        rfl
      · rw [turned, turns.first stage]
        cases name2 <;> rfl
  next stage done =>
    cases attempt
    exact opens done rfl rfl ⟨shut, turned⟩
  next message after stage thrown =>
    cases attempt
    exact turns.fails shut .recovering after message (by simp) (by simp)
  next stop after not_thrown stage stopped =>
    cases attempt
    exact turns.gone shut after
  next stop after not_thrown stage stopped =>
    cases attempt
    exact turns.gone shut after
  · cases attempt
  · cases attempt

theorem step_turns {action : Action} (turns : InTurn settings name name2 p history)
    (stepped : step settings p action = some (p', notes)) : InTurn settings name name2 p' (history ++ notes) := by
  cases step_stepped stepped with
  | tried device run reports attempt => exact turns.tried attempt
  | polled t master events called run reports left =>
    simp only [Prepcom.step] at left
    split at left
    swap
    · cases left
    next polling =>
      have allowed : ∀ tagged ∈ events, inCall tagged.2 = true → isOpen history = true :=
        fun _ _ _ => turns.opened.mpr polling
      split at left
      · cases left
        rw [List.map_nil, List.append_nil]
        exact turns.slaves allowed rfl rfl rfl
      next message _ =>
        cases left
        rw [List.map_singleton, ← List.append_assoc]
        exact (InTurn.slaves turns allowed rfl rfl rfl).breaks polling message rfl rfl
  | told topic payload alive master events worked =>
    refine turns.slaves ?_ rfl rfl rfl
    intro tagged member working
    rw [told_quiet worked tagged member] at working
    cases working

theorem process_turns
    (run : Run (process settings config name name2 memory texts) free p history) :
    InTurn settings name name2 p history := by
  apply run.invariant (I := InTurn settings name name2)
  · have quiet : ∀ tagged ∈ (bus config texts).startup, inCall tagged.2 = true → isOpen [] = true := by
      intro tagged member working
      obtain ⟨_, _, rfl⟩ := List.mem_map.mp member
      cases working
    have start : InTurn settings name name2 (process settings config name name2 memory texts).start [] := by
      refine ⟨?_, iff_of_false Bool.false_ne_true (fun same => by cases same), fun _ => rfl, always_nil _,
        (fun same => by cases same)⟩
      cases name2 <;> rfl
    exact start.slaves quiet rfl rfl rfl
  · intro p history action p' notes _ turns _ stepped
    exact step_turns turns stepped

/-- In every run of the process, calls run on an open port only: `slave_poll` works between an opening of the port
and the next error while polling, on a descriptor that is open. Each attempt is made on the port whose turn it is:
the names are switched after each failure, whether the port was open before or not. Of the failures only the first one
of the opening loop, if there is one, is reported. Where the settings are not supported there is never a call. -/
theorem ports_in_turn (settings : PortSettings) (config : SerialConfig) (name : Bytes) (name2 : Option Bytes)
    (memory : Int) (texts : List Bytes) (p : Process) (history : List Note)
    (run : Run (process settings config name name2 memory texts) free p history) :
    Always (Fitting name name2) history ∧
      reported (history.filterMap seePort) = (if openingFailed (history.filterMap seePort) then [name] else []) ∧
      (isOpen history = true → supported settings = true ∧
        ∃ fd : Nat, p.run.port.fd = fd ∧ (fd : Int) ∈ p.run.port.descriptors) := by
  have turns := process_turns run
  exact ⟨turns.fitting, (run_tells (port_run run)).told, fun standing => turns.held (turns.opened.mp standing)⟩

theorem ports_in_turn_failover :
    ∃ (p : Process) (history : List Note), isOpen history = true ∧ history.countP isFailure = 2 ∧
      reported (history.filterMap seePort) = [ascii "a"] ∧
        ∃ fd : Nat, p.run.port.fd = fd ∧ (fd : Int) ∈ p.run.port.descriptors := by
  have checked : (replay (process plainLine plainPort (ascii "a") (some (ascii "b")) 0 [ascii "5"]) free
      (process plainLine plainPort (ascii "a") (some (ascii "b")) 0 [ascii "5"]).start
      (process plainLine plainPort (ascii "a") (some (ascii "b")) 0 [ascii "5"]).startup failover).any (fun reached =>
        isOpen reached.2 && reached.2.countP isFailure == 2 && openingFailed (reached.2.filterMap seePort)) = true := by
    decide +kernel
  obtain ⟨p, history, run, reached⟩ := exists_run checked
  simp only [Bool.and_eq_true, beq_iff_eq] at reached
  obtain ⟨⟨standing, two⟩, failed⟩ := reached
  have turns := ports_in_turn plainLine plainPort (ascii "a") (some (ascii "b")) 0 [ascii "5"] p history run
  exact ⟨p, history, standing, two, turns.2.1.trans (if_pos failed), (turns.2.2 standing).2⟩

end Turns

end OsdpMaster.WholeProcess
