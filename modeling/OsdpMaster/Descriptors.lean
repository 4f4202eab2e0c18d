import OsdpMaster.Bus
import OsdpMaster.Prepcom

/-!
The descriptors of the port over the retries of `busprotocol::run`. A `prepcom`
that throws after its `open` leaves the descriptor behind, and the next one
writes over `m_fd`; while it throws at the `open` only, there is never more than
one.
-/

namespace OsdpMaster.Descriptors
open OsdpMaster.Protocol OsdpMaster.Prepcom OsdpMaster.Lib.Program OsdpMaster.Lib.Trace

def establishes (settings : PortSettings) (device : Device) : Bool :=
  device.tcsetattr && (settings.usb || device.setRs485) && device.tcflush

def accepts (settings : PortSettings) (device : Device) : Bool :=
  device.tcgetattr && flowKnown settings.flow && parityKnown settings.parity &&
    decide (settings.bits = 7 ∨ settings.bits = 8) && decide (settings.stop = 1 ∨ settings.stop = 2) &&
    if settings.baud ∈ baudRates then
      device.cfsetispeed && device.cfsetospeed && establishes settings device
    else
      match device.getSerial with
      | none => false
      | some baudBase => !divides baudBase settings.baud || device.setSerial && establishes settings device

section Prepcom

variable {settings : PortSettings} {device : Device} {port : Port} {Q : Unit → Port → Prop} {E : Stop → Port → Prop}

theorem ends_ensure {passed : Bool} {message : String} (goes_on : passed = true → Q () port)
    (throws : passed = false → E (.exception message) port) : Ends (ensure passed message) port Q E := by
  unfold ensure
  cases passed with
  | true => exact goes_on rfl
  | false => exact throws rfl

theorem ends_check {passed : Bool} {message : String} {rest : EStateM Stop Port Unit}
    (goes_on : passed = true → Ends rest port Q E) (throws : passed = false → E (.exception message) port) :
    Ends (do ensure passed message; rest) port Q E :=
  (ends_bind _ _ _ _ _).mpr (ends_ensure goes_on throws)

theorem ends_establish {rest : EStateM Stop Port Unit}
    (goes_on : establishes settings device = true → Ends rest port Q E)
    (throws : establishes settings device = false → ∀ message, E (.exception message) port) :
    Ends (do
      ensure device.tcsetattr "Failed to set com port serial parameters"
      if settings.usb then pure () else ensure device.setRs485 "Failed to set RS485 parameters"
      ensure device.tcflush "Failed to flush FIFO buffers"
      rest) port Q E := by
  refine ends_check ?_ (fun failed => throws (by simp [establishes, failed]) _)
  intro line
  cases usb : settings.usb with
  | true =>
    refine ends_check ?_ (fun failed => throws (by simp [establishes, failed]) _)
    intro flush
    exact goes_on (by simp [establishes, line, usb, flush])
  | false =>
    refine ends_check ?_ (fun failed => throws (by simp [establishes, usb, failed]) _)
    intro rs485
    refine ends_check ?_ (fun failed => throws (by simp [establishes, failed]) _)
    intro flush
    exact goes_on (by simp [establishes, line, rs485, flush])

/-- With a descriptor `prepcom` returns, throws or divides by zero, and keeps the descriptor whichever way. -/
theorem prepcom_ends {fd : Nat} (opens : device.opens = some fd)
    (returns : accepts settings device = true →
      Q () ⟨{ port.protocol with nextWrite := ⟨0, 0⟩ }, fd, port.descriptors ++ [(fd : Int)]⟩)
    (throws : accepts settings device = false → ∀ message,
      E (.exception message) ⟨port.protocol, fd, port.descriptors ++ [(fd : Int)]⟩)
    (divides_by_zero : accepts settings device = true →
      E .fault ⟨port.protocol, fd, port.descriptors ++ [(fd : Int)]⟩) :
    Ends (prepcom settings device) port Q E := by
  rw [prepcom, ends_bind, openPort, opens]
  refine ends_check ?_ (fun failed => throws (by simp [accepts, failed]) _)
  intro getattr
  refine ends_check ?_ (fun failed => throws (by simp [accepts, failed]) _)
  intro flow
  refine ends_check ?_ (fun failed => throws (by simp [accepts, failed]) _)
  intro parity
  refine ends_check ?_ (fun failed => throws (by rw [accepts, failed]; simp) _)
  intro bits
  refine ends_check ?_ (fun failed => throws (by rw [accepts, failed]; simp) _)
  intro stop
  have settled := And.intro (And.intro (And.intro (And.intro getattr flow) parity) bits) stop
  simp only [← Bool.and_eq_true] at settled
  rw [ends_bind, setBaud]
  split
  next listed =>
    refine ends_check ?_ (fun failed => throws (by simp [accepts, listed, failed]) _)
    intro ispeed
    refine ends_ensure ?_ (fun failed => throws (by simp [accepts, listed, failed]) _)
    intro ospeed
    have reads : accepts settings device = establishes settings device := by
      simp only [accepts, settled, Bool.true_and, if_pos listed, ispeed, ospeed]
    exact ends_establish (fun done => returns (reads.trans done)) (fun failed => throws (reads.trans failed))
  next custom =>
    split
    next unread => exact throws (by simp [accepts, custom, unread]) _
    next baudBase read =>
      cases ratio : divides baudBase settings.baud with
      | false =>
        refine divides_by_zero ?_
        simp only [accepts, settled, Bool.true_and, if_neg custom, read, ratio, Bool.not_false, Bool.true_or]
      | true =>
        refine ends_ensure ?_ (fun failed => throws (by simp [accepts, custom, read, ratio, failed]) _)
        intro set
        have reads : accepts settings device = establishes settings device := by
          simp only [accepts, settled, Bool.true_and, if_neg custom, read, ratio, set, Bool.not_true, Bool.false_or]
        exact ends_establish (fun done => returns (reads.trans done)) (fun failed => throws (reads.trans failed))

theorem prepcom_unopened (opens : device.opens = none) :
    prepcom settings device port = .error (.exception "Failed to open COM port") { port with fd := -1 } := by
  rw [prepcom, openPort, opens]
  rfl

theorem prepcom_ok {after : Port} (done : prepcom settings device port = .ok () after) :
    ∃ fd : Nat, device.opens = some fd ∧ accepts settings device = true ∧
      after = ⟨{ port.protocol with nextWrite := ⟨0, 0⟩ }, fd, port.descriptors ++ [(fd : Int)]⟩ := by
  cases opens : device.opens with
  | none =>
    rw [prepcom_unopened opens] at done
    cases done
  | some fd =>
    have ends : Ends (prepcom settings device) port (fun _ after => accepts settings device = true ∧
        after = ⟨{ port.protocol with nextWrite := ⟨0, 0⟩ }, fd, port.descriptors ++ [(fd : Int)]⟩)
        (fun _ _ => True) :=
      prepcom_ends opens (fun accepted => ⟨accepted, rfl⟩) (fun _ _ => trivial) (fun _ => trivial)
    exact ⟨fd, rfl, ends.of_ok done⟩

theorem prepcom_throws {message : String} {after : Port}
    (thrown : prepcom settings device port = .error (.exception message) after) :
    device.opens = none ∧ after = { port with fd := -1 } ∨
      ∃ fd : Nat, device.opens = some fd ∧ accepts settings device = false ∧
        after = ⟨port.protocol, fd, port.descriptors ++ [(fd : Int)]⟩ := by
  cases opens : device.opens with
  | none =>
    rw [prepcom_unopened opens] at thrown
    cases thrown
    exact Or.inl ⟨rfl, rfl⟩
  | some fd =>
    have ends : Ends (prepcom settings device) port (fun _ _ => True) (fun stop after =>
        stop = .exception message → accepts settings device = false ∧
          after = ⟨port.protocol, fd, port.descriptors ++ [(fd : Int)]⟩) :=
      prepcom_ends opens (fun _ => trivial) (fun refused _ _ => ⟨refused, rfl⟩)
        (fun _ other => Stop.noConfusion other)
    exact Or.inr ⟨fd, rfl, ends.of_error thrown rfl⟩

theorem prepcom_stops {stop : Stop} {after : Port} (stopped : prepcom settings device port = .error stop after)
    (not_thrown : ∀ message, stop ≠ .exception message) :
    ∃ fd : Nat, device.opens = some fd ∧ accepts settings device = true ∧
      after = ⟨port.protocol, fd, port.descriptors ++ [(fd : Int)]⟩ := by
  cases opens : device.opens with
  | none =>
    rw [prepcom_unopened opens] at stopped
    cases stopped
    exact absurd rfl (not_thrown _)
  | some fd =>
    have ends : Ends (prepcom settings device) port (fun _ _ => True) (fun stop after =>
        (∀ message, stop ≠ .exception message) → accepts settings device = true ∧
          after = ⟨port.protocol, fd, port.descriptors ++ [(fd : Int)]⟩) :=
      prepcom_ends opens (fun _ => trivial) (fun _ message other => absurd rfl (other message))
        (fun accepted _ => ⟨accepted, rfl⟩)
    exact ⟨fd, rfl, ends.of_error stopped not_thrown⟩

end Prepcom

def Stage.retrying : Stage → Bool
  | .starting _ => true
  | .recovering => true
  | .polling => false
  | .fault => false

/-- At most one descriptor is open; a `prepcom` that throws leaves none; and over the retries there are
none. -/
structure Balanced (s : BusRun) (history : List Event) : Prop where
  single : s.port.descriptors.length ≤ 1
  released : ∀ tried message descriptors, .threw tried message descriptors ∈ history → descriptors = []
  retries : Stage.retrying s.stage = true → s.port.descriptors = []

/-- An attempt that fails does so at the `open`. -/
def Clean (settings : PortSettings) (device : Device) : Prop :=
  device.opens = none ∨ accepts settings device = true

instance (settings : PortSettings) (device : Device) : Decidable (Clean settings device) :=
  inferInstanceAs (Decidable (_ ∨ _))

def clean (settings : PortSettings) : BusRun → List Event → Action → Prop
  | _, _, .prepcom device => Clean settings device
  | _, _, .poll _ _ => True

instance (settings : PortSettings) (s : BusRun) (history : List Event) (action : Action) :
    Decidable (clean settings s history action) := by
  cases action with
  | prepcom device => exact inferInstanceAs (Decidable (Clean settings device))
  | poll left thrown => exact isTrue trivial

/-- While it polls, the descriptor is the one in `m_fd`. -/
structure Held (s : BusRun) (history : List Event) : Prop extends Balanced s history where
  polling : s.stage = .polling → s.port.fd ≠ -1 ∧ s.port.descriptors = [s.port.fd]

section Step

variable {settings : PortSettings} {s s' : BusRun} {history events : List Event}

@[simp] theorem switchPorts_port (s : BusRun) : (switchPorts s).port = s.port := by
  unfold switchPorts
  split <;> rfl

@[simp] theorem switchPorts_stage (s : BusRun) : (switchPorts s).stage = s.stage := by
  unfold switchPorts
  split <;> rfl

theorem retry_eq {stage : Stage} {message : String} {after : Port} {reports : List Event}
    (retried : retry s stage message after reports = some (s', events)) :
    s'.port = after ∧ s'.stage = stage ∧ events = .threw s.name message after.descriptors :: reports := by
  cases retried
  exact ⟨switchPorts_port _, switchPorts_stage _, rfl⟩

/-- How an attempt goes: the port is open and the polling goes on, the loop tries again and reports what is
open, or the process is gone. -/
inductive Attempt (settings : PortSettings) (device : Device) (s s' : BusRun) (events : List Event) : Prop
  | opened (done : prepcom settings device s.port = .ok () s'.port) (polls : s'.stage = .polling)
      (silent : ∀ tried message descriptors, .threw tried message descriptors ∉ events)
  | again (message : String) (thrown : prepcom settings device s.port = .error (.exception message) s'.port)
      (retries : Stage.retrying s'.stage = true) (reported : .threw s.name message s'.port.descriptors ∈ events)
      (only : ∀ tried message descriptors, .threw tried message descriptors ∈ events → descriptors = s'.port.descriptors)
  | gone (stop : Stop) (stopped : prepcom settings device s.port = .error stop s'.port)
      (not_thrown : ∀ message, stop ≠ .exception message) (stage : s'.stage = .fault) (silent : events = [])

theorem step_prepcom {device : Device} (stepped : step settings s (.prepcom device) = some (s', events)) :
    Stage.retrying s.stage = true ∧ Attempt settings device s s' events := by
  simp only [step] at stepped
  split at stepped
  swap
  · cases stepped
  split at stepped
  next stage done =>
    cases stepped
    exact ⟨by rw [stage]; rfl, .opened done rfl (by simp)⟩
  next first message after stage thrown =>
    obtain ⟨port, stage', events_eq⟩ := retry_eq stepped
    subst port events_eq
    refine ⟨by rw [stage]; rfl, .again message thrown (by rw [stage']; rfl) List.mem_cons_self ?_⟩
    intro tried other descriptors member
    cases first <;> simp only [if_true, if_false, Bool.false_eq_true, List.mem_cons, List.not_mem_nil, or_false,
      Event.threw.injEq, reduceCtorEq] at member <;> exact member.2.2
  next stage done =>
    cases stepped
    exact ⟨by rw [stage]; rfl, .opened done rfl (by simp)⟩
  next message after stage thrown =>
    obtain ⟨port, stage', events_eq⟩ := retry_eq stepped
    subst port events_eq
    refine ⟨by rw [stage]; rfl, .again message thrown (by rw [stage']; rfl) List.mem_cons_self ?_⟩
    intro tried other descriptors member
    simp only [List.mem_cons, List.not_mem_nil, or_false, Event.threw.injEq] at member
    exact member.2.2
  next stop after not_thrown stage stopped =>
    cases stepped
    exact ⟨by rw [stage]; rfl, .gone stop stopped not_thrown rfl rfl⟩
  next stop after not_thrown stage stopped =>
    cases stepped
    exact ⟨by rw [stage]; rfl, .gone stop stopped not_thrown rfl rfl⟩
  · cases stepped
  · cases stepped

theorem step_poll {left : Protocol} {thrown : Option String}
    (stepped : step settings s (.poll left thrown) = some (s', events)) :
    s.stage = .polling ∧ (∀ tried message descriptors, .threw tried message descriptors ∉ events) ∧
      (s'.stage = .polling ∧ s'.port = { s.port with protocol := left } ∨
        s'.stage = .recovering ∧ s'.port = close { s.port with protocol := left }) := by
  simp only [step] at stepped
  split at stepped
  swap
  · cases stepped
  next polling =>
    cases thrown with
    | none =>
      cases stepped
      exact ⟨polling, by simp, Or.inl ⟨polling, rfl⟩⟩
    | some message =>
      cases stepped
      exact ⟨polling, by simp, Or.inr ⟨rfl, rfl⟩⟩

theorem close_held {port : Port} (held : port.fd ≠ -1 ∧ port.descriptors = [port.fd]) :
    (close port).descriptors = [] := by
  show (if port.fd = -1 then port.descriptors else port.descriptors.erase port.fd) = []
  rw [if_neg held.1, held.2]
  simp

theorem released_append
    (before : ∀ tried message descriptors, .threw tried message descriptors ∈ history → descriptors = [])
    (now : ∀ tried message descriptors, .threw tried message descriptors ∈ events → descriptors = []) :
    ∀ tried message descriptors, .threw tried message descriptors ∈ history ++ events → descriptors = [] := by
  intro tried message descriptors member
  cases List.mem_append.mp member with
  | inl earlier => exact before tried message descriptors earlier
  | inr here => exact now tried message descriptors here

theorem Attempt.held {device : Device} (attempt : Attempt settings device s s' events) (held : Held s history)
    (retrying : Stage.retrying s.stage = true) (met : Clean settings device) : Held s' (history ++ events) := by
  have empty : s.port.descriptors = [] := held.retries retrying
  cases attempt with
  | opened done polls silent =>
    obtain ⟨fd, _, _, port⟩ := prepcom_ok done
    have there : s'.port.descriptors = [(fd : Int)] := by rw [port, empty]; rfl
    exact {
      single := by rw [there]; exact le_rfl
      released := released_append held.released (fun tried message descriptors member => absurd member (silent _ _ _))
      retries := by rw [polls]; exact fun other => Bool.noConfusion other
      polling := by
        intro _
        rw [there, port]
        exact ⟨by simp, rfl⟩ }
  | again message thrown retries reported only =>
    have there : s'.port.descriptors = [] := by
      rcases prepcom_throws thrown with ⟨_, port⟩ | ⟨fd, opens, refused, _⟩
      · rw [port]
        exact empty
      · -- This is the failure the condition leaves out.
        rcases met with unopened | accepted
        · rw [opens] at unopened
          cases unopened
        · rw [refused] at accepted
          cases accepted
    exact {
      single := by rw [there]; exact Nat.zero_le 1
      released := released_append held.released (fun tried message descriptors member =>
        (only tried message descriptors member).trans there)
      retries := fun _ => there
      polling := by
        intro polling
        rw [polling] at retries
        cases retries }
  | gone stop stopped not_thrown stage silent =>
    obtain ⟨fd, _, _, port⟩ := prepcom_stops stopped not_thrown
    have there : s'.port.descriptors = [(fd : Int)] := by rw [port, empty]; rfl
    subst silent
    exact {
      single := by rw [there]; exact le_rfl
      released := by rw [List.append_nil]; exact held.released
      retries := by rw [stage]; exact fun other => Bool.noConfusion other
      polling := by rw [stage]; exact fun other => Stage.noConfusion other }

theorem Attempt.leaks {device : Device} (attempt : Attempt settings device s s' events)
    (unmet : ¬Clean settings device) :
    ∃ tried message descriptors, .threw tried message descriptors ∈ events ∧ descriptors ≠ [] := by
  simp only [Clean, not_or, Bool.not_eq_true] at unmet
  cases attempt with
  | opened done polls silent =>
    obtain ⟨fd, _, accepted, _⟩ := prepcom_ok done
    rw [unmet.2] at accepted
    cases accepted
  | again message thrown retries reported only =>
    refine ⟨s.name, message, s'.port.descriptors, reported, ?_⟩
    rcases prepcom_throws thrown with ⟨unopened, _⟩ | ⟨fd, _, _, port⟩
    · exact absurd unopened unmet.1
    · rw [port]
      simp
  | gone stop stopped not_thrown stage silent =>
    obtain ⟨fd, _, accepted, _⟩ := prepcom_stops stopped not_thrown
    rw [unmet.2] at accepted
    cases accepted

theorem step_held {action : Action} (held : Held s history) (met : clean settings s history action)
    (stepped : step settings s action = some (s', events)) : Held s' (history ++ events) := by
  cases action with
  | prepcom device =>
    obtain ⟨retrying, attempt⟩ := step_prepcom stepped
    exact attempt.held held retrying met
  | poll left thrown =>
    obtain ⟨polling, silent, after⟩ := step_poll stepped
    have released := released_append held.released (fun tried message descriptors member =>
      absurd member (silent tried message descriptors))
    have holds := held.polling polling
    rcases after with ⟨stage, port⟩ | ⟨stage, port⟩
    · exact {
        single := by rw [port]; exact held.single
        released := released
        retries := by rw [stage]; exact fun other => Bool.noConfusion other
        polling := by rw [port]; exact fun _ => holds }
    · have there : s'.port.descriptors = [] := by
        rw [port]
        exact close_held holds
      exact {
        single := by rw [there]; exact Nat.zero_le 1
        released := released
        retries := fun _ => there
        polling := by rw [stage]; exact fun other => Stage.noConfusion other }

theorem run_held {config : SerialConfig} {name : Bytes} {name2 : Option Bytes} {memory : Int}
    (run : Run (busRun settings config name name2 memory) (clean settings) s history) : Held s history := by
  apply run.invariant
  · exact {
      single := Nat.zero_le 1
      released := by simp [busRun]
      retries := fun _ => rfl
      polling := fun other => Stage.noConfusion other }
  · intro s history action s' events _ held met stepped
    exact step_held held met stepped

end Step

/-- While each attempt that fails does so at the `open`, the descriptors are in balance; and the first
step that does not meet this breaks it. -/
theorem descriptors_balanced (settings : PortSettings) (config : SerialConfig) (name : Bytes)
    (name2 : Option Bytes) (memory : Int) (s : BusRun) (history : List Event)
    (run : Run (busRun settings config name name2 memory) (clean settings) s history) :
    Balanced s history ∧
      ∀ action s' events, step settings s action = some (s', events) →
        (Balanced s' (history ++ events) ↔ clean settings s history action) := by
  have held := run_held run
  refine ⟨held.toBalanced, ?_⟩
  intro action s' events stepped
  constructor
  · intro balanced
    cases action with
    | poll left thrown => trivial
    | prepcom device =>
      by_contra unmet
      obtain ⟨_, attempt⟩ := step_prepcom stepped
      obtain ⟨tried, message, descriptors, member, some_open⟩ := attempt.leaks unmet
      exact some_open (balanced.released tried message descriptors (List.mem_append_right _ member))
  · intro met
    exact (step_held held met stepped).toBalanced

def plainLine : PortSettings := ⟨57600, 0x4E, 8, 1, 0x4E, true⟩

def working (fd : Nat) : Device := ⟨some fd, true, some 115200, true, true, true, true, true, true⟩

def noTerminal (fd : Nat) : Device := { working fd with tcgetattr := false }

def unplugged : Device := { working 0 with opens := none }

/-- The port is plugged in late, fails, and comes back after two more attempts. -/
theorem descriptors_balanced_replug :
    ∃ s history, Run (busRun plainLine Bus.plainPort (ascii "a") (some (ascii "b")) 0) (clean plainLine) s history ∧
      s.stage = .polling ∧ s.name = ascii "b" ∧ s.port.descriptors = [4] ∧ Balanced s history := by
  have checked : (replay (busRun plainLine Bus.plainPort (ascii "a") (some (ascii "b")) 0) (clean plainLine)
      (busRun plainLine Bus.plainPort (ascii "a") (some (ascii "b")) 0).start [] [.prepcom unplugged,
        .prepcom (working 3), .poll (Protocol.construct Bus.plainPort) (some "read I/O error"), .prepcom unplugged,
        .prepcom unplugged, .prepcom (working 4)]).any (fun reached => decide (reached.1.stage = .polling) &&
          decide (reached.1.name = ascii "b") && decide (reached.1.port.descriptors = [4])) = true := by
    decide +kernel
  obtain ⟨s, history, run, reached⟩ := exists_run checked
  simp only [Bool.and_eq_true, decide_eq_true_eq] at reached
  exact ⟨s, history, run, reached.1.1, reached.1.2, reached.2,
    (descriptors_balanced _ _ _ _ _ s history run).1⟩

/-- Where the device opens but is no terminal, each attempt leaves a descriptor more. -/
theorem descriptors_pile_up :
    ¬∀ (settings : PortSettings) (config : SerialConfig) (name : Bytes) (name2 : Option Bytes) (memory : Int)
      (s : BusRun) (history : List Event),
      Run (busRun settings config name name2 memory) free s history → Balanced s history := by
  intro always
  have checked : (replay (busRun plainLine Bus.plainPort (ascii "a") none 0) free
      (busRun plainLine Bus.plainPort (ascii "a") none 0).start [] [.prepcom (noTerminal 3),
        .prepcom (noTerminal 4)]).any (fun reached => decide (reached.1.port.descriptors = [3, 4])) = true := by
    decide +kernel
  obtain ⟨s, history, run, reached⟩ := exists_run checked
  have single := (always _ _ _ _ _ s history run).single
  rw [of_decide_eq_true reached] at single
  exact absurd single (by decide)

end OsdpMaster.Descriptors
