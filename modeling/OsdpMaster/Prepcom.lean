import OsdpMaster.Lib.Trace
import OsdpMaster.Protocol

/-!
How the port is opened and closed: `prepcom` with every check it makes after the
open, `close`, and what `busprotocol::run` makes of their failures and of the
exceptions of `slave_poll`.
-/

namespace OsdpMaster.Prepcom
open OsdpMaster.Protocol OsdpMaster.Lib.Trace

/-- The fields of `serial_config` that only `prepcom` reads. -/
structure PortSettings where
  baud : Int
  parity : UInt8
  bits : UInt8
  stop : UInt8
  flow : UInt8
  usb : Bool
  deriving DecidableEq

/-- What the system calls of one `prepcom` give: the descriptor of `open`, if it succeeds, the `baud_base`
that `TIOCGSERIAL` reads, if it does, and whether each of the others succeeds. The result of `TIOCGRS485` is
not looked at. -/
structure Device where
  opens : Option Nat
  tcgetattr : Bool
  getSerial : Option Int
  setSerial : Bool
  cfsetispeed : Bool
  cfsetospeed : Bool
  tcsetattr : Bool
  setRs485 : Bool
  tcflush : Bool
  deriving DecidableEq

/-- The protocol with `m_fd`, and all descriptors of the port that the process has open. -/
structure Port where
  protocol : Protocol
  fd : Int
  descriptors : List Int
  deriving DecidableEq

/-- The rates that have a constant of their own. -/
def baudRates : List Int :=
  [50, 75, 110, 134, 150, 200, 300, 600, 1200, 1800, 2400, 4800, 9600, 19200, 38400, 57600, 115200, 230400]

def ensure (passed : Bool) (message : String) : EStateM Stop Port Unit :=
  if passed then pure () else throw (.exception message)

def openPort (device : Device) : EStateM Stop Port Unit :=
  match device.opens with
  | none => do
    modify fun port => { port with fd := -1 }
    throw (.exception "Failed to open COM port")
  | some fd => modify fun port => { port with fd := fd, descriptors := port.descriptors ++ [(fd : Int)] }

def flowKnown (flow : UInt8) : Bool := flow ∈ ascii "nNrR"

def parityKnown (parity : UInt8) : Bool := parity ∈ ascii "nNEeOo"

/-- `nuts.baud_base / m_config.baud` has a value. -/
def divides (baudBase baud : Int) : Bool := baud ≠ 0 ∧ ¬(baudBase = -2147483648 ∧ baud = -1)

/-- The baud rate: a constant, or a divisor of the driver's own rate. -/
def setBaud (settings : PortSettings) (device : Device) : EStateM Stop Port Unit :=
  if settings.baud ∈ baudRates then do
    ensure device.cfsetispeed "Failed to set com port baud rate"
    ensure device.cfsetospeed "Failed to set com port baud rate"
  else
    match device.getSerial with
    | none => throw (.exception "Failed to read com port settings")
    | some baudBase => do
      if divides baudBase settings.baud then pure () else throw .fault
      ensure device.setSerial "Failed to set com port settings (baud rate)"

/-- In the source the rates with a constant are set in the line settings after the `switch`. -/
def prepcom (settings : PortSettings) (device : Device) : EStateM Stop Port Unit := do
  openPort device
  ensure device.tcgetattr "Port settings can't be read"
  ensure (flowKnown settings.flow) "Unknown flow control"
  ensure (parityKnown settings.parity) "Unsupported parity setting"
  ensure (settings.bits = 7 ∨ settings.bits = 8) "Unsupported data bits size"
  ensure (settings.stop = 1 ∨ settings.stop = 2) "Unsupported stop bits"
  setBaud settings device
  ensure device.tcsetattr "Failed to set com port serial parameters"
  if settings.usb then pure () else ensure device.setRs485 "Failed to set RS485 parameters"
  ensure device.tcflush "Failed to flush FIFO buffers"
  modify fun port => { port with protocol := { port.protocol with nextWrite := ⟨0, 0⟩ } }

def close (port : Port) : Port where
  protocol := port.protocol
  descriptors := if port.fd = -1 then port.descriptors else port.descriptors.erase port.fd
  fd := -1

/-- Where `busprotocol::run` stands: in its first loop, in the polling loop, or in the loop that opens the
port again; or the process is gone. -/
inductive Stage
  | starting (first : Bool)
  | polling
  | recovering
  | fault
  deriving DecidableEq

structure BusRun where
  port : Port
  name : Bytes
  name2 : Option Bytes
  stage : Stage
  deriving DecidableEq

/-- The next thing that happens: an attempt of `prepcom`, or a call of `slave_poll`, which leaves the
protocol in some state and may throw. -/
inductive Action
  | prepcom (device : Device)
  | poll (left : Protocol) (thrown : Option String)

inductive Event
  /-- `prepcom` threw for the port, and left these descriptors open. -/
  | threw (name : Bytes) (message : String) (descriptors : List Int)
  | failedToOpen (name : Bytes)
  | opened (name : Bytes) (delay timeout : Int)
  | errorWhilePolling (message : String)
  | reopened (name : Bytes)
  deriving DecidableEq

def switchPorts (s : BusRun) : BusRun :=
  match s.name2 with
  | none => s
  | some name2 => { s with name := name2, name2 := some s.name }

def Device.fresh (device : Device) (port : Port) : Bool :=
  device.opens.all (fun fd => (fd : Int) ∉ port.descriptors)

/-- `prepcom` failed with an exception; `stage` is where `run` goes on. -/
def retry (s : BusRun) (stage : Stage) (message : String) (after : Port) (reports : List Event) :
    Option (BusRun × List Event) :=
  some (switchPorts { s with port := after, stage := stage }, .threw s.name message after.descriptors :: reports)

def step (settings : PortSettings) (s : BusRun) : Action → Option (BusRun × List Event)
  | .prepcom device =>
    if device.fresh s.port then
      match s.stage, prepcom settings device s.port with
      | .starting _, .ok _ after =>
        some ({ s with port := after, stage := .polling },
          [.opened s.name after.protocol.config.delay after.protocol.config.timeout])
      | .starting first, .error (.exception message) after =>
        retry s (.starting false) message after (if first then [.failedToOpen s.name] else [])
      | .recovering, .ok _ after => some ({ s with port := after, stage := .polling }, [.reopened s.name])
      | .recovering, .error (.exception message) after => retry s .recovering message after []
      | .starting _, .error _ after => some ({ s with port := after, stage := .fault }, [])
      | .recovering, .error _ after => some ({ s with port := after, stage := .fault }, [])
      | .polling, _ => none
      | .fault, _ => none
    else none
  | .poll left thrown =>
    if s.stage = .polling then
      match thrown with
      | none => some ({ s with port := { s.port with protocol := left } }, [])
      | some message =>
        some ({ s with port := close { s.port with protocol := left }, stage := .recovering },
          [.errorWhilePolling message])
    else none

/-- The constructor leaves `m_fd` as it is in memory. -/
def busRun (settings : PortSettings) (config : SerialConfig) (name : Bytes) (name2 : Option Bytes) (memory : Int) :
    System BusRun Action Event where
  start := ⟨⟨Protocol.construct config, memory, []⟩, name, name2, .starting true⟩
  startup := []
  step := step settings

end OsdpMaster.Prepcom
