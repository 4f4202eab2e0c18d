import OsdpMaster.OsdpDef
import OsdpMaster.Timespec
import OsdpMaster.Lib.Program

/-!
The state of `class protocol` and what the operating system does to it. A read
takes its outcome from `input`, a write from `output`; a run that meets the end
of either list is still waiting there.
-/

namespace OsdpMaster

/-- The fields of `serial_config` the protocol reads while it runs. The two pad counts are C
`char`s, so their values may be negative. -/
structure SerialConfig where
  lead : Int
  trail : Int
  timeout : Int
  delay : Int
  idle : Int
  deriving DecidableEq, Repr

structure Buffer where
  bytes : Bytes
  size : bytes.length = SLAVE_BUFF_SIZE
  deriving DecidableEq

/-- What `read(2)` finds: bytes, of which it takes as many as were asked for and leaves the others
to the next read (none at all is a read of 0 bytes); or an errno. With `EAGAIN` comes the clock
reading `read_some` then takes. -/
inductive ReadOutcome
  | data (bytes : Bytes)
  | eintr
  | eagain (tick : Timespec)
  | error
  deriving DecidableEq

/-- What `write(2)` does: takes up to `count` of the bytes offered, or fails with an errno. -/
inductive WriteOutcome
  | accept (count : Nat)
  | eintr
  | eagain
  | error
  deriving DecidableEq

structure Protocol where
  config : SerialConfig
  inBuffer : Buffer
  outBuffer : Buffer
  outLen : UInt16
  myAddr : UInt8
  nextWrite : Timespec
  deadline : Timespec
  input : List ReadOutcome
  output : List WriteOutcome
  /-- The bytes the port has accepted. -/
  wire : Bytes
  /-- The bytes handed to `xlog`, call by call. -/
  logged : List Bytes
  /-- The timeouts handed to `poll(2)` while reading. -/
  waits : List Int
  deriving DecidableEq

/-- Why a call ends without its value: a negative return code, which every caller hands on; a
`protocol_exception`; the outcomes are used up while it waits; or an access outside a buffer. -/
inductive Stop
  | code (value : Int)
  | exception (message : String)
  | blocked
  | fault
  deriving DecidableEq

abbrev Proto := EStateM Stop Protocol

def Buffer.zero : Buffer := ⟨List.replicate SLAVE_BUFF_SIZE 0, List.length_replicate⟩

namespace Protocol

/-- The constructor: a master, which sees all addresses. It leaves the arrays and the deadline as
they are in memory; here they are zero. -/
def construct (config : SerialConfig) : Protocol where
  config := config
  inBuffer := Buffer.zero
  outBuffer := Buffer.zero
  outLen := 0
  myAddr := 0xFF
  nextWrite := ⟨0, 0⟩
  deadline := ⟨0, 0⟩
  input := []
  output := []
  wire := []
  logged := []
  waits := []

def pendingOf : List ReadOutcome → Nat
  | [] => 0
  | .data bytes :: rest => bytes.length + 1 + pendingOf rest
  | _ :: rest => 1 + pendingOf rest

def pending (m : Protocol) : Nat := pendingOf m.input

def store (buffer : Buffer) (offset : Nat) (data : Bytes)
    (fits : offset + data.length ≤ SLAVE_BUFF_SIZE) : Buffer where
  bytes := buffer.bytes.take offset ++ data ++ buffer.bytes.drop (offset + data.length)
  size := by
    have size := buffer.size
    simp only [List.length_append, List.length_take, List.length_drop, size]
    omega

theorem take_store (buffer : Buffer) (offset : Nat) (data : Bytes)
    (fits : offset + data.length ≤ SLAVE_BUFF_SIZE) :
    (store buffer offset data fits).bytes.take (offset + data.length) =
      buffer.bytes.take offset ++ data := by
  have size := buffer.size
  have whole : (buffer.bytes.take offset ++ data).length = offset + data.length := by
    simp only [List.length_append, List.length_take, size]
    omega
  exact List.take_left' whole

def load (i : Int) : Proto UInt8 := do
  let m ← get
  if 0 ≤ i ∧ i < SLAVE_BUFF_SIZE then pure (m.inBuffer.bytes.getD i.toNat 0) else throw .fault

/-- The bytes `m_in_buffer[0..length)`, as a loop over them reads them. -/
def loadRange (length : Int) : Proto Bytes := do
  let m ← get
  if length ≤ SLAVE_BUFF_SIZE then pure (m.inBuffer.bytes.take length.toNat) else throw .fault

/-- `memset` or `memmove` to the start of `m_in_buffer`. -/
def storeFront (data : Bytes) : Proto Unit := do
  let m ← get
  if fits : 0 + data.length ≤ SLAVE_BUFF_SIZE then
    set { m with inBuffer := store m.inBuffer 0 data fits }
  else throw .fault

def readstamp (now : Timespec) : Proto Unit :=
  modify fun m =>
    let nsec := now.nsec + m.config.delay * 1000
    if nsec ≥ 1000000000 then { m with nextWrite := ⟨now.sec + 1, nsec - 1000000000⟩ }
    else { m with nextWrite := ⟨now.sec, nsec⟩ }

def delaywait (now : Timespec) : Proto Unit := do
  let m ← get
  if m.nextWrite.sec = 0 ∧ m.nextWrite.nsec = 0 then readstamp now

end Protocol

end OsdpMaster
