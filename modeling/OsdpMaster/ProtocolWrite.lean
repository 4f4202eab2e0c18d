import OsdpMaster.Crc16
import OsdpMaster.Protocol

/-! The transmit path of `osdpprotocol.cpp`: `writecook`, `write` and `resend`. The pointer `out` is
its index in `m_out_buffer`. -/

namespace OsdpMaster.Protocol
open OsdpMaster.Crc16 OsdpMaster.Lib.Program

/-- `memmove(out, data, size)`, and `out` past it. -/
def putAll (out : Nat) (data : Bytes) : Proto Nat := do
  let m ← get
  if fits : out + data.length ≤ SLAVE_BUFF_SIZE then do
    set { m with outBuffer := store m.outBuffer out data fits }
    pure (out + data.length)
  else throw .fault

def put (out : Nat) (value : UInt8) : Proto Nat := putAll out [value]

def putPayload (out : Nat) (payload : Bytes) : Proto Nat :=
  if payload.length > 0 then putAll out payload else pure out

def padTimes : Nat → Nat → Proto Nat
  | 0, out => pure out
  | count + 1, out => do
    let out ← put out 0xFF
    padTimes count out

/-- `for(int i = 0; i < count; i++) *out++ = 0xFF;` -/
def pad (count : Int) (out : Nat) : Proto Nat := padTimes count.toNat out

/-- The bytes `[start, out)` of `m_out_buffer`, as a loop over them reads them. -/
def outRange (start out : Nat) : Proto Bytes := do
  let m ← get
  if out ≤ SLAVE_BUFF_SIZE then pure ((m.outBuffer.bytes.take out).drop start) else throw .fault

/-- One call of `write(2)` on `count` bytes from `m_out_buffer + offset`: how many it took. After
`EINTR`, `EAGAIN` and a write of 0 bytes the caller just tries again. -/
def sendSome (offset count : Nat) : Proto Nat := do
  let m ← get
  match m.output with
  | [] => throw .blocked
  | .eintr :: rest => do
    set { m with output := rest }
    pure 0
  | .eagain :: rest => do
    set { m with output := rest }
    pure 0
  | .error :: rest => do
    set { m with output := rest }
    throw (.exception "write I/O error")
  | .accept taken :: rest =>
    if offset + count ≤ SLAVE_BUFF_SIZE then do
      let sent := (m.outBuffer.bytes.drop offset).take (min taken count)
      set { m with output := rest, wire := m.wire ++ sent }
      pure sent.length
    else throw .fault

def sendAll (size : Nat) : Proto Nat :=
  forever (fun m => m.output.length) .blocked (fun offset =>
    if offset < size then do
      let i ← sendSome offset (size - offset)
      pure (.inl (offset + i))
    else pure (.inr size)) 0

/-- `write(buffer, size)` with `data` the bytes at `buffer`. They are only logged: the port gets
those of `m_out_buffer`. -/
def write (data : Bytes) : Proto Int := do
  modify fun m => { m with logged := m.logged ++ [data] }
  let size ← sendAll data.length
  pure size

def writeOut (size : Nat) : Proto Int := do
  modify fun m => { m with outLen := UInt16.ofNat size }
  let data ← outRange 0 size
  write data

/-- `writecook` on the `payload` of `size` bytes; `delaywait` finds the clock at `now`. -/
def writecook (now : Timespec) (addr seq : Int) (payload : Bytes) : Proto Int := do
  let m ← get
  let fullsize := payload.length + 7
  let postpad ← pad m.config.lead 0
  let out ← put postpad chSOH
  let out ← put out (UInt8.ofInt addr &&& 0x7F)
  let out ← put out (UInt8.ofNat fullsize)
  let out ← put out (UInt8.ofNat (fullsize >>> 8))
  let out ← put out (UInt8.ofInt seq ||| 0x04)
  let out ← putPayload out payload
  let body ← outRange postpad out
  let icrc := crc16Digest (crc16Add crc16Prepare body)
  let out ← put out icrc.toUInt8
  let out ← put out (icrc >>> 8).toUInt8
  let out ← pad m.config.trail out
  delaywait now
  modify fun m => { m with outLen := UInt16.ofNat out }
  let m ← get
  let data ← outRange 0 m.outLen.toNat
  write data

def resend (now : Timespec) : Proto Int := do
  let m ← get
  if m.outLen = 0 then pure 0
  else do
    delaywait now
    writeOut m.outLen.toNat

end OsdpMaster.Protocol
