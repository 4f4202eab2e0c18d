import OsdpMaster.Crc16
import OsdpMaster.Protocol

/-! The receive path of `osdpprotocol.cpp`: `read_some`, `readsoh`, `flyby`, `readeof` and
`readcook`. -/

namespace OsdpMaster.Protocol
open OsdpMaster.Crc16 OsdpMaster.Lib.Program

/-- `itime` in `read_some`: whole milliseconds from `tick` to the deadline. -/
def pollTimer (deadline tick : Timespec) : Int :=
  let sec := deadline.sec - tick.sec
  let nsec := deadline.nsec - tick.nsec
  if nsec < 0 then (nsec + 1000000000).tdiv 1000000 + (sec - 1) * 1000
  else nsec.tdiv 1000000 + sec * 1000

def expired (deadline tick : Timespec) : Bool := pollTimer deadline tick < 0

/-- The timeout handed to `poll(2)`: capped at one second, at least one millisecond. -/
def pollWait (itime : Int) : Int :=
  let itime := if itime > 1000 then 1000 else itime
  if itime = 0 then itime + 1 else itime

/-- The loop of `read_some`, over what the coming `read(2)` calls find. -/
def readAgain (offset count : Nat) (room : offset + count ≤ SLAVE_BUFF_SIZE) (m : Protocol) :
    List ReadOutcome → EStateM.Result Stop Protocol Nat
  | [] => .error .blocked { m with input := [] }
  | .eintr :: rest => readAgain offset count room m rest
  | .eagain tick :: rest =>
      if expired m.deadline tick then
        .error (.code PROTO_ERR_TIMEOUT) { m with input := rest }
      else
        readAgain offset count room
          { m with waits := m.waits ++ [pollWait (pollTimer m.deadline tick)] } rest
  | .error :: rest => .error (.exception "read I/O error") { m with input := rest }
  | .data bytes :: rest =>
      let got := bytes.take count
      let left := bytes.drop count
      have fits : offset + got.length ≤ SLAVE_BUFF_SIZE := by
        have short : got.length ≤ count := List.length_take_le count bytes
        omega
      .ok (offset + got.length)
        { m with
          inBuffer := store m.inBuffer offset got fits
          input := if left = [] then rest else .data left :: rest }

/-- `read_some`: how much of the buffer is occupied after one successful `read(2)`. -/
def readSome (offset count : Nat) : Proto Nat := fun m =>
  if request : 0 < count ∧ offset + count ≤ SLAVE_BUFF_SIZE then
    readAgain offset count request.2 m m.input
  else .error .fault m

def readUpTo (total offset : Nat) : Proto Nat :=
  forever pending .blocked (fun offset => do
    if offset < total then
      let offset ← readSome offset (total - offset)
      pure (.inl offset)
    else pure (.inr offset)) offset

def moveSoh (found : Bytes) (shift : Nat) : Proto Unit :=
  if shift > 0 then storeFront (found.drop shift) else pure ()

def readsoh : Proto Nat :=
  forever pending .blocked (fun _ => do
    storeFront (List.replicate sizeofCommon 0)
    let offset ← readSome 0 sizeofCommon
    let found ← loadRange offset
    match found.findIdx? (· == chSOH) with
    | some shift =>
        moveSoh found shift
        let offset ← readUpTo sizeofCommon (offset - shift)
        pure (.inr offset)
    | none => pure (.inl ())) ()

/-- `hdr->len[0] | (hdr->len[1] << 8)`, from a header at the start of `m_in_buffer`. -/
def loadTotal : Proto Int := do
  let low ← load 2
  let high ← load 3
  pure (leWord low high)

def hasCrc (ctrl : UInt8) : Bool := ctrl &&& 0x04 != 0

def checksumAdd (sum : UInt8) (data : Bytes) : UInt8 := data.foldl (· + ·) sum

/-- The two accumulators of `flyby`; a frame uses one of them. -/
structure Check where
  crc : UInt16
  checksum : UInt8

def Check.add (ctrl : UInt8) (check : Check) (data : Bytes) : Check :=
  if hasCrc ctrl then { check with crc := crc16Add check.crc data }
  else { check with checksum := checksumAdd check.checksum data }

/-- The CRC bytes of a frame as `m_in_buffer[i] | (m_in_buffer[i+1] << 8)`. -/
def crcWord (low high : UInt8) : UInt16 := low.toUInt16 ||| (high.toUInt16 <<< 8)

/-- The loop of `flyby`: the bytes before the trailer come in, are added up and are not kept. -/
def flybyBody (ctrl : UInt8) (total : Int) (size : Nat) (check : Check) : Proto Check :=
  forever pending .blocked (fun (state : Nat × Check) =>
    if (state.1 : Int) < total then do
      let count := (total - state.1).toNat
      let count := if count > SLAVE_BUFF_SIZE then SLAVE_BUFF_SIZE else count
      let offset ← readSome 0 count
      let chunk ← loadRange offset
      pure (.inl (state.1 + offset, state.2.add ctrl chunk))
    else pure (.inr state.2)) (size, check)

def flybyTrailer (ctrl : UInt8) (check : Check) : Proto Int :=
  if hasCrc ctrl then do
    let crc := crc16Digest check.crc
    let _ ← readUpTo 2 0
    let low ← load 0
    let high ← load 1
    if crc ≠ crcWord low high then throw (.code PROTO_ERR_CRC) else pure PROTO_ERR_FLYBY
  else do
    let _ ← readSome 0 1
    let last ← load 0
    if last ≠ check.checksum then throw (.code PROTO_ERR_CRC) else pure PROTO_ERR_FLYBY

def flyby (offset : Nat) : Proto Int := do
  let total ← loadTotal
  let ctrl ← load 4
  let header ← loadRange offset
  let check := Check.add ctrl ⟨crc16Prepare, 0⟩ header
  let total := if hasCrc ctrl then total - 2 else total - 1
  let check ← flybyBody ctrl total offset check
  flybyTrailer ctrl check

def readeof (offset : Nat) : Proto Nat := do
  let total ← loadTotal
  if total ≤ 5 ∨ total > SLAVE_BUFF_SIZE - offset then throw (.code PROTO_ERR_OVERFLOW)
  forever pending .blocked (fun offset => do
    let offset ← readSome offset (total - offset).toNat
    if (offset : Int) ≥ total then pure (.inr offset) else pure (.inl offset)) offset

/-- The integrity check of `readcook` on the `size` bytes of a frame: the size without its
trailer. -/
def integrityCheck (size : Int) : Proto Int := do
  let ctrl ← load 4
  if hasCrc ctrl then
    let body ← loadRange (size - 2)
    let mycrc := crc16Digest (crc16Add crc16Prepare body)
    let low ← load (size - 2)
    let high ← load (size - 1)
    if crcWord low high ≠ mycrc then throw (.code PROTO_ERR_CRC)
    pure (size - 2)
  else
    let body ← loadRange (size - 1)
    let last ← load (size - 1)
    if checksumAdd 0 body ≠ last then throw (.code PROTO_ERR_CRC)
    pure (size - 1)

def deadlineFrom (now : Timespec) (timeout : Int) : Timespec :=
  let sec := now.sec + timeout.tdiv 1000000
  let nsec := now.nsec + timeout.tmod 1000000 * 1000
  if nsec ≥ 1000000000 then ⟨sec + 1, nsec - 1000000000⟩ else ⟨sec, nsec⟩

def passesBy (me addr : UInt8) : Bool :=
  me != 0xFF && (addr != me && addr != 0x7D && addr != 0x7F)

/-- The part of `readcook` before `leave`. -/
def readFrame : Proto Int := do
  let size ← readsoh
  let m ← get
  let addr ← load 1
  if passesBy m.myAddr addr then flyby size
  else
    let size ← readeof size
    integrityCheck size

/-- `readcook`, whose clock reads `now` at its start and `stamp` at `leave`. -/
def readcook (now stamp : Timespec) : Proto Int := do
  modify fun m => { m with deadline := deadlineFrom now m.config.timeout }
  let size ← tryCatch readFrame (fun stop => match stop with
    | .code value => pure value
    | other => throw other)
  readstamp stamp
  pure size

end OsdpMaster.Protocol
