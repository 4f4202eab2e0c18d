import OsdpMaster.Lib.LittleEndian
import OsdpMaster.Lib.Trace
import OsdpMaster.OsdpDef

/-!
The upload of `filesend.py`: the thread `uploader`, and `on_message` in the thread
of the MQTT client. `ftevent`, `ftstat` and `offline` are what they share, and
either may go on between two statements of the other.
-/

namespace OsdpMaster.Filesend
open OsdpMaster.Lib.LittleEndian OsdpMaster.Lib.Trace

/-- `struct.pack` of unsigned fields, each with its width; `none` where it raises. -/
def pack (fields : List (Nat × Nat)) : Option Bytes :=
  if ∀ field ∈ fields, field.2 < 256 ^ field.1 then some (fields.flatMap fun field => packed field.1 field.2)
  else none

/-- `struct.unpack("<BBHhH", ftstat)` -/
structure Ftstat where
  code : Nat
  action : Nat
  delay : Nat
  status : Int
  msgmax : Nat
  deriving DecidableEq

def signed (low high : UInt8) : Int :=
  if leWord low high < 32768 then leWord low high else (leWord low high : Int) - 65536

def unpack : Bytes → Option Ftstat
  | [code, action, d0, d1, s0, s1, m0, m1] =>
    some ⟨code.toNat, action.toNat, leWord d0 d1, signed s0 s1, leWord m0 m1⟩
  | _ => none

/-- `rec`: the packed fields, and `image[offset:offset+frag]`. -/
def fragment (image : Bytes) (offset frag : Nat) : Option Bytes :=
  (pack [(1, 0x7C), (1, 1), (4, image.length), (4, offset), (2, frag)]).map fun fields =>
    fields ++ (image.drop offset).take frag

inductive Ending
  /-- The loop has ended. -/
  | returned
  /-- An exception has ended the thread. -/
  | raised
  deriving DecidableEq

inductive Position
  /-- `while offset < len(image) or not fin:` -/
  | looping
  /-- `while retry:`, with `retry` set. -/
  | trying
  /-- `client.publish`, after `ftevent.clear()`. -/
  | publishing
  /-- `ftevent.wait(1.0)` -/
  | waiting
  /-- After the inner loop. -/
  | answered
  | ended (how : Ending)
  deriving DecidableEq

/-- The variables of `uploader.run`; `record` is `rec`. -/
structure Uploader where
  offset : Nat
  frag : Nat
  fin : Bool
  record : Bytes
  position : Position
  deriving DecidableEq

/-- `setting`: `on_message` has stored a reply, and `ftevent.set()` comes next. `crashed`: an exception in
`on_message` has ended the program. -/
structure State where
  offline : Bool
  ftevent : Bool
  ftstat : Option Bytes
  setting : Bool
  crashed : Bool
  upload : Uploader
  deriving DecidableEq

inductive Event
  /-- `on_message` has stored a reply with this status. -/
  | received (status : Int)
  | published (record : Bytes)
  /-- The wait for the reply to the fragment has been successful. -/
  | answered (record : Bytes)
  /-- The uploader has read this status. -/
  | status (status : Int)
  deriving DecidableEq

inductive Incoming
  /-- On the topic that ends in `addr`. -/
  | device (payload : Bytes)
  /-- On the topic that ends in `addr` and `status`. -/
  | status (payload : Bytes)
  deriving DecidableEq

/-- `on_message`, up to `ftevent.set()`. -/
def onMessage (s : State) : Incoming → State
  | .device [] => { s with crashed := true }
  | .device (code :: payload) =>
    if code = 0x7A then { s with ftstat := some (code :: payload), setting := true } else s
  | .status payload =>
    -- The payload is printed first, as ASCII.
    if ∃ byte ∈ payload, 0x80 ≤ byte then { s with crashed := true }
    else if payload = ascii "OFFLINE" then { s with offline := true }
    else if payload = ascii "ONLINE" then { s with offline := false }
    else s

/-- The reply that `on_message` stores, if it is of the proper length. -/
def taken : Incoming → List Event
  | .device payload =>
    if payload.head? = some 0x7A then ((unpack payload).map fun reply => Event.received reply.status).toList else []
  | .status _ => []

/-- `frag` after `if offset + frag > len(image):`. `offset` never passes `len(image)`. -/
def remaining (image : Bytes) (u : Uploader) : Nat :=
  if u.offset + u.frag > image.length then image.length - u.offset else u.frag

/-- A round of the inner loop up to `ftevent.clear()`. -/
def attempt (image : Bytes) (s : State) : State :=
  if s.offline then s
  else
    match fragment image s.upload.offset (remaining image s.upload) with
    | none =>
      { s with upload := { s.upload with frag := remaining image s.upload, position := .ended .raised } }
    | some record =>
      { s with
        ftevent := false
        upload := { s.upload with frag := remaining image s.upload, record := record, position := .publishing } }

def timedOut (image : Bytes) (u : Uploader) : Uploader :=
  { u with position := if u.offset = image.length then .ended .raised else .trying }

/-- What the uploader makes of a status. For 0, 1 and 3 it sleeps; a negative one it does not look at. -/
def finished (fin : Bool) (status : Int) : Bool :=
  if status ∈ [0, 1, 3] then fin else if status = 2 then true else fin

/-- After the inner loop: `offset += frag`, and the reply. -/
def interpret (ftstat : Option Bytes) (u : Uploader) : Uploader × List Event :=
  match ftstat.bind unpack with
  | none => ({ u with offset := u.offset + u.frag, position := .ended .raised }, [])
  | some reply =>
    ({ u with offset := u.offset + u.frag, fin := finished u.fin reply.status, position := .looping },
      [.status reply.status])

def advance (image : Bytes) (s : State) : Option (State × List Event) :=
  match s.upload.position with
  | .looping =>
    let more := s.upload.offset < image.length ∨ s.upload.fin = false
    some ({ s with upload := { s.upload with position := if more then .trying else .ended .returned } }, [])
  | .trying => some (attempt image s, [])
  | .publishing =>
    some ({ s with upload := { s.upload with position := .waiting } }, [.published s.upload.record])
  | .waiting =>
    if s.ftevent then
      some ({ s with upload := { s.upload with position := .answered } }, [.answered s.upload.record])
    else none
  | .answered =>
    let read := interpret s.ftstat s.upload
    some ({ s with upload := read.1 }, read.2)
  | .ended _ => none

inductive Action
  | message (incoming : Incoming)
  | set
  | uploader
  | timeout
  deriving DecidableEq

def step (image : Bytes) (s : State) (action : Action) : Option (State × List Event) :=
  if s.crashed then none
  else
    match action with
    | .message incoming => if s.setting then none else some (onMessage s incoming, taken incoming)
    | .set => if s.setting then some ({ s with ftevent := true, setting := false }, []) else none
    | .uploader => advance image s
    -- A wait may give up although the event is being set.
    | .timeout =>
      if s.upload.position = .waiting then some ({ s with upload := timedOut image s.upload }, []) else none

def filesend (image : Bytes) : System State Action Event where
  start := ⟨false, false, none, false, false, ⟨0, 100, false, [], .looping⟩⟩
  startup := []
  step := step image

section Fields

def sizeOfImage (record : Bytes) : Nat := number ((record.drop 2).take 4)

def offsetOf (record : Bytes) : Nat := number ((record.drop 6).take 4)

def sizeOfFragment (record : Bytes) : Nat := number ((record.drop 10).take 2)

def dataOf (record : Bytes) : Bytes := record.drop 12

end Fields

end OsdpMaster.Filesend
