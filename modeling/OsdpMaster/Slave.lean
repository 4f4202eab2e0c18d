import OsdpMaster.Split
import OsdpMaster.Timespec

/-! `class osdpslave`, and what `message_for_slave` does to one. -/

namespace OsdpMaster

/-- The fields a modelled function uses. `m_next_poll` has no value until `nak` sets it. -/
structure OsdpSlave where
  retry : Int
  nextAssign : Timespec
  nextPoll : Option Timespec
  msglist : List Bytes
  uuid : Bytes
  addr : UInt8
  txseq : UInt8
  rxseq : UInt8
  enabled : Bool
  deriving DecidableEq

/-- A call of `mosquitto_publish`: `payload` holds the `payloadlen` bytes at the pointer passed. -/
structure Publication where
  topic : Bytes
  payloadlen : Int
  payload : Bytes
  qos : Nat
  retain : Bool
  deriving DecidableEq

def nextSeq (seq : UInt8) : UInt8 := if seq = 3 then 1 else seq + 1

namespace Slave
open OsdpMaster.Split

def construct : OsdpSlave where
  retry := OSDPSLAVE_RETRY_MAX + 1
  nextAssign := ⟨0, 0⟩
  nextPoll := none
  msglist := []
  uuid := List.replicate 16 0
  addr := 0xFF
  txseq := 0
  rxseq := 0
  enabled := true

def memZero (bytes : Bytes) : Bool := bytes.all (· == 0)

/-- `init`: no messages, and failed at first. -/
def init (slave : OsdpSlave) : OsdpSlave :=
  { slave with msglist := [], retry := OSDPSLAVE_RETRY_MAX + 1 }

def defined (slave : OsdpSlave) : Bool := slave.addr != 0xFF || !memZero slave.uuid

def offline (slave : OsdpSlave) : Bool := decide (slave.retry ≥ OSDPSLAVE_RETRY_MAX)

/-- Nothing calls `set_uuid`, so the topic named by a uuid is left out. -/
def statusTopic (slave : OsdpSlave) : Bytes :=
  ascii "osdpiom/bus1/incoming/" ++ decimal slave.addr.toNat ++ ascii "/status"

/-- `val` in `declare_online`. -/
def statusValue (enabled tf : Bool) : Bytes :=
  if !enabled then ascii "DISABLED" else if tf then ascii "ONLINE" else ascii "OFFLINE"

def declareOnline (slave : OsdpSlave) (tf : Bool) : Publication :=
  let val := statusValue slave.enabled tf
  ⟨statusTopic slave, val.length, val, 1, true⟩

/-- `ack`, and what it publishes, with nothing of the other thread in between; `StatusThreads` has it by statements. -/
def ack (slave : OsdpSlave) : OsdpSlave × List Publication :=
  let slave := { slave with txseq := nextSeq slave.txseq }
  let published := if offline slave then [declareOnline slave true] else []
  ({ slave with retry := 0 }, published)

def pollAfter (now : Timespec) : Timespec :=
  let nsec := now.nsec + 10000000
  if nsec ≥ 1000000000 then ⟨now.sec + 1, nsec - 1000000000⟩ else ⟨now.sec, nsec⟩

/-- `nak` with the clock at `now`, and what it publishes. -/
def nak (slave : OsdpSlave) (now : Timespec) : OsdpSlave × List Publication :=
  if offline slave then (slave, [])
  else
    let slave := { slave with retry := slave.retry + 1 }
    if offline slave then (slave, [declareOnline slave false])
    else ({ slave with nextPoll := some (pollAfter now) }, [])

def push (slave : OsdpSlave) (message : Bytes) : OsdpSlave :=
  { slave with msglist := slave.msglist ++ [message] }

/-- `front`: an empty blob where there is no message. -/
def front (slave : OsdpSlave) : Bytes := slave.msglist.headD []

/-- The control branch of `message_for_slave`. -/
def control (slave : OsdpSlave) (cmd : Bytes) : OsdpSlave × List Publication :=
  let o := offline slave
  if cmd = ascii "DISABLE" then
    let slave := { slave with enabled := false }
    (slave, [declareOnline slave o])
  else if cmd = ascii "ENABLE" then
    let slave := { slave with enabled := true }
    (slave, [declareOnline slave true])
  else (slave, [declareOnline slave o])

def isControl (components : List Bytes) : Bool :=
  components.length = 5 && components.getD 4 [] = ascii "control"

def messageForSlave (slave : OsdpSlave) (components : List Bytes) (payload : Bytes) :
    OsdpSlave × List Publication :=
  if isControl components then control slave payload
  else if !slave.enabled then (slave, [])
  else (push slave payload, [])

theorem ack_published (slave : OsdpSlave) : (ack slave).2 = if offline slave then
    [declareOnline { slave with txseq := nextSeq slave.txseq } true] else [] := rfl

theorem control_published (slave : OsdpSlave) (cmd : Bytes) :
    ∃ tf, (control slave cmd).2 = [declareOnline (control slave cmd).1 tf] := by
  unfold control
  dsimp only
  split
  · exact ⟨_, rfl⟩
  · split
    · exact ⟨_, rfl⟩
    · exact ⟨_, rfl⟩

theorem control_slave (slave : OsdpSlave) (cmd : Bytes) :
    ∃ enabled, (control slave cmd).1 = { slave with enabled := enabled } := by
  unfold control
  dsimp only
  split
  · exact ⟨false, rfl⟩
  · split
    · exact ⟨true, rfl⟩
    · exact ⟨slave.enabled, rfl⟩

theorem nak_offline {slave : OsdpSlave} {now : Timespec} (off : offline slave = true) :
    nak slave now = (slave, []) := by
  rw [nak, if_pos off]

theorem nak_slave (slave : OsdpSlave) (now : Timespec) :
    ∃ retry nextPoll, (nak slave now).1 = { slave with retry := retry, nextPoll := nextPoll } := by
  unfold nak
  split
  · exact ⟨slave.retry, slave.nextPoll, rfl⟩
  · dsimp only
    split
    · exact ⟨slave.retry + 1, slave.nextPoll, rfl⟩
    · exact ⟨slave.retry + 1, _, rfl⟩

section Published

variable {slave : OsdpSlave} {publication : Publication}

theorem ack_retained (published : publication ∈ (ack slave).2) : publication.retain = true := by
  rw [ack_published] at published
  split at published
  · rw [List.mem_singleton.mp published]
    rfl
  · cases published

theorem nak_retained {now : Timespec} (published : publication ∈ (nak slave now).2) :
    publication.retain = true := by
  simp only [nak] at published
  split at published
  · cases published
  · split at published
    · rw [List.mem_singleton.mp published]
      rfl
    · cases published

theorem control_retained {cmd : Bytes} (published : publication ∈ (control slave cmd).2) :
    publication.retain = true := by
  obtain ⟨tf, only⟩ := control_published slave cmd
  rw [only] at published
  rw [List.mem_singleton.mp published]
  rfl

theorem messageForSlave_retained {components : List Bytes} {payload : Bytes}
    (published : publication ∈ (messageForSlave slave components payload).2) :
    publication.retain = true := by
  simp only [messageForSlave] at published
  split at published
  · exact control_retained published
  · split at published
    · cases published
    · cases published

end Published

end Slave

end OsdpMaster
