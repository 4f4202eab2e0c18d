import Mathlib.Tactic.Common

/-! The constants of `osdp_def.h` and the other headers, and the bytes they name. -/

namespace OsdpMaster

abbrev Bytes := List UInt8

def ascii (text : String) : Bytes := text.toList.map (fun letter => UInt8.ofNat letter.toNat)

def chSOH : UInt8 := 0x53

def OSDP_POLL : UInt8 := 0x60
def OSDP_ACK : UInt8 := 0x40
def OSDP_NAK : UInt8 := 0x41
def OSDP_BUSY : UInt8 := 0x79

def PROTO_ERR_TIMEOUT : Int := -1
def PROTO_ERR_OVERFLOW : Int := -3
def PROTO_ERR_CRC : Int := -6
def PROTO_ERR_FLYBY : Int := -7

/-- Payload, `OSDP_MFGREP`, header, CRC, FF sync, and two more. -/
def SLAVE_BUFF_SIZE : Nat := 256 + 5 + 5 + 2 + 1 + 2

/-- `sizeof(struct osdp_common)`: soh, addr, len[2], ctrl. -/
def sizeofCommon : Nat := 5

def OSDPSLAVE_RETRY_MAX : Int := 10

def leWord (low high : UInt8) : Nat := low.toNat + 256 * high.toNat

end OsdpMaster
