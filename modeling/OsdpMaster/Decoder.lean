import OsdpMaster.Filesend
import OsdpMaster.Lib.Numeral
import OsdpMaster.Lib.Program

/-!
`osdpdecoder.py`, and `on_message` of `osdpinfo.py`, as programs that print. What
has been printed before an exception stays printed.
-/

namespace OsdpMaster.Decoder
open OsdpMaster.Lib.Numeral

abbrev Text := List Char

inductive PyError
  /-- `msg[i]` of a message that ends before. -/
  | indexError
  /-- `struct.unpack_from` of a message that ends before. -/
  | structError
  deriving DecidableEq

/-- Where a `print` goes: to `file=out`, or without that to `sys.stdout`. -/
inductive Sink
  | out
  | stdout
  deriving DecidableEq

structure Output where
  out : Text
  stdout : Text
  deriving DecidableEq

def Output.write (printed : Output) (text : Text) : Sink → Output
  | .out => { printed with out := printed.out ++ text }
  | .stdout => { printed with stdout := printed.stdout ++ text }

theorem write_nil (printed : Output) (sink : Sink) : printed.write [] sink = printed := by
  cases sink <;> simp [Output.write]

theorem write_write (printed : Output) (first second : Text) (sink : Sink) :
    (printed.write first sink).write second sink = printed.write (first ++ second) sink := by
  cases sink <;> simp [Output.write]

theorem write_inj {printed : Output} {first second : Text} {sink : Sink}
    (same : printed.write first sink = printed.write second sink) : first = second := by
  cases sink <;> simpa [Output.write] using same

abbrev Printing := EStateM PyError Output

section Printing

/-- `print(text, file=out, end='')` -/
def printPart (text : Text) (sink : Sink) : Printing Unit := modify (·.write text sink)

/-- `print(text, file=out)`, or `print(text)` -/
def printLine (text : Text) (sink : Sink) : Printing Unit := printPart (text ++ ['\n']) sink

def byte (msg : Bytes) (i : Nat) : Printing Nat :=
  match msg[i]? with
  | some value => pure value.toNat
  | none => throw .indexError

theorem byte_ok {msg : Bytes} {i : Nat} {value : UInt8} (there : msg[i]? = some value) (printed : Output) :
    byte msg i printed = .ok value.toNat printed := by
  rw [byte, there]
  rfl

theorem printPart_ok (text : Text) (sink : Sink) (printed : Output) :
    printPart text sink printed = .ok () (printed.write text sink) := rfl

theorem printLine_ok (text : Text) (sink : Sink) (printed : Output) :
    printLine text sink printed = .ok () (printed.write (text ++ ['\n']) sink) := rfl

def dec (value : Nat) : Text := numeral 10 value

def hex (value : Nat) : Text := numeral 16 value

def decInt (value : Int) : Text := if value < 0 then '-' :: dec value.natAbs else dec value.natAbs

end Printing

section Messages

/-- The branches that print a name, in the order of the chain. -/
def names : List (Nat × String) :=
  [(0x61, "OSDP_ID"), (0x62, "OSDP_CAP"), (0x63, "OSDP_DIAG"), (0x64, "OSDP_LSTAT"),
   (0x65, "OSDP_ISTAT"), (0x66, "OSDP_OSTAT"), (0x67, "OSDP_RSTAT"), (0x68, "OSDP_OUT"), (0x69, "OSDP_LED"),
   (0x6A, "OSDP_BUZ"), (0x6B, "OSDP_TEXT"), (0x6D, "OSDP_TDSET"), (0x6E, "OSDP_COMSET"), (0x6F, "OSDP_DATA"),
   (0x71, "OSDP_PROMPT"), (0x73, "OSDP_BIOREAD"), (0x74, "OSDP_BIOMATCH"), (0x75, "OSDP_KEYSET"),
   (0x76, "OSDP_CHLNG"), (0x77, "OSDP_SCRYPT"), (0x80, "OSDP_MFG"), (0x41, "OSDP_NAK"),
   (0x46, "OSDP_PDCAP"), (0x48, "OSDP_LSTATR"), (0x49, "OSDP_ISTATR"), (0x4A, "OSDP_OSTATR"),
   (0x4B, "OSDP_RSTATR"), (0x51, "OSDP_FMT"), (0x53, "OSDP_KEYPAD"), (0x54, "OSDP_COM"), (0x57, "OSDP_BIOREADR"),
   (0x58, "OSDP_BIOMATCHR"), (0x76, "OSDP_CCRYPT"), (0x78, "OSDP_RMAC_I"), (0x79, "OSDP_BUSY"),
   (0x90, "OSDP_MFGREP")]

/-- `struct.unpack_from("<BHhH", msg, 1)`: the fields after the code. -/
def ftstat (msg : Bytes) : Printing Unit :=
  match Filesend.unpack (msg.take 8) with
  | none => throw .structError
  | some fields =>
    printLine ("OSDP_FTSTAT act=".toList ++ dec fields.action ++ " delay=".toList ++ dec fields.delay ++
      " stat=".toList ++ decInt fields.status ++ " msgmax=".toList ++ dec fields.msgmax) .out

/-- The format of both copies for an OSDP_PDID. -/
def identityLine (vendor model hwVersion serial major minor build : Nat) : Text :=
  "Vendor=".toList ++ padded 6 '0' (hex vendor) ++ ' ' :: "model=".toList ++ dec model ++
    ' ' :: "hwver=".toList ++ dec hwVersion ++ ' ' :: "serial=".toList ++ dec serial ++
    ' ' :: "fwver=".toList ++ dec major ++ '.' :: dec minor ++ '.' :: dec build

def identity (msg : Bytes) : Printing Text := do
  let vendor := (← byte msg 1) <<< 16 ||| (← byte msg 2) <<< 8 ||| (← byte msg 3)
  let model ← byte msg 4
  let hwVersion ← byte msg 5
  let serial := (← byte msg 6) ||| (← byte msg 7) <<< 8 ||| (← byte msg 8) <<< 16 ||| (← byte msg 9)
  let major ← byte msg 10
  let minor ← byte msg 11
  let build ← byte msg 12
  pure (identityLine vendor model hwVersion serial major minor build)

/-- `for x in range(by)` of an OSDP_RAW, with `biginternal`. -/
def rawLoop (msg : Bytes) : Nat → Nat → Nat → Printing Nat
  | 0, _, biginternal => pure biginternal
  | rounds + 1, x, biginternal => do
    printPart (' ' :: padded 2 ' ' (hex (← byte msg (5 + x)))) .out
    rawLoop msg rounds (x + 1) (biginternal <<< 8 ||| (← byte msg (5 + x)))

def rawHead (rdr fmt bits : Nat) : Text :=
  "OSDP_RAW rdr=".toList ++ dec rdr ++ " fmt=".toList ++ dec fmt ++ " bits=".toList ++ dec bits

/-- What is printed of an OSDP_RAW after its data: the card value, and its halves. -/
def cardText (card : Nat) : Text :=
  ' ' :: hex card ++ ' ' :: dec (card >>> 32 &&& 0xFFFFFFFF) ++ '*' :: dec (card &&& 0xFFFFFFFF)

def raw (msg : Bytes) : Printing Unit := do
  let rdr ← byte msg 1
  let fmt ← byte msg 2
  let bits := (← byte msg 3) ||| (← byte msg 4) <<< 8
  let by8 := (bits + 7) / 8
  printPart (rawHead rdr fmt bits) .out
  let biginternal ← rawLoop msg by8 0 0
  let align := by8 * 8 - bits
  printLine (cardText (if align > 0 then biginternal >>> align else biginternal)) .out

def osdpdecoder (msg : Bytes) : Printing Unit := do
  let cmd ← byte msg 0
  -- The `print` of OSDP_POLL and of OSDP_ACK is a comment.
  if cmd = 0x60 ∨ cmd = 0x40 then pure ()
  else if cmd = 0x7A then ftstat msg
  -- This `print` has no `file=out`.
  else if cmd = 0x45 then printLine ("OSDP_PDID ".toList ++ (← identity msg)) .stdout
  else if cmd = 0x50 then raw msg
  else
    match names.lookup cmd with
    | some name => printLine name.toList .out
    | none => pure ()

def b2aHex (payload : Bytes) : Text :=
  payload.flatMap fun byte => [Nat.digitChar (byte.toNat / 16), Nat.digitChar (byte.toNat % 16)]

/-- `on_message` of `osdpinfo.py` -/
def onMessage (topic : Text) (payload : Bytes) : Printing Unit := do
  printLine (topic ++ ' ' :: b2aHex payload) .stdout
  if (← byte payload 0) = 0x45 then printLine (← identity payload) .stdout

end Messages

end OsdpMaster.Decoder
