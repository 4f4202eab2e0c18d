import OsdpMaster.Lib.Program
import OsdpMaster.OsdpDef

/-!
The text form of a blob: `operator<<` and `operator>>` of `blob.cpp`, over what
they use of `std::ostream` and `std::istream`.
-/

namespace OsdpMaster.BlobStream
open OsdpMaster.Lib.Program

/-- A blob by what its container holds, `none` for a null one. -/
abbrev Content := Option Bytes

/-- `blob::get`, with the `empty_blob` of a null one. -/
def Content.get (b : Content) : Bytes := b.getD []

def Content.size (b : Content) : Nat := b.get.length

def memcmp : Bytes → Bytes → Nat → Int
  | l :: left, r :: right, count + 1 =>
    if l = r then memcmp left right count else (l.toNat : Int) - r.toNat
  | _, _, _ => 0

def Content.equal (this other : Content) : Bool :=
  let left := this.get
  let right := other.get
  if left.length ≠ right.length then false
  else if left.length = 0 then true
  else if memcmp left right left.length ≠ 0 then false
  else true

section Output

inductive Base
  | oct
  | dec
  | hex
  deriving DecidableEq

def Base.radix : Base → Nat
  | .oct => 8
  | .dec => 10
  | .hex => 16

inductive Adjust
  | unset
  | left
  | right
  | internal
  deriving DecidableEq

structure Flags where
  base : Base
  adjust : Adjust
  uppercase : Bool
  showbase : Bool
  deriving DecidableEq

def Flags.default : Flags := ⟨.dec, .unset, false, false⟩

structure OStream where
  written : Bytes
  fill : UInt8
  width : Int
  flags : Flags
  deriving DecidableEq

/-- What a formatted insertion writes, padded to the width, and the width gone. Internal padding comes after
the `lead`. -/
def OStream.pad (out : OStream) (lead text : Bytes) : OStream :=
  let padding := List.replicate (out.width - (lead ++ text).length).toNat out.fill
  let padded := match out.flags.adjust with
    | .left => lead ++ text ++ padding
    | .internal => lead ++ padding ++ text
    | _ => padding ++ lead ++ text
  { out with written := out.written ++ padded, width := 0 }

def OStream.insertText (out : OStream) (text : Bytes) : OStream := out.pad [] text

def Flags.digits (flags : Flags) (value : Nat) : Bytes :=
  (Nat.toDigits flags.base.radix value).map fun digit =>
    (if flags.uppercase then digit.toUpper else digit).toUInt8

/-- `out << value`, of an `int` that is not negative. -/
def OStream.insertInt (out : OStream) (value : Nat) : OStream :=
  let flags := out.flags
  let based := flags.showbase && value ≠ 0
  let lead := if based && flags.base = .hex then ascii (if flags.uppercase then "0X" else "0x") else []
  let zero := if based && flags.base = .oct then ascii "0" else []
  out.pad lead (zero ++ flags.digits value)

/-- The loop over the bytes. It counts what it writes in `w`. -/
def insertBytes (b_delim : Bytes) : Bytes → OStream → Int → Bytes → OStream × Int
  | [], out, w, _ => (out, w)
  | byte :: data, out, w, delim =>
    let out := out.insertText delim
    -- `setw(2)` and `setbase(16)`
    let out := { out with width := 2, flags := { out.flags with base := .hex } }
    insertBytes b_delim data (out.insertInt byte.toNat) (w + (delim.length + 2)) b_delim

/-- `while(w < oldw)`, so many times. -/
def insertZeros : Nat → OStream → OStream
  | 0, out => out
  | missing + 1, out => insertZeros missing (out.insertText (ascii "0"))

/-- `operator<<`, for a blob whose `delim()` is `b_delim`. -/
def insertion (b_delim : Bytes) (out : OStream) (b : Content) : OStream :=
  let oldfill := out.fill
  let oldw := out.width
  let oldflags := out.flags
  let out := { out with fill := 0x30, flags := { out.flags with uppercase := true } }
  let looped := insertBytes b_delim b.get out 0 []
  let out := insertZeros (oldw - looped.2).toNat looped.1
  { out with fill := oldfill, flags := oldflags, width := 0 }

def delim : Bytes := []

end Output

section Input

/-- The characters read, the last one first, and those to come. -/
structure IStream where
  behind : Bytes
  ahead : Bytes
  eofbit : Bool
  failbit : Bool
  badbit : Bool
  deriving DecidableEq

def IStream.good (s : IStream) : Bool := !s.eofbit && !s.failbit && !s.badbit

/-- Nothing stops it but a loop out of rounds. -/
abbrev Reading := EStateM Unit IStream

def getChar : Reading Int := do
  let s ← get
  if s.good then
    match s.ahead with
    | [] =>
      modify fun s => { s with eofbit := true, failbit := true }
      pure (-1)
    | c :: ahead =>
      modify fun s => { s with behind := c :: s.behind, ahead := ahead }
      pure c.toNat
  else
    modify fun s => { s with failbit := true }
    pure (-1)

/-- `in.putback(c)`. It clears the end of file, but a stream that has failed takes nothing back. -/
def putback (c : UInt8) : Reading Unit := do
  modify fun s => { s with eofbit := false }
  let s ← get
  if s.good then
    match s.behind with
    | [] => modify fun s => { s with badbit := true }
    | last :: behind =>
      if last = c then modify fun s => { s with behind := behind, ahead := c :: s.ahead }
      else modify fun s => { s with badbit := true }
  else modify fun s => { s with failbit := true }

def failed : Reading Bool := do
  let s ← get
  pure (s.failbit || s.badbit)

def isxdigit (c : Int) : Bool :=
  (0x30 ≤ c && c ≤ 0x39) || (0x41 ≤ c && c ≤ 0x46) || (0x61 ≤ c && c ≤ 0x66)

def toupper (c : Int) : Int := if 0x61 ≤ c ∧ c ≤ 0x7A then c - 0x20 else c

/-- From a digit to its value: `c = toupper(c); c -= '0'; if(c > 9) c -= 'A' - '9' - 1;` -/
def nibble (c : Int) : Int :=
  let c := toupper c - 0x30
  if c > 9 then c - (0x41 - 0x39 - 1) else c

def charOf (c : Int) : UInt8 := UInt8.ofInt c

/-- One round of the loop, left with the bytes that `b` gets. -/
def extractPair (xxb : Bytes) : Reading (Bytes ⊕ Bytes) := do
  let c ← getChar
  if ← failed then pure (.inr xxb)
  else if !isxdigit c then do
    putback (charOf c)
    pure (.inr xxb)
  else do
    let c := nibble c
    let d ← getChar
    if ← failed then do
      putback (charOf c)
      pure (.inr xxb)
    else if !isxdigit d then do
      putback (charOf d)
      pure (.inr xxb)
    else do
      let i := c.toNat <<< 4 ||| (nibble d).toNat
      pure (.inl (xxb ++ [UInt8.ofNat i]))

def extraction : Reading Content := do
  let xxb ← forever (fun s => s.ahead.length) () extractPair []
  pure (some xxb)

end Input

end OsdpMaster.BlobStream
