import OsdpMaster.CardValue
import OsdpMaster.DeviceId

/-!
What `osdpdecoder.py` needs of a message. It looks at the first bytes only, as many
as the code and, for card data, the count of bits ask for; where one is missing it
raises, with what it has printed so far left on the line.
-/

namespace OsdpMaster.Decoding
open OsdpMaster.Decoder OsdpMaster.CardValue OsdpMaster.Crc16 OsdpMaster.Lib.Program
open OsdpMaster.Lib.Bits (number)
open OsdpMaster.Lib.Numeral (padded isDigit numeral_digits)

def codeOf (msg : Bytes) : Nat := (msg.getD 0 0).toNat

def bitsIn (msg : Bytes) : Nat := (msg.getD 3 0).toNat ||| (msg.getD 4 0).toNat <<< 8

def needed (msg : Bytes) : Nat :=
  if codeOf msg = 0x7A then 8
  else if codeOf msg = 0x45 then 13
  else if codeOf msg = 0x50 then 5 + (bitsIn msg + 7) / 8
  else 1

/-- What is raised of a message that is too short. -/
def lacking (msg : Bytes) : PyError := if codeOf msg = 0x7A then .structError else .indexError

def sinkOf (msg : Bytes) : Sink := if codeOf msg = 0x45 then .stdout else .out

/-- What has been printed of it by then. -/
def leftover (msg : Bytes) : Text :=
  if codeOf msg = 0x50 ∧ 5 ≤ msg.length then
    rawHead (msg.getD 1 0).toNat (msg.getD 2 0).toNat (bitsIn msg) ++ shown (msg.drop 5)
  else []

theorem leftover_other {msg : Bytes} (other : codeOf msg ≠ 0x50) : leftover msg = [] := if_neg fun raw => other raw.1

def Silent (code : Nat) : Prop :=
  code = 0x60 ∨ code = 0x40 ∨ (code ∉ [0x7A, 0x45, 0x50] ∧ names.lookup code = none)

def Plain (text : Text) : Prop := '\n' ∉ text

section Plain

instance (text : Text) : Decidable (Plain text) := inferInstanceAs (Decidable (_ ∉ _))

@[simp] theorem plain_nil : Plain [] := List.not_mem_nil

@[simp] theorem plain_append (first second : Text) : Plain (first ++ second) ↔ Plain first ∧ Plain second := by
  rw [Plain, List.mem_append, not_or, Plain, Plain]

@[simp] theorem plain_cons (c : Char) (text : Text) : Plain (c :: text) ↔ c ≠ '\n' ∧ Plain text := by
  rw [Plain, List.mem_cons, not_or, Plain, ne_comm]

theorem plain_digits {text : Text} (digits : ∀ c ∈ text, isDigit c = true) : Plain text := by
  intro member
  exact absurd (digits '\n' member) (by decide)

@[simp] theorem plain_dec (value : Nat) : Plain (dec value) :=
  plain_digits (numeral_digits (by decide) (by decide) value)

@[simp] theorem plain_hex (value : Nat) : Plain (hex value) :=
  plain_digits (numeral_digits (by decide) (by decide) value)

@[simp] theorem plain_decInt (value : Int) : Plain (decInt value) := by
  unfold decInt
  split <;> simp

theorem plain_padded {fill : Char} {text : Text} (width : Nat) (other : fill ≠ '\n') (plain : Plain text) :
    Plain (padded width fill text) := by
  rw [padded, plain_append]
  refine ⟨?_, plain⟩
  intro member
  exact other (List.eq_of_mem_replicate member).symm

theorem plain_shown (data : Bytes) : Plain (shown data) := by
  induction data with
  | nil => exact plain_nil
  | cons byte data ih =>
    rw [shown, List.flatMap_cons, plain_append, plain_cons]
    exact ⟨⟨by decide, plain_padded 2 (by decide) (plain_hex _)⟩, ih⟩

theorem plain_rawHead (rdr fmt bits : Nat) : Plain (rawHead rdr fmt bits) := by
  have labels : Plain "OSDP_RAW rdr=".toList ∧ Plain " fmt=".toList ∧ Plain " bits=".toList := by decide
  unfold rawHead
  simp only [plain_append, plain_dec, labels, and_true]

theorem plain_cardText (card : Nat) : Plain (cardText card) := by
  unfold cardText
  simp only [plain_append, plain_cons, plain_hex, plain_dec, and_true]
  decide

theorem plain_identityLine (vendor model hwVersion serial major minor build : Nat) :
    Plain (identityLine vendor model hwVersion serial major minor build) := by
  have labels : Plain "Vendor=".toList ∧ Plain "model=".toList ∧ Plain "hwver=".toList ∧ Plain "serial=".toList ∧
      Plain "fwver=".toList := by decide
  have first : Plain (padded 6 '0' (hex vendor)) := plain_padded 6 (by decide) (plain_hex vendor)
  unfold identityLine
  simp only [plain_append, plain_cons, plain_dec, labels, first, and_true]
  decide

theorem plain_names {code : Nat} {name : String} (known : names.lookup code = some name) : Plain name.toList := by
  have all : ∀ entry ∈ names, Plain entry.2.toList := by decide
  obtain ⟨before, after, split, _⟩ := List.lookup_eq_some_iff.mp known
  exact all (code, name) (by rw [split]; simp)

end Plain

section Peeks

variable {α β : Type} {msg : Bytes} {n m : Nat} {P : α → Prop} {Q : β → Prop}

/-- A part of the decoder that reads bytes up to some one and prints nothing. -/
structure Peeks (prog : Bytes → Printing α) (msg : Bytes) (need : Nat) (P : α → Prop) : Prop where
  enough : need ≤ msg.length → ∃ value, P value ∧ ∀ more printed, prog (msg ++ more) printed = .ok value printed
  short : msg.length < need → ∀ printed, prog msg printed = .error .indexError printed

theorem byte_short {i : Nat} (short : msg.length ≤ i) (printed : Output) :
    byte msg i printed = .error .indexError printed := by
  rw [byte, List.getElem?_eq_none short]
  rfl

theorem peeks_byte (msg : Bytes) (i : Nat) : Peeks (fun msg => byte msg i) msg (i + 1) fun _ => True where
  enough enough := by
    refine ⟨msg[i].toNat, trivial, ?_⟩
    intro more printed
    apply byte_ok
    rw [List.getElem?_append_left enough, List.getElem?_eq_getElem enough]
  short short printed := byte_short (Nat.le_of_lt_succ short) printed

theorem peeks_pure {value : α} (good : P value) : Peeks (fun _ => pure value) msg 0 P where
  enough _ := ⟨value, good, fun _ _ => rfl⟩
  short short := absurd short (Nat.not_lt_zero _)

theorem Peeks.bind {first : Bytes → Printing α} {rest : α → Bytes → Printing β} (here : Peeks first msg n P)
    (there : ∀ value, P value → Peeks (rest value) msg m Q) :
    Peeks (fun msg => first msg >>= fun value => rest value msg) msg (max n m) Q where
  enough enough := by
    obtain ⟨value, good, reads⟩ := here.enough (le_of_max_le_left enough)
    obtain ⟨result, fine, goes_on⟩ := (there value good).enough (le_of_max_le_right enough)
    refine ⟨result, fine, ?_⟩
    intro more printed
    rw [bind_of_ok (reads more printed)]
    exact goes_on more printed
  short short printed := by
    by_cases enough : n ≤ msg.length
    · obtain ⟨value, good, reads⟩ := here.enough enough
      have whole := reads [] printed
      rw [List.append_nil] at whole
      rw [bind_of_ok whole]
      exact (there value good).short (by omega) printed
    · rw [bind_of_error (here.short (Nat.not_le.mp enough) printed)]

theorem peeks_identity (msg : Bytes) : Peeks identity msg 13 Plain :=
  (peeks_byte msg 1).bind fun _ _ => (peeks_byte msg 2).bind fun _ _ => (peeks_byte msg 3).bind fun _ _ =>
  (peeks_byte msg 4).bind fun _ _ => (peeks_byte msg 5).bind fun _ _ => (peeks_byte msg 6).bind fun _ _ =>
  (peeks_byte msg 7).bind fun _ _ => (peeks_byte msg 8).bind fun _ _ => (peeks_byte msg 9).bind fun _ _ =>
  (peeks_byte msg 10).bind fun _ _ => (peeks_byte msg 11).bind fun _ _ => (peeks_byte msg 12).bind fun _ _ =>
  peeks_pure (plain_identityLine _ _ _ _ _ _ _)

end Peeks

section Raw

theorem rawLoop_short {head before data : Bytes} (five : head.length = 5) {rounds : Nat} (short : data.length < rounds)
    (value : Nat) (printed : Output) : rawLoop (head ++ (before ++ data)) rounds before.length value printed =
      .error .indexError (printed.write (shown data) .out) := by
  induction data generalizing before rounds value printed with
  | nil =>
    obtain ⟨rounds, more⟩ := Nat.exists_eq_succ_of_ne_zero (Nat.ne_of_gt short)
    have missing : (head ++ (before ++ [])).length ≤ 5 + before.length := by simp [five]
    rw [more, rawLoop, bind_of_error (byte_short missing printed), shown, List.flatMap_nil, write_nil]
  | cons byte data ih =>
    obtain ⟨rounds, more⟩ := Nat.exists_eq_succ_of_ne_zero (Nat.ne_of_gt (Nat.zero_lt_of_lt short))
    have there : (head ++ (before ++ byte :: data))[5 + before.length]? = some byte := by
      rw [← five, List.getElem?_append_right (Nat.le_add_right _ _), Nat.add_sub_cancel_left,
        List.getElem?_append_right (Nat.le_refl _), Nat.sub_self]
      rfl
    have later : head ++ (before ++ byte :: data) = head ++ ((before ++ [byte]) ++ data) := by simp
    have next : before.length + 1 = (before ++ [byte]).length := by simp
    rw [List.length_cons, more] at short
    rw [more, rawLoop, bind_of_ok (byte_ok there printed), bind_of_ok (printPart_ok _ _ printed),
      bind_of_ok (byte_ok there _), later, next, ih (Nat.lt_of_succ_lt_succ short), write_write]
    simp [shown]

variable (cmd rdr fmt low high : UInt8) (data : Bytes) (printed : Output)

theorem raw_head : raw ([cmd, rdr, fmt, low, high] ++ data) printed =
    (do
      let biginternal ← rawLoop ([cmd, rdr, fmt, low, high] ++ data) (((low.toNat ||| high.toNat <<< 8) + 7) / 8) 0 0
      let align := ((low.toNat ||| high.toNat <<< 8) + 7) / 8 * 8 - (low.toNat ||| high.toNat <<< 8)
      printLine (cardText (if align > 0 then biginternal >>> align else biginternal)) .out : Printing Unit)
      (printed.write (rawHead rdr.toNat fmt.toNat (low.toNat ||| high.toNat <<< 8)) .out) := rfl

theorem raw_enough (enough : ((low.toNat ||| high.toNat <<< 8) + 7) / 8 ≤ data.length) :
    ∃ text, Plain text ∧ ∀ more printed, raw ([cmd, rdr, fmt, low, high] ++ data ++ more) printed =
      .ok () (printed.write (text ++ ['\n']) .out) := by
  generalize bits_eq : low.toNat ||| high.toNat <<< 8 = bits at enough
  have length : (data.take ((bits + 7) / 8)).length = (bits + 7) / 8 := List.length_take_of_le enough
  refine ⟨rawHead rdr.toNat fmt.toNat bits ++ (shown (data.take ((bits + 7) / 8)) ++
    cardText (number (bitsOf (data.take ((bits + 7) / 8))) >>> ((bits + 7) / 8 * 8 - bits))), ?_, ?_⟩
  · rw [plain_append, plain_append]
    exact ⟨plain_rawHead _ _ _, plain_shown _, plain_cardText _⟩
  · intro more printed
    have parts : data ++ more = data.take ((bits + 7) / 8) ++ (data.drop ((bits + 7) / 8) ++ more) := by
      rw [← List.append_assoc, List.take_append_drop]
    have loop : rawLoop ([cmd, rdr, fmt, low, high] ++ (data ++ more)) ((bits + 7) / 8) 0 0
        (printed.write (rawHead rdr.toNat fmt.toNat bits) .out) = .ok (number (bitsOf (data.take ((bits + 7) / 8))))
          ((printed.write (rawHead rdr.toNat fmt.toNat bits) .out).write (shown (data.take ((bits + 7) / 8))) .out) := by
      have five : [cmd, rdr, fmt, low, high].length = 5 := rfl
      have rounds := @rawLoop_ok _ [] (data.take ((bits + 7) / 8)) (data.drop ((bits + 7) / 8) ++ more) five
        (printed.write (rawHead rdr.toNat fmt.toNat bits) .out)
      rw [length, List.nil_append, ← parts] at rounds
      exact rounds
    rw [List.append_assoc, raw_head, bits_eq, bind_of_ok loop, shift_checked, printLine_ok, write_write, write_write]
    simp

theorem raw_short (short : data.length < ((low.toNat ||| high.toNat <<< 8) + 7) / 8) :
    raw ([cmd, rdr, fmt, low, high] ++ data) printed = .error .indexError
      (printed.write (rawHead rdr.toNat fmt.toNat (low.toNat ||| high.toNat <<< 8) ++ shown data) .out) := by
  have five : [cmd, rdr, fmt, low, high].length = 5 := rfl
  have loop := @rawLoop_short _ [] data five _ short 0
    (printed.write (rawHead rdr.toNat fmt.toNat (low.toNat ||| high.toNat <<< 8)) .out)
  rw [List.nil_append, List.length_nil, write_write] at loop
  rw [raw_head, bind_of_error loop]

end Raw

/-- What the decoder makes of a message, whatever comes after the bytes it needs. -/
structure Decodes (msg : Bytes) : Prop where
  silent : Silent (codeOf msg) → needed msg ≤ msg.length →
    ∀ more printed, osdpdecoder (msg ++ more) printed = .ok () printed
  prints : ¬Silent (codeOf msg) → needed msg ≤ msg.length → ∃ text, Plain text ∧
    ∀ more printed, osdpdecoder (msg ++ more) printed = .ok () (printed.write (text ++ ['\n']) (sinkOf msg))
  raises : msg.length < needed msg → Plain (leftover msg) ∧
    ∀ printed, osdpdecoder msg printed = .error (lacking msg) (printed.write (leftover msg) .out)

section Messages

variable {msg : Bytes}

def chain (cmd : Nat) (msg : Bytes) : Printing Unit :=
  if cmd = 0x60 ∨ cmd = 0x40 then pure ()
  else if cmd = 0x7A then ftstat msg
  else if cmd = 0x45 then do printLine ("OSDP_PDID ".toList ++ (← identity msg)) .stdout
  else if cmd = 0x50 then raw msg
  else
    match names.lookup cmd with
    | some name => printLine name.toList .out
    | none => pure ()

theorem osdpdecoder_cons (cmd : UInt8) (rest more : Bytes) (printed : Output) :
    osdpdecoder (cmd :: rest ++ more) printed = chain cmd.toNat (cmd :: rest ++ more) printed := rfl

theorem unpack_eight {fields : Bytes} (eight : fields.length = 8) : ∃ reply, Filesend.unpack fields = some reply := by
  match fields, eight with
  | [_, _, _, _, _, _, _, _], _ => exact ⟨_, rfl⟩

theorem unpack_other {fields : Bytes} (other : fields.length ≠ 8) : Filesend.unpack fields = none := by
  unfold Filesend.unpack
  split
  · exact absurd rfl other
  · rfl

variable {cmd : UInt8} {rest : Bytes}

theorem decodes_of_chain {sink : Sink} (there : sinkOf (cmd :: rest) = sink) (loud : ¬Silent cmd.toNat)
    (prints : needed (cmd :: rest) ≤ (cmd :: rest).length → ∃ text, Plain text ∧
      ∀ more printed, chain cmd.toNat (cmd :: rest ++ more) printed = .ok () (printed.write (text ++ ['\n']) sink))
    (raises : (cmd :: rest).length < needed (cmd :: rest) → Plain (leftover (cmd :: rest)) ∧
      ∀ printed, chain cmd.toNat (cmd :: rest) printed =
        .error (lacking (cmd :: rest)) (printed.write (leftover (cmd :: rest)) .out)) :
    Decodes (cmd :: rest) where
  silent silent := absurd silent loud
  prints _ := there ▸ prints
  raises := raises

theorem sinkOf_other (other : cmd.toNat ≠ 0x45) : sinkOf (cmd :: rest) = .out := if_neg other

theorem loud_of_mem {code : Nat} (member : code ∈ [0x7A, 0x45, 0x50]) : ¬Silent code := by
  rintro (poll | ack | ⟨other, _⟩)
  · subst poll
    exact absurd member (by decide)
  · subst ack
    exact absurd member (by decide)
  · exact other member

theorem decodes_ftstat (code : cmd.toNat = 0x7A) : Decodes (cmd :: rest) := by
  have eight : needed (cmd :: rest) = 8 := if_pos code
  have branch (msg : Bytes) : chain cmd.toNat msg = ftstat msg := by
    rw [chain, code]
    rfl
  apply decodes_of_chain (sinkOf_other (by rw [code]; decide))
  · exact loud_of_mem (by rw [code]; decide)
  · intro enough
    rw [eight] at enough
    obtain ⟨reply, fields⟩ := unpack_eight (List.length_take_of_le enough)
    refine ⟨"OSDP_FTSTAT act=".toList ++ dec reply.action ++ " delay=".toList ++ dec reply.delay ++
      " stat=".toList ++ decInt reply.status ++ " msgmax=".toList ++ dec reply.msgmax, ?_, ?_⟩
    · have labels : Plain "OSDP_FTSTAT act=".toList ∧ Plain " delay=".toList ∧ Plain " stat=".toList ∧
          Plain " msgmax=".toList := by decide
      simp only [plain_append, plain_dec, plain_decInt, labels, and_true]
    · intro more printed
      have front : (cmd :: rest ++ more).take 8 = (cmd :: rest).take 8 := List.take_append_of_le_length enough
      rw [branch, ftstat, front, fields]
      rfl
  · intro short
    rw [eight] at short
    have fields : Filesend.unpack ((cmd :: rest).take 8) = none := by
      apply unpack_other
      rw [List.length_take]
      omega
    have nothing : leftover (cmd :: rest) = [] := leftover_other fun raw => absurd (code.symm.trans raw) (by decide)
    have stop : lacking (cmd :: rest) = .structError := if_pos code
    rw [nothing, stop]
    refine ⟨plain_nil, ?_⟩
    intro printed
    rw [branch, ftstat, fields, write_nil]
    rfl

theorem decodes_identity (code : cmd.toNat = 0x45) : Decodes (cmd :: rest) := by
  have thirteen : needed (cmd :: rest) = 13 := by
    change (if cmd.toNat = 0x7A then 8 else _) = 13
    rw [if_neg (by rw [code]; decide)]
    exact if_pos code
  have branch (msg : Bytes) : chain cmd.toNat msg =
      (do printLine ("OSDP_PDID ".toList ++ (← identity msg)) .stdout : Printing Unit) := by
    rw [chain, code]
    rfl
  have reads := peeks_identity (cmd :: rest)
  apply decodes_of_chain (if_pos code)
  · exact loud_of_mem (by rw [code]; decide)
  · intro enough
    rw [thirteen] at enough
    obtain ⟨line, plain, whole⟩ := reads.enough enough
    refine ⟨"OSDP_PDID ".toList ++ line, ?_, ?_⟩
    · rw [plain_append]
      exact ⟨by decide, plain⟩
    · intro more printed
      rw [branch, bind_of_ok (whole more printed)]
      rfl
  · intro short
    rw [thirteen] at short
    have nothing : leftover (cmd :: rest) = [] := leftover_other fun raw => absurd (code.symm.trans raw) (by decide)
    have stop : lacking (cmd :: rest) = .indexError :=
      if_neg fun other : cmd.toNat = 0x7A => absurd (code.symm.trans other) (by decide)
    rw [nothing, stop]
    refine ⟨plain_nil, ?_⟩
    intro printed
    rw [branch, bind_of_error (reads.short short printed), write_nil]

theorem four_bytes (enough : 4 ≤ rest.length) :
    ∃ rdr fmt low high data, rest = rdr :: fmt :: low :: high :: data := by
  match rest, enough with
  | rdr :: fmt :: low :: high :: data, _ => exact ⟨rdr, fmt, low, high, data, rfl⟩

theorem raw_headless {msg : Bytes} (short : msg.length < 5) (printed : Output) :
    raw msg printed = .error .indexError printed := by
  match msg, short with
  | [], _ => rfl
  | [_], _ => rfl
  | [_, _], _ => rfl
  | [_, _, _], _ => rfl
  | [_, _, _, _], _ => rfl

theorem decodes_raw (code : cmd.toNat = 0x50) : Decodes (cmd :: rest) := by
  have branch (msg : Bytes) : chain cmd.toNat msg = raw msg := by
    rw [chain, code]
    rfl
  have size : needed (cmd :: rest) = 5 + (bitsIn (cmd :: rest) + 7) / 8 := by
    change (if cmd.toNat = 0x7A then 8 else if cmd.toNat = 0x45 then 13 else _) = _
    rw [if_neg (by rw [code]; decide), if_neg (by rw [code]; decide)]
    exact if_pos code
  have stop : lacking (cmd :: rest) = .indexError :=
    if_neg fun other : cmd.toNat = 0x7A => absurd (code.symm.trans other) (by decide)
  apply decodes_of_chain (sinkOf_other (by rw [code]; decide))
  · exact loud_of_mem (by rw [code]; decide)
  · intro enough
    rw [size] at enough
    obtain ⟨rdr, fmt, low, high, data, whole⟩ := four_bytes (Nat.le_of_succ_le_succ (le_of_add_le_left enough))
    subst whole
    have bits : bitsIn (cmd :: rdr :: fmt :: low :: high :: data) = low.toNat ||| high.toNat <<< 8 := rfl
    simp only [bits, List.length_cons] at enough
    obtain ⟨text, plain, shows⟩ := raw_enough cmd rdr fmt low high data (by omega)
    refine ⟨text, plain, ?_⟩
    intro more printed
    rw [branch]
    exact shows more printed
  · intro short
    rw [stop]
    by_cases headless : rest.length < 4
    · have nothing : leftover (cmd :: rest) = [] := if_neg fun raw => absurd raw.2 (by simp; omega)
      rw [nothing]
      refine ⟨plain_nil, ?_⟩
      intro printed
      have few : (cmd :: rest).length < 5 := Nat.succ_lt_succ headless
      rw [branch, raw_headless few, write_nil]
    · obtain ⟨rdr, fmt, low, high, data, whole⟩ := four_bytes (Nat.not_lt.mp headless)
      subst whole
      have bits : bitsIn (cmd :: rdr :: fmt :: low :: high :: data) = low.toNat ||| high.toNat <<< 8 := rfl
      have left : leftover (cmd :: rdr :: fmt :: low :: high :: data) =
          rawHead rdr.toNat fmt.toNat (low.toNat ||| high.toNat <<< 8) ++ shown data := if_pos ⟨code, by simp⟩
      simp only [size, bits, List.length_cons] at short
      rw [left, plain_append]
      refine ⟨⟨plain_rawHead _ _ _, plain_shown _⟩, ?_⟩
      intro printed
      rw [branch]
      exact raw_short cmd rdr fmt low high data printed (by omega)

theorem decodes_other (other : cmd.toNat ∉ [0x7A, 0x45, 0x50]) : Decodes (cmd :: rest) := by
  simp only [List.mem_cons, List.not_mem_nil, or_false, not_or] at other
  have one : needed (cmd :: rest) = 1 := by
    change (if cmd.toNat = 0x7A then 8 else if cmd.toNat = 0x45 then 13 else if cmd.toNat = 0x50 then _ else 1) = 1
    rw [if_neg other.1, if_neg other.2.1, if_neg other.2.2]
  have enough : ¬(cmd :: rest).length < needed (cmd :: rest) := by
    rw [one]
    simp
  by_cases quiet : cmd.toNat = 0x60 ∨ cmd.toNat = 0x40
  · refine ⟨?_, ?_, fun short => absurd short enough⟩
    · intro _ _ more printed
      rw [osdpdecoder_cons, chain, if_pos quiet]
      rfl
    · intro loud
      exact absurd (or_assoc.mp (Or.inl quiet)) loud
  · refine ⟨?_, ?_, fun short => absurd short enough⟩
    · intro silent _ more printed
      have unknown : names.lookup cmd.toNat = none := ((or_assoc.mpr silent).resolve_left quiet).2
      rw [osdpdecoder_cons, chain, if_neg quiet, if_neg other.1, if_neg other.2.1, if_neg other.2.2, unknown]
      rfl
    · intro loud _
      cases known : names.lookup cmd.toNat with
      | none =>
        have unlisted : cmd.toNat ∉ [0x7A, 0x45, 0x50] := by simp [other]
        exact absurd (Or.inr (Or.inr ⟨unlisted, known⟩)) loud
      | some name =>
        refine ⟨name.toList, plain_names known, ?_⟩
        intro more printed
        rw [sinkOf_other other.2.1, osdpdecoder_cons, chain, if_neg quiet, if_neg other.1, if_neg other.2.1, if_neg other.2.2, known]
        rfl

end Messages

/-- The decoder raises exactly where a byte it needs is missing. Else it prints one line, which is to `out` but for an
OSDP_PDID, or nothing for a silent code; and whatever follows the bytes it needs makes no difference. -/
theorem decodes (msg : Bytes) : Decodes msg := by
  cases msg with
  | nil =>
    refine ⟨fun _ enough => absurd enough (by decide), fun _ enough => absurd enough (by decide), fun _ => ?_⟩
    exact ⟨by decide, fun printed => congrArg _ (write_nil printed .out).symm⟩
  | cons cmd rest =>
    by_cases ftstat : cmd.toNat = 0x7A
    · exact decodes_ftstat ftstat
    by_cases identity : cmd.toNat = 0x45
    · exact decodes_identity identity
    by_cases raw : cmd.toNat = 0x50
    · exact decodes_raw raw
    exact decodes_other (by simp [ftstat, identity, raw])

end OsdpMaster.Decoding
