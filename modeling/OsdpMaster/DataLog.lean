import OsdpMaster.BlobHex
import OsdpMaster.WireHistory

/-!
The debug log of the bytes on the wire: `logprotocol::datalog` writes them in hex,
sixteen to a line. The lines read back to the bytes, so the log of a run tells
what the port was given.
-/

namespace OsdpMaster.DataLog
open OsdpMaster.Protocol OsdpMaster.SlavePoll OsdpMaster.BlobStream OsdpMaster.BlobHex OsdpMaster.WireHistory
open OsdpMaster.Bus OsdpMaster.Lib.Hex OsdpMaster.Lib.Trace

section Writing

/-- The `for` loop. -/
def putBytes : Bytes → OStream → Bytes → OStream
  | [], line, _ => line
  | byte :: buffer, line, space =>
    let line := line.insertText space
    putBytes buffer ({ line with width := 2 }.insertInt byte.toNat) (ascii " ")

/-- `line`, after `fill` and `setf`. -/
def newLine : OStream := ⟨[], 0x30, 0, ⟨.hex, .unset, true, false⟩⟩

def logLine (tag buffer : Bytes) : Bytes := tag ++ ascii ": " ++ (putBytes buffer newLine []).written

/-- `while(len > 0)`; as many rounds as there are bytes are enough. -/
def datalogLoop (tag : Bytes) : Nat → Bytes → List Bytes
  | 0, _ => []
  | rounds + 1, buffer =>
    if buffer = [] then []
    else
      let somelen := if buffer.length > 16 then 16 else buffer.length
      logLine tag (buffer.take somelen) :: datalogLoop tag rounds (buffer.drop somelen)

/-- `datalog`, the lines it logs; `tag` is its `prefix`. -/
def datalog (tag buffer : Bytes) : List Bytes := datalogLoop tag buffer.length buffer

def xlog (buffer : Bytes) : List Bytes := datalog (ascii "TX") buffer

end Writing

section Reading

/-- Reads pairs of digits with a character between any two. -/
def spaced : Bytes → Bytes
  | c :: d :: rest =>
    match value c, value d with
    | some high, some low => UInt8.ofNat (16 * high + low) :: spaced (rest.drop 1)
    | _, _ => []
  | _ => []
termination_by text => text.length
decreasing_by
  simp only [List.length_drop, List.length_cons]
  omega

def readLine (tag line : Bytes) : Bytes := spaced (line.drop (tag.length + 2))

end Reading

section RoundTrip

def spellSpaced : Bytes → Bytes → Bytes
  | _, [] => []
  | space, byte :: buffer =>
    space ++ [digit (byte.toNat / 16), digit (byte.toNat % 16)] ++ spellSpaced (ascii " ") buffer

theorem putBytes_written (space buffer : Bytes) (written : Bytes) :
    (putBytes buffer (writing .hex written) space).written = written ++ spellSpaced space buffer := by
  induction buffer generalizing space written with
  | nil => exact (List.append_nil written).symm
  | cons byte buffer ih =>
    have next : { (writing .hex written).insertText space with width := 2 }.insertInt byte.toNat =
        writing .hex (written ++ (space ++ [digit (byte.toNat / 16), digit (byte.toNat % 16)])) := by
      rw [← padded_eq byte]
      simp [OStream.insertText, OStream.insertInt, OStream.pad, writing]
    calc (putBytes (byte :: buffer) (writing .hex written) space).written
        = (putBytes buffer ({ (writing .hex written).insertText space with width := 2 }.insertInt byte.toNat)
            (ascii " ")).written := rfl
      _ = written ++ (space ++ [digit (byte.toNat / 16), digit (byte.toNat % 16)]) ++ spellSpaced (ascii " ") buffer := by
          rw [next, ih]
      _ = written ++ spellSpaced space (byte :: buffer) := by
          rw [List.append_assoc]
          rfl

theorem logLine_eq (tag buffer : Bytes) : logLine tag buffer = tag ++ ascii ": " ++ spellSpaced [] buffer := by
  rw [logLine, show newLine = writing .hex [] from rfl, putBytes_written, List.nil_append]

theorem spaced_digits (byte : UInt8) (rest : Bytes) :
    spaced (digit (byte.toNat / 16) :: digit (byte.toNat % 16) :: rest) = byte :: spaced (rest.drop 1) := by
  have below : byte.toNat < 256 := byte.toNat_lt
  rw [spaced, value_digit (show byte.toNat / 16 < 16 by omega), value_digit (show byte.toNat % 16 < 16 by omega)]
  simp only [Nat.div_add_mod, UInt8.ofNat_toNat]

theorem spaced_spell (buffer : Bytes) : spaced (spellSpaced [] buffer) = buffer := by
  induction buffer with
  | nil => rw [spellSpaced, spaced]; simp
  | cons byte buffer ih =>
    calc spaced (spellSpaced [] (byte :: buffer))
        = byte :: spaced ((spellSpaced (ascii " ") buffer).drop 1) := spaced_digits byte _
      _ = byte :: spaced (spellSpaced [] buffer) := by cases buffer <;> rfl
      _ = byte :: buffer := by rw [ih]

theorem readLine_logLine (tag buffer : Bytes) : readLine tag (logLine tag buffer) = buffer := by
  have start : (tag ++ ascii ": ").length = tag.length + 2 := List.length_append
  rw [readLine, logLine_eq, ← start, List.drop_left, spaced_spell]

theorem spellSpaced_length (buffer : Bytes) : (spellSpaced (ascii " ") buffer).length = 3 * buffer.length := by
  induction buffer with
  | nil => rfl
  | cons byte buffer ih =>
    have one : (ascii " ").length = 1 := rfl
    simp only [spellSpaced, List.length_append, ih, one, List.length_cons, List.length_nil]
    omega

theorem logLine_length (tag : Bytes) (byte : UInt8) (buffer : Bytes) :
    (logLine tag (byte :: buffer)).length = tag.length + 4 + 3 * buffer.length := by
  have colon : (ascii ": ").length = 2 := rfl
  simp only [logLine_eq, spellSpaced, List.length_append, spellSpaced_length, colon, List.length_cons, List.length_nil]
  omega

def Lines (tag : Bytes) (lines : List Bytes) : Prop :=
  ∀ line ∈ lines, tag.length + 4 ≤ line.length ∧ line.length ≤ tag.length + 49

theorem lines_line (tag : Bytes) {buffer : Bytes} (some_bytes : buffer ≠ []) (few : buffer.length ≤ 16) :
    tag.length + 4 ≤ (logLine tag buffer).length ∧ (logLine tag buffer).length ≤ tag.length + 49 := by
  obtain ⟨byte, buffer, rfl⟩ := List.exists_cons_of_ne_nil some_bytes
  rw [List.length_cons] at few
  rw [logLine_length]
  omega

theorem datalogLoop_read (tag : Bytes) {rounds : Nat} {buffer : Bytes} (enough : buffer.length ≤ rounds) :
    (datalogLoop tag rounds buffer).flatMap (readLine tag) = buffer ∧ Lines tag (datalogLoop tag rounds buffer) := by
  induction rounds generalizing buffer with
  | zero =>
    have nothing : buffer = [] := List.length_eq_zero_iff.mp (Nat.le_zero.mp enough)
    subst nothing
    exact ⟨rfl, fun _ member => by cases member⟩
  | succ rounds ih =>
    by_cases nothing : buffer = []
    · subst nothing
      exact ⟨rfl, fun _ member => by cases member⟩
    · have some_bytes : 0 < buffer.length := List.length_pos_iff.mpr nothing
      generalize taken : (if buffer.length > 16 then 16 else buffer.length) = somelen
      have part : 0 < somelen ∧ somelen ≤ 16 ∧ somelen ≤ buffer.length := by
        subst taken
        split <;> omega
      obtain ⟨read, lines⟩ := @ih (buffer.drop somelen) (by rw [List.length_drop]; omega)
      simp only [datalogLoop, if_neg nothing, taken, List.flatMap_cons]
      constructor
      · rw [readLine_logLine, read, List.take_append_drop]
      · intro line member
        rcases List.mem_cons.mp member with here | later
        · subst here
          apply lines_line tag
          · rw [Ne, ← List.length_eq_zero_iff, List.length_take]
            omega
          · rw [List.length_take]
            omega
        · exact lines line later

theorem datalog_read (tag buffer : Bytes) :
    (datalog tag buffer).flatMap (readLine tag) = buffer ∧ Lines tag (datalog tag buffer) :=
  datalogLoop_read tag (Nat.le_refl _)

end RoundTrip

/-- In every run, while no frame was too long for `m_out_buffer`, the lines logged under TX, none of more than 51
characters, read back to the frames that were handed to `writecook`, in order; where no call ended in an exception, to
just what went out on the wire. -/
theorem log_reads_back (config : SerialConfig) (texts : List Bytes) (master : Master) (history : List (Nat × Event))
    (run : Run (bus config texts) free master history) (inside : master.position ≠ .fault) :
    (master.port.logged.flatMap xlog).flatMap (readLine (ascii "TX")) = (images config texts history).flatten ∧
      (broken history = false →
        (master.port.logged.flatMap xlog).flatMap (readLine (ascii "TX")) = master.port.wire) ∧
      ∀ line ∈ master.port.logged.flatMap xlog, line.length ≤ 51 := by
  have read : (master.port.logged.flatMap xlog).flatMap (readLine (ascii "TX")) = master.port.logged.flatten := by
    rw [List.flatMap_assoc]
    have each : ∀ buffer ∈ master.port.logged, (xlog buffer).flatMap (readLine (ascii "TX")) = id buffer :=
      fun buffer _ => (datalog_read (ascii "TX") buffer).1
    rw [List.flatMap_congr each, List.flatMap_id]
  obtain ⟨logged, pieces, wire, _, whole⟩ := (wires_run run).carries inside
  refine ⟨?_, ?_, ?_⟩
  · rw [read, logged]
    rfl
  · intro fine
    rw [read, logged, wire, whole fine]
    rfl
  · intro line member
    obtain ⟨buffer, _, there⟩ := List.mem_flatMap.mp member
    exact ((datalog_read (ascii "TX") buffer).2 line there).2

theorem log_reads_back_lines :
    ∃ master : Master,
      (master.port.logged.flatMap xlog).map List.length = [27, 51, 36] ∧
        (master.port.logged.flatMap xlog).flatMap (readLine (ascii "TX")) = master.port.wire := by
  have checked : (replay (bus plainPort [ascii "5"]) free (bus plainPort [ascii "5"]).start
      (bus plainPort [ascii "5"]).startup
      (polls 8 ⟨0, 0⟩ [.data ackReply] ++ .message (ascii "osdp/bus1/outgoing/5") (List.replicate 20 7) ::
        polls 6 ⟨1, 0⟩ [.data ackReply])).any (fun reached =>
        outsideFault reached.1.position && !broken reached.2 &&
          (reached.1.port.logged.flatMap xlog).map List.length == [27, 51, 36]) = true := by
    decide +kernel
  obtain ⟨master, history, run, reached⟩ := exists_run checked
  simp only [Bool.and_eq_true, Bool.not_eq_true', beq_iff_eq] at reached
  obtain ⟨⟨inside, fine⟩, lines⟩ := reached
  exact ⟨master, lines,
    (log_reads_back plainPort [ascii "5"] master history run (not_fault inside)).2.1 fine⟩

end OsdpMaster.DataLog
