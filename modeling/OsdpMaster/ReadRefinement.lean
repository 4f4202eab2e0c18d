import OsdpMaster.ReadSpec

/-!
`readcook` on a master is the one-shot parser, however the system splits the
stream into reads; and no call, whatever its input, leaves the buffer.
-/

namespace OsdpMaster.ReadRefinement
open OsdpMaster.Protocol OsdpMaster.Lib.Program OsdpMaster.ReadInput OsdpMaster.FrameSpec OsdpMaster.ReadSpec

theorem passesBy_master (addr : UInt8) : passesBy 0xFF addr = false := by
  simp [passesBy]

theorem not_awaits_master (stream : Bytes) : ¬awaitsChecksum 0xFF stream := by
  intro awaits
  rw [awaitsChecksum, passesBy_master] at awaits
  exact absurd awaits.2.1 Bool.false_ne_true

theorem parseMaster_split {stream : Bytes} {p : Parsed} (parsed : parseMaster stream = some p) :
    ∃ noise, chSOH ∉ noise ∧ stream = noise ++ p.frame ++ p.rest := by
  obtain ⟨noise, quiet, split⟩ := split_noise stream
  refine ⟨noise, quiet, ?_⟩
  have pieces : p.frame ++ p.rest = fromSoh stream := by
    simp only [parseMaster, direct] at parsed
    split at parsed
    · cases parsed
    · split at parsed
      · split at parsed
        · cases parsed
        · cases parsed
          exact List.take_append_drop _ _
      · cases parsed
        exact List.take_append_drop _ _
  rw [List.append_assoc, pieces, ← split]

/-- A positive value is the size of an intact frame, which the call took from the first SOH on and
left at the start of `m_in_buffer`. -/
theorem readcook_positive {m after : Protocol} {now stamp : Timespec} {value : Int}
    (run : readcook now stamp m = .ok value after) (positive : 0 < value) :
    ∃ noise frame, chSOH ∉ noise ∧ Framed frame ∧ intact frame = true ∧
      passesBy m.myAddr (addrOf frame) = false ∧
      value = (frame.length : Int) - trailerSize frame ∧
      bytesOf m.input = noise ++ (frame ++ bytesOf after.input) ∧
      after.inBuffer.bytes.take frame.length = frame := by
  obtain ⟨left, outcome, final_eq⟩ := (readcook_ends m now stamp).of_ok run
  have input_eq : after.input = left.input := by rw [final_eq]
  have buffer_eq : after.inBuffer = left.inBuffer := by rw [final_eq]
  cases outcome with
  | timeout tick member late value_eq =>
    simp only [value_eq, PROTO_ERR_TIMEOUT] at positive
    omega
  | parsed p marks parse_eq value_eq took kept rest front =>
    subst value_eq
    obtain ⟨framed, sound, stays, result, split⟩ := parse_positive parse_eq positive
    obtain ⟨noise, quiet, stream⟩ := split_noise (bytesOf m.input)
    refine ⟨noise, p.frame, quiet, framed, sound, stays, result, ?_, ?_⟩
    · rw [input_eq, rest, ← split]
      exact stream
    · rw [buffer_eq]
      exact front stays
  | stale before rest split awaits value_eq =>
    simp only [PROTO_ERR_FLYBY, PROTO_ERR_CRC] at value_eq
    omega

/-- A call that meets neither a fatal error nor a late `EAGAIN`, and no read of 0 bytes in place of a
checksum, returns what the parser says and leaves its rest; if the stream ends first, the call is
still waiting. -/
theorem readcook_settles (m : Protocol) (now stamp : Timespec)
    (quiet : ∀ outcome ∈ m.input, Quiet (deadlineFrom now m.config.timeout) outcome)
    (full : Dry (fun bytes => ¬awaitsChecksum m.myAddr bytes) (marksOf m.input)) :
    match parse m.myAddr (bytesOf m.input) with
    | some p => ∃ after, readcook now stamp m = .ok p.result after ∧ bytesOf after.input = p.rest ∧
        (passesBy m.myAddr (addrOf p.frame) = false →
          after.inBuffer.bytes.take p.frame.length = p.frame)
    | none => ∃ after, readcook now stamp m = .error .blocked after := by
  have ends := readcook_ends m now stamp
  cases run : readcook now stamp m with
  | ok value final =>
    obtain ⟨after, outcome, final_eq⟩ := ends.of_ok run
    have input_eq : final.input = after.input := by rw [final_eq]
    have buffer_eq : final.inBuffer = after.inBuffer := by rw [final_eq]
    cases outcome with
    | timeout tick member late _ =>
      have early : expired (deadlineFrom now m.config.timeout) tick = false := quiet _ member
      rw [show (started m now).deadline = deadlineFrom now m.config.timeout from rfl, early] at late
      cases late
    | parsed p marks parse_eq value_eq took kept rest front =>
      have parse_eq' : parse m.myAddr (bytesOf m.input) = some p := parse_eq
      simp only [parse_eq']
      refine ⟨final, by rw [value_eq], by rw [input_eq, rest], ?_⟩
      rw [buffer_eq]
      exact front
    | stale before rest split awaits _ => exact absurd awaits (full before rest split)
  | error stop final =>
    obtain ⟨halts, notCode⟩ := ends.of_error run
    cases stop with
    | code value => exact absurd rfl (notCode value)
    | exception message => exact absurd (quiet _ halts) id
    | blocked =>
      obtain ⟨_, incomplete, _⟩ := halts
      have waiting : parse m.myAddr (bytesOf m.input) = none := incomplete
      simp only [waiting]
      exact ⟨final, rfl⟩
    | fault => exact absurd halts id

theorem readcook_quiet (m : Protocol) (now stamp : Timespec) (master : m.myAddr = 0xFF)
    (quiet : ∀ outcome ∈ m.input, Quiet (deadlineFrom now m.config.timeout) outcome) :
    match parseMaster (bytesOf m.input) with
    | some p => ∃ after, readcook now stamp m = .ok p.result after ∧
        after.inBuffer.bytes.take p.frame.length = p.frame ∧ bytesOf after.input = p.rest
    | none => ∃ after, readcook now stamp m = .error .blocked after := by
  have full : Dry (fun bytes => ¬awaitsChecksum m.myAddr bytes) (marksOf m.input) := by
    rw [master]
    exact fun before after _ => not_awaits_master (arrived before)
  have settles := readcook_settles m now stamp quiet full
  rw [master, parse_master] at settles
  cases parsed : parseMaster (bytesOf m.input) with
  | none => simpa only [parsed] using settles
  | some p =>
    simp only [parsed] at settles ⊢
    obtain ⟨after, run, rest, front⟩ := settles
    exact ⟨after, run, front (passesBy_master _), rest⟩

/-- On a master and with the deadline never reached, `readcook` is the reference parser of the
concatenated stream, and two inputs with the same bytes give the same result, frame and rest. -/
theorem readcook_parses (m : Protocol) (now stamp : Timespec) (master : m.myAddr = 0xFF)
    (quiet : ∀ outcome ∈ m.input, Quiet (deadlineFrom now m.config.timeout) outcome) :
    (match parseMaster (bytesOf m.input) with
    | some p => (∃ noise, chSOH ∉ noise ∧ bytesOf m.input = noise ++ p.frame ++ p.rest) ∧
        ∃ after, readcook now stamp m = .ok p.result after ∧
          after.inBuffer.bytes.take p.frame.length = p.frame ∧ bytesOf after.input = p.rest
    | none => ∃ after, readcook now stamp m = .error .blocked after) ∧
    ∀ (other : Protocol) (now' stamp' : Timespec), other.myAddr = 0xFF →
      (∀ outcome ∈ other.input, Quiet (deadlineFrom now' other.config.timeout) outcome) →
      bytesOf other.input = bytesOf m.input →
      ∀ value after, readcook now stamp m = .ok value after →
        ∃ after', readcook now' stamp' other = .ok value after' ∧
          bytesOf after'.input = bytesOf after.input ∧
          ∀ p, parseMaster (bytesOf m.input) = some p →
            after'.inBuffer.bytes.take p.frame.length = after.inBuffer.bytes.take p.frame.length := by
  have here := readcook_quiet m now stamp master quiet
  refine ⟨?_, ?_⟩
  · cases parsed : parseMaster (bytesOf m.input) with
    | none => simpa only [parsed] using here
    | some p =>
      simp only [parsed] at here
      exact ⟨parseMaster_split parsed, here⟩
  · intro other now' stamp' master' quiet' same value after run
    have there := readcook_quiet other now' stamp' master' quiet'
    rw [same] at there
    cases parsed : parseMaster (bytesOf m.input) with
    | none =>
      simp only [parsed, run] at here
      obtain ⟨_, impossible⟩ := here
      cases impossible
    | some p =>
      simp only [parsed, run] at here
      simp only [parsed] at there
      obtain ⟨_, equal, front, rest⟩ := here
      obtain ⟨after', run', front', rest'⟩ := there
      cases equal
      refine ⟨after', run', by rw [rest', rest], ?_⟩
      intro q same_p
      cases same_p
      rw [front', front]

def pieces : List ReadOutcome :=
  [.data [1, 0x53, 0x80], .eintr, .data [8, 0, 4, 0x40], .eagain ⟨0, 0⟩, .data [0x59, 0xAC, 0x53]]

theorem readcook_parses_pieces :
    ∃ after, readcook ⟨0, 0⟩ ⟨0, 0⟩ { Protocol.construct ⟨0, 0, 1000, 0, 0⟩ with input := pieces } =
        .ok 6 after ∧
      after.inBuffer.bytes.take 8 = [0x53, 0x80, 8, 0, 4, 0x40, 0x59, 0xAC] ∧
      bytesOf after.input = [0x53] := by
  have parsed : parseMaster (bytesOf pieces) =
      some ⟨6, [0x53, 0x80, 8, 0, 4, 0x40, 0x59, 0xAC], [0x53]⟩ := by decide +kernel
  have parses := (readcook_parses { Protocol.construct ⟨0, 0, 1000, 0, 0⟩ with input := pieces }
    ⟨0, 0⟩ ⟨0, 0⟩ rfl (by decide +kernel)).1
  rw [parsed] at parses
  exact parses.2

/-- No run of `readcook`, on any station and with any input, reaches outside `m_in_buffer` or asks
for no bytes: such an access ends in `fault`. -/
theorem readcook_stays_inside (m : Protocol) (now stamp : Timespec) (after : Protocol) :
    readcook now stamp m ≠ .error .fault after := by
  intro run
  have faulted := (readcook_ends m now stamp).of_error run
  exact faulted.1

end OsdpMaster.ReadRefinement
