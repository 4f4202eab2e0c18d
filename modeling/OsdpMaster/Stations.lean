import OsdpMaster.CallSafety
import OsdpMaster.FlyBy
import OsdpMaster.WireHistory

/-!
All stations on the bus. Whatever address a station has, `readcook` takes the
frames of a whole run of the master one by one from what it hears: those for the
station as they were sent, and any others, however long, as a fly-by.
-/

namespace OsdpMaster.Stations
open OsdpMaster.Protocol OsdpMaster.WriteSpec OsdpMaster.RoundTrip OsdpMaster.ReadInput OsdpMaster.FrameSpec
open OsdpMaster.ReadSpec OsdpMaster.WireHistory OsdpMaster.Bus OsdpMaster.Lib.Program OsdpMaster.Lib.Trace

section Frames

variable (command : Command)

theorem trailer_of_command : hasCrc (ctrlOf command.frame) = true := by
  rw [Command.frame, ctrlOf_encode, flag_set]

theorem whole_of_command (fits : command.payload.length + 7 < 65536) : FlyBy.Whole command.frame where
  soh := rfl
  size := by rw [Command.frame, encode_length, declared_encode _ _ _ fits]
  fits := by
    rw [Command.frame, trailerSize_encode, declared_encode _ _ _ fits]
    unfold sizeofCommon
    omega

theorem parse_command {me : UInt8} {noise : Bytes} (quiet : chSOH ∉ noise) (fits : command.payload.length + 7 < 65536)
    (own : passesBy me (addrOf command.frame) = false → command.payload.length ≤ 259) (rest : Bytes) :
    parse me (noise ++ (command.frame ++ rest)) =
      some ⟨if passesBy me (addrOf command.frame) then PROTO_ERR_FLYBY else command.payload.length + 5,
        command.frame, rest⟩ := by
  have sound : intact command.frame = true := intact_encode _ _ _
  cases passes : passesBy me (addrOf command.frame) with
  | true => rw [(whole_of_command command fits).parse_eq quiet passes, if_pos sound, if_pos rfl]
  | false =>
    have framed : Framed command.frame := framed_encode _ _ _ (own passes)
    have size : (command.frame.length : Int) - trailerSize command.frame = command.payload.length + 5 := by
      rw [Command.frame, encode_length, trailerSize_encode]
      omega
    rw [framed.parse_eq quiet passes, if_pos sound, size, if_neg Bool.false_ne_true]

theorem fromSoh_append {stream : Bytes} (found : fromSoh stream ≠ []) (tail : Bytes) :
    fromSoh (stream ++ tail) = fromSoh stream ++ tail := by
  have some_left : ((stream.dropWhile (· != chSOH)).isEmpty) = false := by
    rw [List.isEmpty_eq_false_iff]
    exact found
  rw [fromSoh, List.dropWhile_append, some_left, if_neg Bool.false_ne_true, fromSoh]

theorem not_awaits_command {me : UInt8} {noise front tail rest : Bytes} (quiet : chSOH ∉ noise)
    (stream : front ++ tail = noise ++ (command.frame ++ rest)) : ¬awaitsChecksum me front := by
  rintro ⟨header, _, sum, _⟩
  have found : fromSoh front ≠ [] := by
    intro nothing
    rw [nothing] at header
    exact absurd header (by decide)
  have long : sizeofCommon ≤ command.frame.length := by
    rw [Command.frame, encode_length]
    unfold sizeofCommon
    omega
  have start : fromSoh (command.frame ++ rest) = command.frame ++ rest := fromSoh_soh _
  have same : fromSoh front ++ tail = command.frame ++ rest := by
    rw [← fromSoh_append found, stream, fromSoh_noise noise quiet, start]
  have ctrl := congrArg ctrlOf same
  rw [ctrlOf_append _ _ header, ctrlOf_append _ _ long] at ctrl
  rw [ctrl, trailer_of_command] at sum
  cases sum

end Frames

section Calls

/-- What a station makes of a command: its own it returns, and the others pass. -/
structure Took (me : UInt8) (command : Command) (result : Int × Bytes) : Prop where
  own : passesBy me (addrOf command.frame) = false → Returned command result
  foreign : passesBy me (addrOf command.frame) = true → result.1 = PROTO_ERR_FLYBY

structure Listens (me : UInt8) (m : Protocol) : Prop where
  addr : m.myAddr = me
  nonfatal : .error ∉ m.input

variable {me : UInt8}

/-- A call on a stream with a command in it takes the command or times out. -/
theorem readcook_command {m : Protocol} (listens : Listens me m) (now stamp : Timespec) (command : Command)
    {noise rest : Bytes} (quiet : chSOH ∉ noise) (low : 0 ≤ command.seq) (high : command.seq ≤ 3)
    (fits : command.payload.length + 7 < 65536)
    (own : passesBy me (addrOf command.frame) = false → command.payload.length ≤ 259)
    (stream : bytesOf m.input = noise ++ (command.frame ++ rest)) :
    ∃ value after, readcook now stamp m = .ok value after ∧
      (value = PROTO_ERR_TIMEOUT ∨
        Took me command (value, after.inBuffer.bytes) ∧ bytesOf after.input = rest ∧ Listens me after) := by
  have ends := readcook_ends m now stamp
  have parsed : parse m.myAddr (bytesOf m.input) =
      some ⟨if passesBy me (addrOf command.frame) then PROTO_ERR_FLYBY else command.payload.length + 5,
        command.frame, rest⟩ := by
    rw [stream, listens.addr, parse_command command quiet fits own]
  cases run : readcook now stamp m with
  | ok value final =>
    obtain ⟨after, outcome, final_eq⟩ := ends.of_ok run
    have input_eq : final.input = after.input := by rw [final_eq]
    have buffer_eq : final.inBuffer = after.inBuffer := by rw [final_eq]
    have addr_eq : final.myAddr = after.myAddr := by rw [final_eq]
    refine ⟨value, final, rfl, ?_⟩
    cases outcome with
    | timeout tick member late value_eq => exact Or.inl value_eq
    | parsed p marks parse_eq value_eq took kept rest_eq front =>
      have same := parse_eq.symm.trans parsed
      cases same
      refine Or.inr ⟨⟨?_, ?_⟩, by rw [input_eq, rest_eq], ?_, ?_⟩
      · intro stays
        have whole : after.inBuffer.bytes.take command.frame.length = command.frame := by
          apply front
          change passesBy m.myAddr _ = false
          rw [listens.addr]
          exact stays
        rw [value_eq, buffer_eq, stays, if_neg Bool.false_ne_true]
        exact returned_of_front command _ low high whole
      · intro passes
        rw [value_eq, passes, if_pos rfl]
      · rw [addr_eq, kept.myAddr]
        exact listens.addr
      · rw [input_eq]
        intro member
        exact listens.nonfatal ((took.loud .error id).mpr member)
    | stale before more split awaits _ =>
      have marks : marksOf m.input = before ++ none :: more := split
      have parts : arrived before ++ arrived more = noise ++ (command.frame ++ rest) := by
        rw [← stream, bytesOf, marks, ← List.singleton_append, arrived_append, arrived_append, arrived_none,
          List.nil_append]
      exact absurd awaits (not_awaits_command command quiet parts)
  | error stop final =>
    obtain ⟨halts, notCode⟩ := ends.of_error run
    cases stop with
    | code value => exact absurd rfl (notCode value)
    | exception message => exact absurd halts listens.nonfatal
    | blocked =>
      obtain ⟨_, incomplete, _⟩ := halts
      rw [parsed] at incomplete
      cases incomplete
    | fault => exact absurd halts id

theorem readcooks_commands (commands : List Command) {m : Protocol} (listens : Listens me m)
    (clocks : List (Timespec × Timespec)) {noise : Bytes} (quiet : chSOH ∉ noise)
    (wellFormed : ∀ command ∈ commands, 0 ≤ command.seq ∧ command.seq ≤ 3 ∧ command.payload.length + 7 < 65536 ∧
      (passesBy me (addrOf command.frame) = false → command.payload.length ≤ 259))
    (stream : bytesOf m.input = noise ++ streamOf commands) (as_many : clocks.length = commands.length)
    (in_time : InTime clocks m) :
    ∃ results after, readcooks clocks m = .ok results after ∧ List.Forall₂ (Took me) commands results := by
  induction commands generalizing m clocks noise with
  | nil =>
    have no_clocks : clocks = [] := List.length_eq_zero_iff.mp as_many
    subst no_clocks
    exact ⟨[], m, rfl, .nil⟩
  | cons command commands ih =>
    obtain ⟨⟨now, stamp⟩, clocks, rfl⟩ : ∃ clock more, clocks = clock :: more := by
      cases clocks with
      | nil => cases as_many
      | cons clock more => exact ⟨clock, more, rfl⟩
    obtain ⟨low, high, fits, own⟩ := wellFormed command List.mem_cons_self
    have around : bytesOf m.input = (noise ++ padding command.lead) ++
        (command.frame ++ (padding command.trail ++ streamOf commands)) := by
      rw [stream, streamOf, List.flatMap_cons]
      simp only [streamOf, List.append_assoc]
    have quiet' : chSOH ∉ noise ++ padding command.lead := by
      rw [List.mem_append, not_or]
      exact ⟨quiet, not_mem_padding command.lead⟩
    obtain ⟨value, after, run, took⟩ := readcook_command listens now stamp command quiet' low high fits own around
    simp only [InTime, run] at in_time
    obtain ⟨punctual, in_time'⟩ := in_time
    rcases took with late | ⟨took, rest, listens'⟩
    · exact absurd late punctual
    · obtain ⟨results, final, more, all⟩ := ih listens' clocks (not_mem_padding command.trail)
        (fun other member => wellFormed other (List.mem_cons_of_mem _ member)) rest (Nat.succ.inj as_many) in_time'
      refine ⟨(value, after.inBuffer.bytes) :: results, final, ?_, .cons took all⟩
      rw [readcooks, bind_of_ok run]
      change (readcooks clocks >>= _) after = _
      rw [bind_of_ok more]
      rfl

end Calls

section Runs

variable {config : SerialConfig} {texts : List Bytes} {master : Master} {history : List (Nat × SlavePoll.Event)}

structure Hears (me : UInt8) (texts : List Bytes) (frame : Nat × Retransmission.Sent) (result : Int × Bytes) : Prop where
  own : passesBy me (addrAt texts frame.1 &&& 0x7F) = false → Reads texts frame result
  foreign : passesBy me (addrAt texts frame.1 &&& 0x7F) = true → result.1 = PROTO_ERR_FLYBY

theorem addrOf_commandOf (config : SerialConfig) (texts : List Bytes) (frame : Nat × Retransmission.Sent) :
    addrOf (commandOf config texts frame).frame = addrAt texts frame.1 &&& 0x7F := by
  rw [Command.frame, addrOf_encode]
  exact congrArg (· &&& 0x7F) (ofInt_toNat _)

theorem handed_fits (run : Run (bus config texts) free master history) (inside : master.position ≠ .fault) :
    ∀ frame ∈ handed history, frame.2.payload.length + 7 < 65536 := by
  intro frame member
  obtain ⟨⟨i, event⟩, there, found⟩ := List.mem_filterMap.mp member
  obtain ⟨sent, sent_eq, same⟩ := Option.map_eq_some_iff.mp found
  subst same
  cases event with
  | sent seq payload sendmsg =>
    cases sent_eq
    have short : ¬CallSafety.TooLong config payload := fun long =>
      inside ((CallSafety.sound_run run).mpr ⟨_, there, long⟩)
    rw [CallSafety.TooLong] at short
    unfold SLAVE_BUFF_SIZE at short
    dsimp only
    omega
  | _ => cases sent_eq

/-- Of a run with no exception and no frame too long for `m_out_buffer`, a station of any address that hears the
master and calls `readcook` as often as the master called `writecook`, in time, reads exactly the frames that are for
its address or for all, and lets each other one pass. Only its own frames have to fit its buffer. -/
theorem stations_hear (config : SerialConfig) (texts : List Bytes) (master : Master)
    (history : List (Nat × SlavePoll.Event)) (run : Run (bus config texts) free master history)
    (inside : master.position ≠ .fault) (fine : broken history = false) (me : UInt8) (m : Protocol)
    (station : m.myAddr = me) (short : ∀ frame ∈ handed history,
      passesBy me (addrAt texts frame.1 &&& 0x7F) = false → frame.2.payload.length ≤ 259)
    (clocks : List (Timespec × Timespec)) (nonfatal : .error ∉ m.input) (fed : bytesOf m.input = master.port.wire)
    (as_many : clocks.length = (handed history).length) (in_time : InTime clocks m) :
    ∃ results after, readcooks clocks m = .ok results after ∧
      List.Forall₂ (Hears me texts) (handed history) results := by
  obtain ⟨pieces, wire, _, whole⟩ := ((wires_run run).carries inside).wire
  rw [whole fine, images, ← streamOf_frames] at wire
  have wellFormed : ∀ command ∈ (handed history).map (commandOf config texts),
      0 ≤ command.seq ∧ command.seq ≤ 3 ∧ command.payload.length + 7 < 65536 ∧
        (passesBy me (addrOf command.frame) = false → command.payload.length ≤ 259) := by
    intro command member
    obtain ⟨frame, there, same⟩ := List.mem_map.mp member
    subst same
    have small := UInt8.le_iff_toNat_le.mp (handed_small run frame there)
    have three : (3 : UInt8).toNat = 3 := rfl
    refine ⟨Int.natCast_nonneg _, ?_, handed_fits run inside frame there, ?_⟩
    · show (frame.2.seq.toNat : Int) ≤ 3
      omega
    · rw [addrOf_commandOf]
      exact short frame there
  obtain ⟨results, after, reads, all⟩ := readcooks_commands _ ⟨station, nonfatal⟩ clocks List.not_mem_nil wellFormed
    (fed.trans wire) (by rw [List.length_map, as_many]) in_time
  refine ⟨results, after, reads, ?_⟩
  rw [List.forall₂_map_left_iff] at all
  apply all.imp
  intro frame result took
  refine ⟨?_, ?_⟩
  · intro own
    exact reads_of_returned (took.own (by rw [addrOf_commandOf, own]))
  · intro foreign
    exact took.foreign (by rw [addrOf_commandOf, foreign])

def station (me : UInt8) (wire : Bytes) : Protocol := { recorded wire with myAddr := me }

theorem stations_hear_two :
    ∃ (master : Master) (history : List (Nat × SlavePoll.Event)) (results : List (Int × Bytes)) (after : Protocol),
      (handed history).map Prod.fst = [1, 0] ∧
      readcooks [(⟨0, 0⟩, ⟨0, 0⟩), (⟨1, 0⟩, ⟨1, 0⟩)] (station 9 master.port.wire) = .ok results after ∧
      List.Forall₂ (Hears 9 [ascii "5", ascii "9"]) (handed history) results := by
  have checked : (replay (bus plainPort [ascii "5", ascii "9"]) free (bus plainPort [ascii "5", ascii "9"]).start
      (bus plainPort [ascii "5", ascii "9"]).startup
      (polls 8 ⟨0, 0⟩ [.data ackReply] ++ polls 8 ⟨1, 0⟩ [.data ackReply])).any
      (fun reached => outsideFault reached.1.position && !broken reached.2 &&
        (handed reached.2).all (fun frame => decide (frame.2.payload.length ≤ 259)) &&
        (handed reached.2).map Prod.fst == [1, 0] &&
        decide (InTime [(⟨0, 0⟩, ⟨0, 0⟩), (⟨1, 0⟩, ⟨1, 0⟩)] (station 9 reached.1.port.wire))) = true := by
    decide +kernel
  obtain ⟨master, history, run, reached⟩ := exists_run checked
  simp only [Bool.and_eq_true, Bool.not_eq_true', beq_iff_eq, List.all_eq_true, decide_eq_true_eq] at reached
  obtain ⟨⟨⟨⟨inside, fine⟩, short⟩, two⟩, in_time⟩ := reached
  have as_many : (handed history).length = 2 := by rw [← List.length_map Prod.fst, two]; rfl
  obtain ⟨results, after, reads, all⟩ := stations_hear plainPort [ascii "5", ascii "9"] master history run
    (not_fault inside) fine 9 (station 9 master.port.wire) rfl (fun frame member _ => short frame member)
    [(⟨0, 0⟩, ⟨0, 0⟩), (⟨1, 0⟩, ⟨1, 0⟩)] (by simp [station, recorded, Protocol.construct]) (bytesOf_recorded _)
    as_many.symm in_time
  exact ⟨master, history, results, after, two, reads, all⟩

end Runs

end OsdpMaster.Stations
