import OsdpMaster.ReadRefinement
import OsdpMaster.WriteSpec

/-!
What `writecook` puts on the wire, `readcook` takes off it: any row of commands,
with any pads between them and any cut into reads, comes back frame by frame.
-/

namespace OsdpMaster.RoundTrip
open OsdpMaster.Protocol OsdpMaster.Lib.Program OsdpMaster.Crc16 OsdpMaster.ReadInput OsdpMaster.FrameSpec
open OsdpMaster.ReadSpec OsdpMaster.ReadRefinement OsdpMaster.WriteSpec

section Encode

theorem header_length (addr seq : Int) (fullsize : Nat) :
    (header addr seq fullsize).length = sizeofCommon := rfl

theorem leWord_split (fullsize : Nat) (fits : fullsize < 65536) :
    leWord (UInt8.ofNat fullsize) (UInt8.ofNat (fullsize >>> 8)) = fullsize := by
  simp only [leWord, UInt8.toNat_ofNat', Nat.shiftRight_eq_div_pow]
  omega

private theorem flag_bits : ∀ x : BitVec 8, hasCrc (⟨x⟩ ||| 0x04) = true := by
  decide +kernel

theorem flag_set (byte : UInt8) : hasCrc (byte ||| 0x04) = true := flag_bits byte.toBitVec

theorem crcWord_crcBytes (crc : UInt16) : crcWord crc.toUInt8 (crc >>> 8).toUInt8 = crc := by
  apply UInt16.toBitVec_inj.mp
  change (crc.toBitVec.setWidth 8).setWidth 16 |||
    (((crc.toBitVec >>> 8).setWidth 8).setWidth 16 <<< 8) = crc.toBitVec
  apply BitVec.eq_of_getLsbD_eq
  intro i small
  interval_cases i <;> simp

variable (addr seq : Int) (payload : Bytes)

theorem encode_eq : encode addr seq payload =
    header addr seq (payload.length + 7) ++ (payload ++ crcBytes (crc16Digest
      (crc16Add crc16Prepare (header addr seq (payload.length + 7) ++ payload)))) := by
  rw [encode, List.append_assoc]

theorem addrOf_encode : addrOf (encode addr seq payload) = UInt8.ofInt addr &&& 0x7F := by
  rw [encode_eq, addrOf_append _ _ (by rw [header_length])]
  rfl

theorem ctrlOf_encode : ctrlOf (encode addr seq payload) = UInt8.ofInt seq ||| 0x04 := by
  rw [encode_eq, ctrlOf_append _ _ (by rw [header_length])]
  rfl

theorem declared_encode (fits : payload.length + 7 < 65536) :
    declared (encode addr seq payload) = payload.length + 7 := by
  rw [encode_eq, declared_append _ _ (by rw [header_length])]
  exact leWord_split _ fits

theorem trailerSize_encode : trailerSize (encode addr seq payload) = 2 := by
  rw [trailerSize, ctrlOf_encode, flag_set, if_pos rfl]

theorem intact_encode : intact (encode addr seq payload) = true := by
  have long : sizeofCommon ≤ (header addr seq (payload.length + 7) ++ payload).length := by
    rw [List.length_append, header_length]
    omega
  have flag : hasCrc (ctrlOf (header addr seq (payload.length + 7) ++ payload)) = true := by
    rw [ctrlOf_append _ _ (by rw [header_length])]
    exact flag_set _
  rw [encode, intact_append_crc _ _ long flag rfl, beq_iff_eq]
  exact crcWord_crcBytes _

/-- `readcook` takes the frames of payloads up to 259 bytes for frames. -/
theorem framed_encode (short : payload.length ≤ 259) : Framed (encode addr seq payload) where
  soh := rfl
  size := by rw [encode_length, declared_encode addr seq payload (by omega)]
  admitted := by
    rw [declared_encode addr seq payload (by omega)]
    refine decide_eq_true ⟨by omega, ?_⟩
    unfold SLAVE_BUFF_SIZE sizeofCommon
    omega

theorem payload_encode : ((encode addr seq payload).drop 5).take payload.length = payload := by
  have five : (header addr seq (payload.length + 7)).length = 5 := rfl
  rw [encode_eq, List.drop_left' five, List.take_left]

end Encode

section Receive

theorem not_mem_padding (count : Int) : chSOH ∉ padding count := by
  intro member
  exact absurd (List.eq_of_mem_replicate member) (by decide)

/-- A master's call on a stream with a frame in it takes the frame or times out. -/
theorem readcook_framed (m : Protocol) (now stamp : Timespec) (master : m.myAddr = 0xFF)
    (nonfatal : .error ∉ m.input) {noise frame rest : Bytes} (quiet : chSOH ∉ noise)
    (framed : Framed frame) (sound : intact frame = true)
    (stream : bytesOf m.input = noise ++ (frame ++ rest)) :
    ∃ value after, readcook now stamp m = .ok value after ∧
      (value = PROTO_ERR_TIMEOUT ∨
        value = (frame.length : Int) - trailerSize frame ∧
          after.inBuffer.bytes.take frame.length = frame ∧ bytesOf after.input = rest ∧
          after.myAddr = 0xFF ∧ .error ∉ after.input) := by
  have ends := readcook_ends m now stamp
  have parsed : parse m.myAddr (bytesOf m.input) =
      some ⟨(frame.length : Int) - trailerSize frame, frame, rest⟩ := by
    rw [stream, master, framed.parse_eq quiet (passesBy_master _), if_pos sound]
  cases run : readcook now stamp m with
  | ok value final =>
    obtain ⟨after, outcome, final_eq⟩ := ends.of_ok run
    have input_eq : final.input = after.input := by rw [final_eq]
    have buffer_eq : final.inBuffer = after.inBuffer := by rw [final_eq]
    have addr_eq : final.myAddr = after.myAddr := by rw [final_eq]
    refine ⟨value, final, rfl, ?_⟩
    cases outcome with
    | timeout tick member late value_eq => exact Or.inl value_eq
    | parsed p marks parse_eq value_eq took kept rest_eq front =>
      have same : some p = some ⟨(frame.length : Int) - trailerSize frame, frame, rest⟩ :=
        parse_eq.symm.trans parsed
      cases same
      refine Or.inr ⟨value_eq, ?_, by rw [input_eq, rest_eq], ?_, ?_⟩
      · rw [buffer_eq]
        refine front ?_
        change passesBy m.myAddr _ = false
        rw [master, passesBy_master]
      · rw [addr_eq, kept.myAddr]
        exact master
      · rw [input_eq]
        intro member
        exact nonfatal ((took.loud .error id).mpr member)
    | stale before more split awaits _ =>
      have awaits' : awaitsChecksum m.myAddr (arrived before) := awaits
      rw [master] at awaits'
      exact absurd awaits' (not_awaits_master _)
  | error stop final =>
    obtain ⟨halts, notCode⟩ := ends.of_error run
    cases stop with
    | code value => exact absurd rfl (notCode value)
    | exception message => exact absurd halts nonfatal
    | blocked =>
      obtain ⟨_, incomplete, _⟩ := halts
      rw [parsed] at incomplete
      cases incomplete
    | fault => exact absurd halts id

end Receive

section Rows

/-- A call of `writecook`, with the pad counts configured for it and the clock it finds. -/
structure Command where
  now : Timespec
  lead : Int
  trail : Int
  addr : Int
  seq : Int
  payload : Bytes

def Command.config (command : Command) (config : SerialConfig) : SerialConfig :=
  { config with lead := command.lead, trail := command.trail }

def writecooks : List Command → Proto Unit
  | [] => pure ()
  | command :: commands => do
    modify fun m => { m with config := command.config m.config }
    let _ ← writecook command.now command.addr command.seq command.payload
    writecooks commands

/-- As many calls of `readcook`, each with its two clock readings: their values, and the receive
buffer after each. -/
def readcooks : List (Timespec × Timespec) → Proto (List (Int × Bytes))
  | [] => pure []
  | (now, stamp) :: clocks => do
    let size ← readcook now stamp
    let m ← get
    let results ← readcooks clocks
    pure ((size, m.inBuffer.bytes) :: results)

def InTime : List (Timespec × Timespec) → Protocol → Prop
  | [], _ => True
  | (now, stamp) :: clocks, m =>
    match readcook now stamp m with
    | .ok value after => value ≠ PROTO_ERR_TIMEOUT ∧ InTime clocks after
    | .error _ _ => True

structure Returned (command : Command) (result : Int × Bytes) : Prop where
  size : result.1 = command.payload.length + 5
  addr : result.2.getD 1 0 = UInt8.ofInt command.addr &&& 0x7F
  seq : (result.2.getD 4 0 &&& 0x03).toNat = command.seq
  payload : (result.2.drop 5).take command.payload.length = command.payload

def lastTrail (commands : List Command) : Bytes :=
  (commands.getLast?.map (fun command => padding command.trail)).getD []

def Command.frame (command : Command) : Bytes := encode command.addr command.seq command.payload

def streamOf (commands : List Command) : Bytes :=
  commands.flatMap (fun command => padding command.lead ++ command.frame ++ padding command.trail)

theorem writecooks_wire (commands : List Command) (m after : Protocol)
    (run : writecooks commands m = .ok () after) : after.wire = m.wire ++ streamOf commands := by
  have sends : Ends (writecooks commands) m (fun _ after => after.wire = m.wire ++ streamOf commands)
      (fun _ _ => True) := by
    clear run
    induction commands generalizing m with
    | nil => simp [writecooks, streamOf]
    | cons command commands ih =>
      simp only [writecooks, ends_bind, ends_modify]
      refine (writecook_ends _ command.now command.addr command.seq command.payload _ rfl).mono ?_
        (fun _ _ _ => trivial)
      intro value middle holds
      obtain ⟨_, _, wired⟩ := holds
      have wire : middle.wire = m.wire ++
          (padding command.lead ++ command.frame ++ padding command.trail) := by
        rw [wired.kept]
        rfl
      refine (ih middle).mono ?_ (fun _ _ _ => trivial)
      intro _ after sent
      rw [sent, wire, streamOf, streamOf, List.flatMap_cons, List.append_assoc]
  exact sends.of_ok run

private theorem seq_bits : ∀ seq : Fin 4,
    ((UInt8.ofInt (seq.val : Int) ||| 0x04) &&& 0x03).toNat = seq.val := by
  decide

theorem returned_of_front (command : Command) (buffer : Bytes) (low : 0 ≤ command.seq)
    (high : command.seq ≤ 3) (front : buffer.take command.frame.length = command.frame) :
    Returned command (command.payload.length + 5, buffer) := by
  have length : command.frame.length = command.payload.length + 7 := encode_length _ _ _
  have byte (i : Nat) (inside : i < command.frame.length) :
      buffer.getD i 0 = command.frame.getD i 0 := getD_of_take inside front
  refine ⟨rfl, ?_, ?_, ?_⟩
  · rw [byte 1 (by omega)]
    exact addrOf_encode command.addr command.seq command.payload
  · have ctrl : command.frame.getD 4 0 = UInt8.ofInt command.seq ||| 0x04 :=
      ctrlOf_encode command.addr command.seq command.payload
    rw [byte 4 (by omega), ctrl]
    obtain ⟨seq, seq_eq⟩ := Int.eq_ofNat_of_zero_le low
    rw [seq_eq, seq_bits ⟨seq, by omega⟩]
  · have inside := payload_encode command.addr command.seq command.payload
    change (command.frame.drop 5).take command.payload.length = command.payload at inside
    rw [← front, List.drop_take, List.take_take, Nat.min_eq_left (by omega)] at inside
    exact inside

theorem readcooks_row (commands : List Command) (m : Protocol) (clocks : List (Timespec × Timespec))
    (noise : Bytes) (wellFormed : ∀ command ∈ commands,
      0 ≤ command.seq ∧ command.seq ≤ 3 ∧ command.payload.length ≤ 259)
    (master : m.myAddr = 0xFF) (nonfatal : .error ∉ m.input) (quiet : chSOH ∉ noise)
    (stream : bytesOf m.input = noise ++ streamOf commands)
    (as_many : clocks.length = commands.length) (in_time : InTime clocks m) :
    ∃ results after, readcooks clocks m = .ok results after ∧
      List.Forall₂ Returned commands results ∧
      bytesOf after.input = if commands = [] then noise else lastTrail commands := by
  induction commands generalizing m clocks noise with
  | nil =>
    have no_clocks : clocks = [] := List.length_eq_zero_iff.mp as_many
    subst no_clocks
    exact ⟨[], m, rfl, .nil, by simpa [streamOf] using stream⟩
  | cons command commands ih =>
    obtain ⟨⟨now, stamp⟩, clocks, rfl⟩ : ∃ clock more, clocks = clock :: more := by
      cases clocks with
      | nil => cases as_many
      | cons clock more => exact ⟨clock, more, rfl⟩
    obtain ⟨low, high, short⟩ := wellFormed command List.mem_cons_self
    have around : bytesOf m.input = (noise ++ padding command.lead) ++
        (command.frame ++ (padding command.trail ++ streamOf commands)) := by
      rw [stream, streamOf, List.flatMap_cons]
      simp only [streamOf, List.append_assoc]
    have quiet' : chSOH ∉ noise ++ padding command.lead := by
      rw [List.mem_append, not_or]
      exact ⟨quiet, not_mem_padding command.lead⟩
    obtain ⟨value, after, run, returned⟩ := readcook_framed m now stamp master nonfatal quiet'
      (framed_encode command.addr command.seq command.payload short)
      (intact_encode command.addr command.seq command.payload) around
    simp only [InTime, run] at in_time
    obtain ⟨punctual, in_time'⟩ := in_time
    rcases returned with late | ⟨value_eq, front, rest, master', nonfatal'⟩
    · exact absurd late punctual
    · obtain ⟨results, final, more, all, left⟩ := ih after clocks (padding command.trail)
        (fun other member => wellFormed other (List.mem_cons_of_mem _ member)) master' nonfatal'
        (not_mem_padding _) rest (Nat.succ.inj as_many) in_time'
      have size : value = command.payload.length + 5 := by
        rw [value_eq, encode_length, trailerSize_encode]
        omega
      refine ⟨(value, after.inBuffer.bytes) :: results, final, ?_, .cons ?_ all, ?_⟩
      · rw [readcooks, bind_of_ok run]
        change (readcooks clocks >>= _) after = _
        rw [bind_of_ok more]
        rfl
      · rw [size]
        exact returned_of_front command after.inBuffer.bytes low high front
      · rw [left, if_neg (List.cons_ne_nil _ _)]
        cases commands with
        | nil => rfl
        | cons next commands => simp [lastTrail]

/-- The frames a row of `writecook` calls puts on an empty wire come back from as many calls of a
master's `readcook`, in order and whole, and leave only the last pad unread. -/
theorem readcooks_writecooks (commands : List Command) (sender sent m : Protocol)
    (clocks : List (Timespec × Timespec)) (wellFormed : ∀ command ∈ commands,
      0 ≤ command.seq ∧ command.seq ≤ 3 ∧ command.payload.length ≤ 259)
    (unused : sender.wire = []) (run : writecooks commands sender = .ok () sent)
    (master : m.myAddr = 0xFF) (nonfatal : .error ∉ m.input) (fed : bytesOf m.input = sent.wire)
    (as_many : clocks.length = commands.length) (in_time : InTime clocks m) :
    ∃ results after, readcooks clocks m = .ok results after ∧
      List.Forall₂ Returned commands results ∧ bytesOf after.input = lastTrail commands := by
  have stream := writecooks_wire commands sender sent run
  rw [unused, ← fed] at stream
  obtain ⟨results, after, reads, all, left⟩ := readcooks_row commands m clocks [] wellFormed master
    nonfatal (by simp) stream as_many in_time
  refine ⟨results, after, reads, all, ?_⟩
  rw [left]
  cases commands with
  | nil => rfl
  | cons command commands => rfl

instance decidableInTime : (clocks : List (Timespec × Timespec)) → (m : Protocol) → Decidable (InTime clocks m)
  | [], _ => isTrue trivial
  | (now, stamp) :: clocks, m => by
    unfold InTime
    cases readcook now stamp m with
    | ok value after =>
      have rest := decidableInTime clocks after
      exact inferInstanceAs (Decidable (_ ∧ _))
    | error stop after => exact isTrue trivial

/-- Two commands, the second with an SOH in its payload. -/
def pair : List Command :=
  [⟨⟨0, 0⟩, 1, 2, 5, 1, [0x60]⟩, ⟨⟨0, 0⟩, 0, 1, 0x85, 2, [0x53, 0x53]⟩]

def port : Protocol :=
  { Protocol.construct ⟨0, 0, 50000, 0, 0⟩ with output := [.accept 4, .eagain, .accept 20, .accept 20] }

theorem pair_sent : ∃ sent, writecooks pair port = .ok () sent ∧ sent.wire = streamOf pair := by
  obtain ⟨_, sent, run, wire⟩ := @exists_ok _ _ _ (writecooks pair) port
    (fun _ sent => sent.wire == streamOf pair) (by decide +kernel)
  exact ⟨sent, run, by simpa using wire⟩

def listener : Protocol :=
  { Protocol.construct ⟨0, 0, 50000, 0, 0⟩ with
    input := [.data ((streamOf pair).take 3), .eintr, .data ((streamOf pair).drop 3)] }

theorem readcooks_writecooks_pair :
    ∃ results after, readcooks [(⟨0, 0⟩, ⟨0, 0⟩), (⟨1, 0⟩, ⟨1, 0⟩)] listener = .ok results after ∧
      List.Forall₂ Returned pair results ∧ bytesOf after.input = [0xFF] := by
  obtain ⟨sent, run, wire⟩ := pair_sent
  have fed : bytesOf listener.input = sent.wire := by
    rw [wire]
    decide +kernel
  exact readcooks_writecooks pair port sent listener [(⟨0, 0⟩, ⟨0, 0⟩), (⟨1, 0⟩, ⟨1, 0⟩)] (by decide) rfl run
    rfl (by decide +kernel) fed rfl (by decide +kernel)

end Rows

end OsdpMaster.RoundTrip
