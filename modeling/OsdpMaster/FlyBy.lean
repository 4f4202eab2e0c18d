import OsdpMaster.ReadRefinement

/-!
A frame for another station: the check that `flyby` adds up chunk by chunk and
the one check of the direct path come to the same verdict on the same bytes.
-/

namespace OsdpMaster.FlyBy
open OsdpMaster.Protocol OsdpMaster.Lib.Program OsdpMaster.ReadInput OsdpMaster.FrameSpec OsdpMaster.ReadRefinement

/-- A frame that starts with an SOH and is as long as it declares, and not shorter than its own header
and trailer. `readeof` may not admit it. -/
structure Whole (frame : Bytes) : Prop where
  soh : frame.head? = some chSOH
  size : frame.length = declared frame
  fits : sizeofCommon + trailerSize frame ≤ declared frame

/-- The parser of a station that lets the frame pass takes it whole. -/
theorem Whole.parse_eq {frame : Bytes} (whole : Whole frame) {noise : Bytes} (quiet : chSOH ∉ noise)
    {me : UInt8} (passes : passesBy me (addrOf frame) = true) (rest : Bytes) :
    parse me (noise ++ (frame ++ rest)) =
      some ⟨if intact frame then PROTO_ERR_FLYBY else PROTO_ERR_CRC, frame, rest⟩ := by
  have size := whole.size
  have fits := whole.fits
  have found := found_take quiet whole.soh (by omega)
  have split := List.take_append_drop sizeofCommon frame
  generalize frame.take sizeofCommon = header at found split
  have five := found.length
  have passes' : passesBy me (addrOf header) = true := by
    rw [← split, addrOf_append header _ (by omega)] at passes
    exact passes
  have total : passingBody header + trailerSize header = frame.length := by
    rw [size]
    have body : passingBody header = passingBody frame := by
      rw [← split, passingBody_append header _ (by omega)]
    have trailer : trailerSize header = trailerSize frame := by
      rw [← split, trailerSize_append header _ (by omega)]
    rw [body, trailer, passingBody]
    omega
  have count : sizeofCommon + (frame.drop sizeofCommon).length = passingBody header + trailerSize header := by
    rw [List.length_drop]
    omega
  have parts : noise ++ (frame ++ rest) = noise ++ (header ++ (frame.drop sizeofCommon ++ rest)) := by
    rw [← List.append_assoc header, split]
  rw [parts, found.parse_eq, if_pos passes', passing_whole five _ _ count, split]

theorem passesBy_of_ne {me addr : UInt8} (station : me ≠ 0xFF) (other : addr ≠ me) (config : addr ≠ 0x7D)
    (broadcast : addr ≠ 0x7F) : passesBy me addr = true := by
  simp [passesBy, station, other, config, broadcast]

/-- A station lets the frame of another pass, takes exactly its bytes and returns the verdict of its
trailer. A master that `readeof` lets read the same bytes takes the same and reaches the same
verdict. No read of 0 bytes may stand in place of the checksum byte. -/
theorem readcook_passes (m : Protocol) (now stamp : Timespec) (noise frame rest : Bytes)
    (station : m.myAddr ≠ 0xFF)
    (foreign : addrOf frame ≠ m.myAddr ∧ addrOf frame ≠ 0x7D ∧ addrOf frame ≠ 0x7F)
    (whole : Whole frame) (silent : chSOH ∉ noise) (stream : bytesOf m.input = noise ++ (frame ++ rest))
    (quiet : ∀ outcome ∈ m.input, Quiet (deadlineFrom now m.config.timeout) outcome)
    (full : Dry (fun bytes => ¬awaitsChecksum m.myAddr bytes) (marksOf m.input)) :
    passesBy m.myAddr (addrOf frame) = true ∧
    (∃ after, readcook now stamp m = .ok (if intact frame then PROTO_ERR_FLYBY else PROTO_ERR_CRC) after ∧
      bytesOf after.input = rest) ∧
    (admits (declared frame) = true → ∀ (master : Protocol) (now' stamp' : Timespec),
      master.myAddr = 0xFF → bytesOf master.input = bytesOf m.input →
      (∀ outcome ∈ master.input, Quiet (deadlineFrom now' master.config.timeout) outcome) →
      ∃ after, readcook now' stamp' master =
          .ok (if intact frame then (frame.length : Int) - trailerSize frame else PROTO_ERR_CRC) after ∧
        bytesOf after.input = rest) := by
  have passes := passesBy_of_ne station foreign.1 foreign.2.1 foreign.2.2
  refine ⟨passes, ?_, ?_⟩
  · have settles := readcook_settles m now stamp quiet full
    rw [stream, whole.parse_eq silent passes rest] at settles
    obtain ⟨after, run, rest_eq, _⟩ := settles
    exact ⟨after, run, rest_eq⟩
  · intro admitted master now' stamp' master_eq same quiet'
    have framed : Framed frame := ⟨whole.soh, whole.size, admitted⟩
    have settles := readcook_quiet master now' stamp' master_eq quiet'
    rw [same, stream, ← parse_master, framed.parse_eq silent (passesBy_master _)] at settles
    obtain ⟨after, run, _, rest_eq⟩ := settles
    exact ⟨after, run, rest_eq⟩

/-- Reads that split what they are given meet the last condition. -/
theorem dry_of_split {input : List ReadOutcome} (split : ∀ bytes, .data bytes ∈ input → bytes ≠ [])
    (Z : Bytes → Prop) : Dry Z (marksOf input) := by
  have no_mark : none ∉ marksOf input := by
    induction input with
    | nil => simp [marksOf]
    | cons outcome input ih =>
      have later := ih (fun bytes member => split bytes (List.mem_cons_of_mem _ member))
      cases outcome with
      | data bytes =>
        have some_bytes := split bytes List.mem_cons_self
        rw [marksOf_data, taken, if_neg some_bytes]
        simp [later]
      | eintr => exact later
      | eagain tick => exact later
      | error => exact later
  intro before after marks_eq
  exact absurd (by simp [marks_eq]) no_mark

def passingPieces : List ReadOutcome :=
  [.data [1, 0x53, 0x85], .eintr, .data [7, 0], .eagain ⟨0, 0⟩, .data [0, 0x40, 0x1F, 0x53]]

theorem readcook_passes_pieces :
    ∃ after, readcook ⟨0, 0⟩ ⟨0, 0⟩
        { Protocol.construct ⟨0, 0, 1000, 0, 0⟩ with myAddr := 9, input := passingPieces } =
          .ok PROTO_ERR_FLYBY after ∧ bytesOf after.input = [0x53] := by
  have whole : Whole [0x53, 0x85, 7, 0, 0, 0x40, 0x1F] := ⟨by decide, by decide, by decide⟩
  have full : Dry (fun bytes => ¬awaitsChecksum 9 bytes) (marksOf passingPieces) := by
    apply dry_of_split
    simp [passingPieces]
  have passes := readcook_passes
    { Protocol.construct ⟨0, 0, 1000, 0, 0⟩ with myAddr := 9, input := passingPieces } ⟨0, 0⟩ ⟨0, 0⟩
    [1] [0x53, 0x85, 7, 0, 0, 0x40, 0x1F] [0x53] (by decide) (by decide) whole (by decide)
    (by decide +kernel) (by decide +kernel) full
  exact passes.2.1

end OsdpMaster.FlyBy
