import OsdpMaster.ProtocolRead
import Mathlib.Data.List.TakeWhile

/-!
What the receive path is for, on a whole byte stream at once: the frame from the
first SOH on, cut at its declared length, and the verdict of its check. The
reads, their sizes and their errors do not appear here.
-/

namespace OsdpMaster.FrameSpec
open OsdpMaster.Protocol OsdpMaster.Crc16

def fromSoh (stream : Bytes) : Bytes := stream.dropWhile (· != chSOH)

def addrOf (frame : Bytes) : UInt8 := frame.getD 1 0

def declared (frame : Bytes) : Nat := leWord (frame.getD 2 0) (frame.getD 3 0)

def ctrlOf (frame : Bytes) : UInt8 := frame.getD 4 0

def trailerSize (frame : Bytes) : Nat := if hasCrc (ctrlOf frame) then 2 else 1

def covered (frame : Bytes) : Bytes := frame.take (frame.length - trailerSize frame)

/-- The trailer matches the CRC or byte sum of all bytes before it. -/
def intact (frame : Bytes) : Bool :=
  if hasCrc (ctrlOf frame) then
    crcWord (frame.getD (frame.length - 2) 0) (frame.getD (frame.length - 1) 0) ==
      crc16Digest (crc16Add crc16Prepare (covered frame))
  else checksumAdd 0 (covered frame) == frame.getD (frame.length - 1) 0

/-- The lengths `readeof` goes on to read. -/
def admits (total : Nat) : Bool := decide (5 < total ∧ total ≤ SLAVE_BUFF_SIZE - sizeofCommon)

/-- What a call leaves: its value, the bytes it took from the SOH on, the bytes after them. -/
structure Parsed where
  result : Int
  frame : Bytes
  rest : Bytes
  deriving DecidableEq

def direct (body : Bytes) : Option Parsed :=
  let total := declared body
  if admits total then
    if body.length < total then none
    else
      let frame := body.take total
      some ⟨if intact frame then total - trailerSize body else PROTO_ERR_CRC, frame, body.drop total⟩
  else some ⟨PROTO_ERR_OVERFLOW, body.take sizeofCommon, body.drop sizeofCommon⟩

/-- The length of a passing frame without its trailer; the header is read before it is known. -/
def passingBody (body : Bytes) : Nat := max sizeofCommon (declared body - trailerSize body)

def passing (body : Bytes) : Option Parsed :=
  let total := passingBody body + trailerSize body
  if body.length < total then none
  else
    let frame := body.take total
    some ⟨if intact frame then PROTO_ERR_FLYBY else PROTO_ERR_CRC, frame, body.drop total⟩

/-- One call of the station with address `me` on a whole stream; `none` if the stream ends first. -/
def parse (me : UInt8) (stream : Bytes) : Option Parsed :=
  let body := fromSoh stream
  if body.length < sizeofCommon then none
  else if passesBy me (addrOf body) then passing body
  else direct body

/-- The parser of a master, which sees all addresses. -/
def parseMaster (stream : Bytes) : Option Parsed :=
  let body := fromSoh stream
  if body.length < sizeofCommon then none else direct body

theorem parse_master (stream : Bytes) : parse 0xFF stream = parseMaster stream := by
  simp [parse, parseMaster, passesBy]

/-- Another station's frame has come in up to its one checksum byte. -/
def awaitsChecksum (me : UInt8) (stream : Bytes) : Prop :=
  let body := fromSoh stream
  sizeofCommon ≤ body.length ∧ passesBy me (addrOf body) = true ∧ hasCrc (ctrlOf body) = false ∧
    body.length = passingBody body

instance (me : UInt8) (stream : Bytes) : Decidable (awaitsChecksum me stream) :=
  inferInstanceAs (Decidable (_ ∧ _))

section Prefixes

theorem fromSoh_noise (noise : Bytes) (quiet : chSOH ∉ noise) (tail : Bytes) :
    fromSoh (noise ++ tail) = fromSoh tail := by
  induction noise with
  | nil => rfl
  | cons byte noise ih =>
    simp only [List.mem_cons, not_or] at quiet
    have skipped : (byte != chSOH) = true := by simpa using Ne.symm quiet.1
    simp only [fromSoh, List.cons_append, List.dropWhile_cons, skipped, if_true] at ih ⊢
    exact ih quiet.2

theorem fromSoh_soh (tail : Bytes) : fromSoh (chSOH :: tail) = chSOH :: tail := by
  simp [fromSoh]

theorem fromSoh_of_noise (noise : Bytes) (quiet : chSOH ∉ noise) : fromSoh noise = [] := by
  have none_left := fromSoh_noise noise quiet []
  simpa [fromSoh] using none_left

theorem split_noise (stream : Bytes) : ∃ noise, chSOH ∉ noise ∧ stream = noise ++ fromSoh stream := by
  refine ⟨stream.takeWhile (· != chSOH), ?_, List.takeWhile_append_dropWhile.symm⟩
  intro member
  have skipped := List.mem_takeWhile_imp member
  simp at skipped

theorem head_fromSoh {stream : Bytes} (found : fromSoh stream ≠ []) :
    (fromSoh stream).head? = some chSOH := by
  have first := List.head?_dropWhile_not (· != chSOH) stream
  cases body : fromSoh stream with
  | nil => exact absurd body found
  | cons byte body' =>
    rw [← fromSoh, body] at first
    simpa using first

theorem getD_append_left (front tail : Bytes) (i : Nat) (inside : i < front.length) :
    (front ++ tail).getD i 0 = front.getD i 0 := by
  simp [List.getD_eq_getElem?_getD, List.getElem?_append_left inside]

theorem declared_append (front tail : Bytes) (header : sizeofCommon ≤ front.length) :
    declared (front ++ tail) = declared front := by
  unfold sizeofCommon at header
  simp only [declared, getD_append_left front tail 2 (by omega), getD_append_left front tail 3 (by omega)]

theorem addrOf_append (front tail : Bytes) (header : sizeofCommon ≤ front.length) :
    addrOf (front ++ tail) = addrOf front := by
  unfold sizeofCommon at header
  exact getD_append_left front tail 1 (by omega)

theorem ctrlOf_append (front tail : Bytes) (header : sizeofCommon ≤ front.length) :
    ctrlOf (front ++ tail) = ctrlOf front := by
  unfold sizeofCommon at header
  exact getD_append_left front tail 4 (by omega)

theorem trailerSize_append (front tail : Bytes) (header : sizeofCommon ≤ front.length) :
    trailerSize (front ++ tail) = trailerSize front := by
  rw [trailerSize, trailerSize, ctrlOf_append front tail header]

theorem passingBody_append (front tail : Bytes) (header : sizeofCommon ≤ front.length) :
    passingBody (front ++ tail) = passingBody front := by
  rw [passingBody, passingBody, declared_append front tail header, trailerSize_append front tail header]

theorem getD_append_right (front tail : Bytes) (i : Nat) :
    (front ++ tail).getD (front.length + i) 0 = tail.getD i 0 := by
  simp [List.getD_eq_getElem?_getD, List.getElem?_append_right]

theorem intact_append_crc (body trailer : Bytes) (header : sizeofCommon ≤ body.length)
    (crc : hasCrc (ctrlOf body) = true) (two : trailer.length = 2) :
    intact (body ++ trailer) =
      (crcWord (trailer.getD 0 0) (trailer.getD 1 0) == crc16Digest (crc16Add crc16Prepare body)) := by
  have crc' : hasCrc (ctrlOf (body ++ trailer)) = true := by rw [ctrlOf_append body trailer header, crc]
  have before : (body ++ trailer).length - 2 = body.length + 0 := by
    rw [List.length_append, two]
    omega
  have last : (body ++ trailer).length - 1 = body.length + 1 := by
    rw [List.length_append, two]
    omega
  rw [intact, if_pos crc', covered, trailerSize, if_pos crc', before, last, getD_append_right,
    getD_append_right, Nat.add_zero, List.take_left]

theorem intact_append_sum (body trailer : Bytes) (header : sizeofCommon ≤ body.length)
    (sum : hasCrc (ctrlOf body) = false) (one : trailer.length = 1) :
    intact (body ++ trailer) = (checksumAdd 0 body == trailer.getD 0 0) := by
  have sum' : hasCrc (ctrlOf (body ++ trailer)) = false := by rw [ctrlOf_append body trailer header, sum]
  have last : (body ++ trailer).length - 1 = body.length + 0 := by
    rw [List.length_append, one]
    omega
  rw [intact, sum', if_neg Bool.false_ne_true, covered, trailerSize, sum', if_neg Bool.false_ne_true,
    last, getD_append_right, Nat.add_zero, List.take_left]

end Prefixes

section Parse

structure Found (noise header : Bytes) : Prop where
  quiet : chSOH ∉ noise
  length : header.length = sizeofCommon
  starts : header.head? = some chSOH

theorem Found.fromSoh_eq {noise header : Bytes} (found : Found noise header) (tail : Bytes) :
    fromSoh (noise ++ (header ++ tail)) = header ++ tail := by
  rw [fromSoh_noise noise found.quiet]
  have starts := found.starts
  cases header with
  | nil => simp at starts
  | cons byte header =>
    simp only [List.head?_cons, Option.some.injEq] at starts
    rw [starts, List.cons_append, fromSoh_soh]

theorem Found.header_le {noise header : Bytes} (found : Found noise header) (tail : Bytes) :
    sizeofCommon ≤ (header ++ tail).length := by
  rw [List.length_append, found.length]
  omega

theorem Found.parse_eq {noise header : Bytes} (found : Found noise header) (me : UInt8) (tail : Bytes) :
    parse me (noise ++ (header ++ tail)) =
      if passesBy me (addrOf header) = true then passing (header ++ tail) else direct (header ++ tail) := by
  have long : ¬(header ++ tail).length < sizeofCommon := Nat.not_lt.mpr (found.header_le tail)
  simp only [parse, found.fromSoh_eq tail, if_neg long]
  rw [addrOf_append header tail (by rw [found.length])]

theorem found_take {noise frame : Bytes} (quiet : chSOH ∉ noise) (soh : frame.head? = some chSOH)
    (long : sizeofCommon ≤ frame.length) : Found noise (frame.take sizeofCommon) where
  quiet := quiet
  length := by
    rw [List.length_take]
    omega
  starts := by rw [← soh, List.head?_take, if_neg (by decide)]

variable {header : Bytes} (length : header.length = sizeofCommon)

include length in
theorem direct_refused (refused : admits (declared header) = false) (tail : Bytes) :
    direct (header ++ tail) = some ⟨PROTO_ERR_OVERFLOW, header, tail⟩ := by
  simp only [direct, declared_append header tail (by omega), refused, Bool.false_eq_true, if_false,
    List.take_left' length, List.drop_left' length]

include length in
theorem direct_short (admitted : admits (declared header) = true) (tail : Bytes)
    (short : sizeofCommon + tail.length < declared header) : direct (header ++ tail) = none := by
  have few : (header ++ tail).length < declared header := by
    rw [List.length_append]
    omega
  simp only [direct, declared_append header tail (by omega), admitted, if_true, if_pos few]

include length in
theorem direct_whole (admitted : admits (declared header) = true) (body tail : Bytes)
    (whole : sizeofCommon + body.length = declared header) :
    direct (header ++ (body ++ tail)) =
      some ⟨if intact (header ++ body) = true then declared header - trailerSize header
        else PROTO_ERR_CRC, header ++ body, tail⟩ := by
  have size : (header ++ body).length = declared header := by
    rw [List.length_append]
    omega
  have enough : ¬(header ++ (body ++ tail)).length < declared header := by
    rw [List.length_append, List.length_append]
    omega
  simp only [direct, declared_append header (body ++ tail) (by omega), admitted, if_true, if_neg enough,
    trailerSize_append header (body ++ tail) (by omega)]
  rw [← List.append_assoc, List.take_left' size, List.drop_left' size]

include length in
theorem passing_short (tail : Bytes)
    (short : sizeofCommon + tail.length < passingBody header + trailerSize header) :
    passing (header ++ tail) = none := by
  have few : (header ++ tail).length < passingBody header + trailerSize header := by
    rw [List.length_append]
    omega
  simp only [passing, passingBody_append header tail (by omega), trailerSize_append header tail (by omega),
    if_pos few]

include length in
theorem passing_whole (body tail : Bytes)
    (whole : sizeofCommon + body.length = passingBody header + trailerSize header) :
    passing (header ++ (body ++ tail)) =
      some ⟨if intact (header ++ body) = true then PROTO_ERR_FLYBY else PROTO_ERR_CRC,
        header ++ body, tail⟩ := by
  have size : (header ++ body).length = passingBody header + trailerSize header := by
    rw [List.length_append]
    omega
  have enough : ¬(header ++ (body ++ tail)).length < passingBody header + trailerSize header := by
    rw [List.length_append, List.length_append]
    omega
  simp only [passing, passingBody_append header (body ++ tail) (by omega),
    trailerSize_append header (body ++ tail) (by omega), if_neg enough]
  rw [← List.append_assoc, List.take_left' size, List.drop_left' size]

theorem Found.awaitsChecksum_iff {noise : Bytes} (found : Found noise header) (me : UInt8) (tail : Bytes) :
    awaitsChecksum me (noise ++ (header ++ tail)) ↔
      passesBy me (addrOf header) = true ∧ hasCrc (ctrlOf header) = false ∧
        sizeofCommon + tail.length = passingBody header := by
  have five := found.length
  simp only [awaitsChecksum, found.fromSoh_eq tail, Nat.le_add_right, true_and,
    addrOf_append header tail (by omega), ctrlOf_append header tail (by omega),
    passingBody_append header tail (by omega), List.length_append, five]

end Parse

section Frames

/-- A frame as it stands in a stream: the SOH first, and as many bytes as it declares. -/
structure Framed (frame : Bytes) : Prop where
  soh : frame.head? = some chSOH
  size : frame.length = declared frame
  admitted : admits (declared frame) = true

theorem Framed.long {frame : Bytes} (framed : Framed frame) : sizeofCommon < frame.length := by
  have admitted := framed.admitted
  simp only [admits, decide_eq_true_eq] at admitted
  rw [framed.size]
  exact admitted.1

/-- The parser takes a frame behind any noise whole. -/
theorem Framed.parse_eq {frame : Bytes} (framed : Framed frame) {noise : Bytes}
    (quiet : chSOH ∉ noise) {me : UInt8} (stays : passesBy me (addrOf frame) = false) (rest : Bytes) :
    parse me (noise ++ (frame ++ rest)) =
      some ⟨if intact frame then (frame.length : Int) - trailerSize frame else PROTO_ERR_CRC,
        frame, rest⟩ := by
  have long := framed.long
  have found := found_take quiet framed.soh (by omega)
  have split := List.take_append_drop sizeofCommon frame
  generalize frame.take sizeofCommon = header at found split
  have five := found.length
  have total : declared header = frame.length := by
    rw [framed.size, ← split, declared_append header _ (by omega)]
  have stays' : passesBy me (addrOf header) = false := by
    rw [← split, addrOf_append header _ (by omega)] at stays
    exact stays
  have trailer : trailerSize header = trailerSize frame := by
    rw [← split, trailerSize_append header _ (by omega)]
  have admitted : admits (declared header) = true := by rw [total, framed.size, framed.admitted]
  have whole : sizeofCommon + (frame.drop sizeofCommon).length = declared header := by
    rw [List.length_drop]
    omega
  have parts : noise ++ (frame ++ rest) = noise ++ (header ++ (frame.drop sizeofCommon ++ rest)) := by
    rw [← List.append_assoc header, split]
  rw [parts, found.parse_eq, stays', if_neg Bool.false_ne_true, direct_whole five admitted _ _ whole,
    split, total, trailer]

theorem direct_positive {body : Bytes} {p : Parsed} (starts : body.head? = some chSOH)
    (parsed : direct body = some p) (positive : 0 < p.result) :
    Framed p.frame ∧ intact p.frame = true ∧
      p.result = (p.frame.length : Int) - trailerSize p.frame ∧ body = p.frame ++ p.rest := by
  simp only [direct] at parsed
  split at parsed
  next admitted =>
    split at parsed
    · cases parsed
    next whole =>
      have long := admitted
      simp only [admits, decide_eq_true_eq] at long
      have size : (body.take (declared body)).length = declared body := by
        rw [List.length_take]
        omega
      have join := List.take_append_drop (declared body) body
      have head : (body.take (declared body)).head? = some chSOH := by
        rw [List.head?_take, if_neg (by omega), starts]
      have header : sizeofCommon ≤ (body.take (declared body)).length := by
        unfold sizeofCommon
        omega
      have total : declared (body.take (declared body)) = declared body := by
        rw [← declared_append _ (body.drop (declared body)) header, join]
      have trailer : trailerSize (body.take (declared body)) = trailerSize body := by
        rw [← trailerSize_append _ (body.drop (declared body)) header, join]
      cases parsed
      by_cases sound : intact (body.take (declared body)) = true
      · simp only [if_pos sound]
        refine ⟨⟨head, by rw [size, total], by rw [total, admitted]⟩, sound, ?_, join.symm⟩
        rw [size, trailer]
      · simp only [if_neg sound, PROTO_ERR_CRC] at positive
        omega
  next refused =>
    cases parsed
    simp only [PROTO_ERR_OVERFLOW] at positive
    omega

/-- A positive value means a frame that is whole and intact, at the first SOH of the stream. -/
theorem parse_positive {me : UInt8} {stream : Bytes} {p : Parsed} (parsed : parse me stream = some p)
    (positive : 0 < p.result) :
    Framed p.frame ∧ intact p.frame = true ∧ passesBy me (addrOf p.frame) = false ∧
      p.result = (p.frame.length : Int) - trailerSize p.frame ∧
      fromSoh stream = p.frame ++ p.rest := by
  simp only [parse] at parsed
  split at parsed
  · cases parsed
  next enough =>
    split at parsed
    · -- a frame that passes by is never worth a size
      simp only [passing] at parsed
      split at parsed
      · cases parsed
      · cases parsed
        simp only [PROTO_ERR_FLYBY, PROTO_ERR_CRC] at positive
        split at positive <;> omega
    next stays =>
      have found : fromSoh stream ≠ [] := by
        intro empty
        rw [empty] at enough
        exact enough (by decide)
      obtain ⟨framed, sound, result, split⟩ := direct_positive (head_fromSoh found) parsed positive
      have long := framed.long
      refine ⟨framed, sound, ?_, result, split⟩
      rw [split, addrOf_append _ _ (by omega)] at stays
      simpa using stays

end Frames

end OsdpMaster.FrameSpec
