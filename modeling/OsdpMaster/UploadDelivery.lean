import OsdpMaster.CommandDelivery
import OsdpMaster.Upload
import OsdpMaster.Lib.Assembly

/-!
An upload from the file to the device: what `filesend.py` publishes comes to the
master among other messages, and goes on to a slave that may miss frames, hear
them twice, and lose messages to a purge.
-/

namespace OsdpMaster.UploadDelivery
open OsdpMaster.Protocol OsdpMaster.SlaveRun OsdpMaster.Bus OsdpMaster.QueueHistory OsdpMaster.CommandDelivery
open OsdpMaster.Filesend OsdpMaster.Upload OsdpMaster.Lib.Assembly OsdpMaster.Lib.StopAndWait OsdpMaster.Lib.Trace

def isTransfer (message : Bytes) : Bool := message.head? == some 0x7C

def pieceOf (record : Bytes) : Piece UInt8 := ⟨offsetOf record, dataOf record⟩

/-- The file of a slave that has carried out these messages. -/
def fileAfter (performed : List Bytes) : Nat → Option UInt8 :=
  assemble ((performed.filter isTransfer).map pieceOf)

section Pieces

variable {image record : Bytes}

theorem isTransfer_of_carries (carries : Carries image record) : isTransfer record = true := by
  have kind := carries.kind
  cases record with
  | nil => cases kind
  | cons code rest =>
    have first : code = 0x7C := (List.cons.inj kind).1
    rw [first]
    rfl

theorem piece_of_carries (carries : Carries image record) : (pieceOf record).Of image := by
  have front := List.take_prefix (sizeOfFragment record) (image.drop (offsetOf record))
  rwa [← carries.data] at front

theorem covers_of_carries (carries : Carries image record) {place : Nat} (from_start : offsetOf record ≤ place)
    (to_end : place < offsetOf record + sizeOfFragment record) : (pieceOf record).Covers place := by
  have length : (dataOf record).length = sizeOfFragment record := by
    have within := carries.within
    rw [carries.data, List.length_take, List.length_drop]
    omega
  refine ⟨from_start, ?_⟩
  rwa [pieceOf, length]

end Pieces

section Uploads

variable {image : Bytes} {upload : State} {published : List Filesend.Event}

theorem carries_of_published (uploading : Run (filesend image) free upload published) {record : Bytes}
    (member : .published record ∈ published) : Carries image record := by
  obtain ⟨t, _, sends⟩ := upload_simulated uploading
  have sent : .sent record ∈ traffic published := List.mem_filterMap.mpr ⟨.published record, member, rfl⟩
  obtain ⟨before, after, split⟩ := List.append_of_mem sent
  exact (next_carries ((sender_told sends).proper before _ after split).1).1

/-- An upload that has returned has had an answer for every place of the image. -/
theorem answers_cover (uploading : Run (filesend image) free upload published)
    (returned : upload.upload.position = .ended .returned) {place : Nat} (inside : place < image.length) :
    ∃ record ∈ answers (traffic published), Carries image record ∧ (pieceOf record).Covers place := by
  obtain ⟨t, follows, sends⟩ := upload_simulated uploading
  have told := sender_told sends
  have whole : t.progress = image.length := (follows.stands returned rfl).1
  have reached : place < progress sizeOfFragment (traffic published) := by rw [← told.progress, whole]; exact inside
  have starts (n : Nat) (record : Bytes) (next : Next image n record) : offsetOf record = n := (next_carries next).2
  obtain ⟨record, member, from_start, to_end⟩ := answered_covers starts told.proper reached
  obtain ⟨event, seen, answer⟩ := List.mem_filterMap.mp member
  cases event with
  | sent message => cases answer
  | answered message =>
    cases answer
    obtain ⟨before, after, split⟩ := List.append_of_mem seen
    have carries := (next_carries (told.proper before _ after split).2).1
    exact ⟨record, member, carries, covers_of_carries carries from_start to_end⟩

end Uploads

section Deliveries

variable (image : Bytes) (upload : State) (published : List Filesend.Event) (config : SerialConfig)
  (texts : List Bytes) (i : Nat) (text : Bytes) (master : Master) (history : List (Nat × SlavePoll.Event))
  (heard : Nat → Bool) (last : UInt8)

theorem performed_pieces {image : Bytes} {upload : State} {published : List Filesend.Event}
    (uploading : Run (filesend image) free upload published) {performed came : List Bytes}
    (some_of : performed.Sublist came)
    (source : ∀ message ∈ came, isTransfer message = true → .published message ∈ published) :
    ∀ piece ∈ (performed.filter isTransfer).map pieceOf, piece.Of image := by
  intro piece member
  obtain ⟨record, kept, here⟩ := List.mem_map.mp member
  obtain ⟨carried, transfer⟩ := List.mem_filter.mp kept
  rw [← here]
  exact piece_of_carries (carries_of_published uploading (source record (some_of.subset carried) transfer))

/-- Whatever the master loses or repeats on the way, in every run in which all transfers to a slave come from one
upload, the slave never has a byte in its file that the image does not have there. -/
theorem upload_in_place (uploading : Run (filesend image) free upload published) (configured : texts[i]? = some text)
    (run : Run (bus config texts) free master history)
    (source : ∀ message ∈ arrivals (eventsOf i history), isTransfer message = true → .published message ∈ published)
    (place : Nat) (byte : UInt8)
    (held : fileAfter (deviceAfter heard last (eventsOf i history)).performed place = some byte) :
    image[place]? = some byte := by
  obtain ⟨p, _, slaveRun⟩ := run_slave configured run
  exact assemble_agrees (performed_pieces uploading (performed_run heard last slaveRun) source) held

end Deliveries

section Byte

def byteRecord : Bytes := [0x7C, 1, 1, 0, 0, 0, 0, 0, 0, 0, 1, 0, 0x41]

def ftstatReply : Bytes := [0x53, 0x85, 14, 0, 1, 0x7A, 0, 0, 0, 2, 0, 0, 0, 0x63]

def uploadByte : List Filesend.Action :=
  [.uploader, .uploader, .uploader, .timeout, .uploader, .uploader, .message (.device [0x7A, 0, 0, 0, 2, 0, 0, 0]),
    .set, .uploader, .uploader, .uploader]

def deliverByte : List Bus.Action :=
  polls 8 ⟨0, 0⟩ [.data ackReply] ++ .message (ascii "osdp/bus1/outgoing/5") byteRecord ::
    .message (ascii "osdp/bus1/outgoing/5") byteRecord ::
      (polls 10 ⟨0, 0⟩ [.data ftstatReply] ++ polls 10 ⟨0, 0⟩ [.data ftstatReply])

theorem uploaded_byte : ∃ upload published, Run (filesend [0x41]) free upload published ∧
    upload.upload.position = .ended .returned ∧ answers (traffic published) = [byteRecord] ∧
    .published byteRecord ∈ published := by
  have checked : (replay (filesend [0x41]) free (filesend [0x41]).start (filesend [0x41]).startup uploadByte).any
      (fun reached => reached.1.upload.position == .ended .returned &&
        answers (traffic reached.2) == [byteRecord] && decide (.published byteRecord ∈ reached.2)) = true := by
    decide +kernel
  obtain ⟨upload, published, run, reached⟩ := exists_run checked
  simp only [Bool.and_eq_true, beq_iff_eq, decide_eq_true_eq] at reached
  exact ⟨upload, published, run, reached.1.1, reached.1.2, reached.2⟩

theorem delivered_byte : ∃ master history, Run (bus plainPort [ascii "5"]) free master history ∧
    arrivals (eventsOf 0 history) = [byteRecord, byteRecord] ∧
    answered (eventsOf 0 history) = [byteRecord, byteRecord] ∧
    Always (Kept fun _ => true) (eventsOf 0 history) ∧
    fileAfter (deviceAfter (fun _ => true) 0 (eventsOf 0 history)).performed 0 = some 0x41 := by
  have checked : (replay (bus plainPort [ascii "5"]) free (bus plainPort [ascii "5"]).start
      (bus plainPort [ascii "5"]).startup deliverByte).any (fun reached =>
        arrivals (eventsOf 0 reached.2) == [byteRecord, byteRecord] &&
        answered (eventsOf 0 reached.2) == [byteRecord, byteRecord] &&
        decide (Always (Kept fun _ => true) (eventsOf 0 reached.2)) &&
        fileAfter (deviceAfter (fun _ => true) 0 (eventsOf 0 reached.2)).performed 0 == some 0x41) = true := by
    decide +kernel
  obtain ⟨master, history, run, reached⟩ := exists_run checked
  simp only [Bool.and_eq_true, beq_iff_eq, decide_eq_true_eq] at reached
  exact ⟨master, history, run, reached.1.1.1, reached.1.1.2, reached.1.2, reached.2⟩

theorem upload_in_place_byte : ∃ history : List (Nat × SlavePoll.Event),
    fileAfter (deviceAfter (fun _ => true) 0 (eventsOf 0 history)).performed 0 = some 0x41 ∧
      ([0x41] : Bytes)[0]? = some 0x41 := by
  obtain ⟨upload, published, uploading, _, _, sent⟩ := uploaded_byte
  obtain ⟨master, history, run, came, _, _, held⟩ := delivered_byte
  refine ⟨history, held, upload_in_place [0x41] upload published plainPort [ascii "5"] 0 (ascii "5") master history
    (fun _ => true) 0 uploading rfl run ?_ 0 0x41 held⟩
  intro message member _
  rw [came] at member
  have same : message = byteRecord := by simpa using member
  exact same ▸ sent

end Byte

end OsdpMaster.UploadDelivery
