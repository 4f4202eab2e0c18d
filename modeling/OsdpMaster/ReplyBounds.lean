import OsdpMaster.CallHistory

/-!
What `slave_poll` takes from a reply, its code at offset 5 and the bytes it
publishes, against the bytes that the check of `readcook` covered.
-/

namespace OsdpMaster.ReplyBounds
open OsdpMaster.Protocol OsdpMaster.Slave OsdpMaster.SlavePoll OsdpMaster.SlaveRun OsdpMaster.CallHistory
open OsdpMaster.FrameSpec OsdpMaster.ReadInput OsdpMaster.Bus OsdpMaster.Lib.Trace OsdpMaster.Lib.Program

def frameOf (stream : Bytes) : Bytes := (fromSoh stream).take (declared (fromSoh stream))

/-- The reply has a code, the check covered it, and what is published of the reply is the checked
bytes from the code on. -/
structure Covers (stream : Bytes) (size : Int) (port : Protocol) : Prop where
  least : 6 ≤ size
  code : (covered (frameOf stream))[5]? = some (inByte port 5)
  payload : (incoming size port).payload = (covered (frameOf stream)).drop 5
  payloadlen : (incoming size port).payloadlen = (incoming size port).payload.length
  some_bytes : 0 < (incoming size port).payload.length

section Reply

variable {m after : Protocol} {now stamp : Timespec} {size : Int}

theorem checked_front (run : readcook now stamp m = .ok size after) (positive : 0 < size) :
    after.inBuffer.bytes.take size.toNat = covered (frameOf (bytesOf m.input)) ∧
      size = (declared (fromSoh (bytesOf m.input)) : Int) - trailerSize (fromSoh (bytesOf m.input)) ∧
      size.toNat ≤ SLAVE_BUFF_SIZE := by
  obtain ⟨noise, frame, quiet, framed, _, _, size_eq, stream, front⟩ :=
    ReadRefinement.readcook_positive run positive
  have long := framed.long
  have admitted := framed.admitted
  rw [← framed.size] at admitted
  simp only [admits, decide_eq_true_eq] at admitted
  have from_eq : fromSoh (bytesOf m.input) = frame ++ bytesOf after.input := by
    rw [stream, fromSoh_noise noise quiet]
    cases frame with
    | nil => cases framed.soh
    | cons first rest =>
      cases framed.soh
      exact fromSoh_soh _
  have declared_eq : declared (fromSoh (bytesOf m.input)) = frame.length := by
    rw [from_eq, declared_append _ _ (by omega), framed.size]
  have trailer_eq : trailerSize (fromSoh (bytesOf m.input)) = trailerSize frame := by
    rw [from_eq, trailerSize_append _ _ (by omega)]
  have frame_eq : frameOf (bytesOf m.input) = frame := by
    rw [frameOf, declared_eq, from_eq, List.take_left]
  refine ⟨?_, by rw [declared_eq, trailer_eq, size_eq], by omega⟩
  have shorter : size.toNat = min (frame.length - trailerSize frame) frame.length := by omega
  rw [frame_eq, covered, shorter, ← List.take_take, front]

theorem incoming_payload (size : Int) (port : Protocol) :
    (incoming size port).payload = (port.inBuffer.bytes.take size.toNat).drop 5 := by
  have count : (size - 5).toNat = size.toNat - 5 := by omega
  simp only [incoming, count, List.drop_take]

theorem covers_of_least (run : readcook now stamp m = .ok size after) (least : 6 ≤ size) :
    Covers (bytesOf m.input) size after := by
  obtain ⟨front, _, inside⟩ := checked_front run (by omega)
  have buffer := after.inBuffer.size
  have payload : (incoming size after).payload = (covered (frameOf (bytesOf m.input))).drop 5 := by
    rw [incoming_payload, front]
  have length : (incoming size after).payload.length = size.toNat - 5 := by
    rw [incoming_payload, List.length_drop, List.length_take, buffer]
    omega
  refine ⟨least, ?_, payload, ?_, by omega⟩
  · rw [← front, List.getElem?_take, if_pos (by omega), inByte]
    have five : 5 < after.inBuffer.bytes.length := by omega
    rw [List.getD_eq_getElem?_getD, List.getElem?_eq_getElem five, Option.getD_some]
  · rw [length]
    simp only [incoming]
    omega

end Reply

section Runs

/-- While `slave_poll` works a reply, size and buffer are those of a call of `readcook`. -/
def FromReply (p : Poll) : Prop :=
  match p.position with
  | .reply size _ | .pop size | .publish size =>
    ∃ m now stamp, readcook now stamp m = .ok size p.port ∧ 0 < size
  | _ => True

theorem fromReply_poll {p p' : Poll} {events : List Event} (stepped : PollStepped p p' events)
    (fromReply : FromReply p) : FromReply p' := by
  cases stepped with
  | received sendmsg here t size port run =>
    by_cases positive : size > 0
    · simp only [FromReply, if_pos positive]
      exact ⟨_, _, _, run, positive⟩
    · simp only [FromReply, if_neg positive]
  | accepted size sendmsg here addr willing =>
    simp only [FromReply, here] at fromReply
    cases sendmsg with
    | true => exact fromReply
    | false => exact fromReply
  | popped size here message rest queue =>
    simp only [FromReply, here] at fromReply
    exact fromReply
  | _ => trivial

theorem fromReply_run {config : SerialConfig} {text : Bytes} {ok : Poll → List Event → Move → Prop} {p : Poll}
    {history : List Event} (run : Run (slaveSystem config text) ok p history) : FromReply p := by
  apply slaveRun_invariant (I := fun p _ => FromReply p) _ _ _ _ run
  · trivial
  · intros
    trivial
  · intro p history t p' events _ _ stepped fromReply
    exact fromReply_poll (pollStep_stepped stepped) fromReply
  · intro p history components payload _ _ fromReply
    exact fromReply

theorem published_incoming {config : SerialConfig} {p p' : Poll} {events : List Event} {move : Move}
    (stepped : slaveStep config p move = some (p', events)) {publication : Publication}
    (published : .published publication ∈ events) (passing : publication.retain = false) :
    ∃ size, p.position = .publish size ∧ publication = incoming size p.port := by
  have not_retained (retained : publication.retain = true) : False := by
    rw [retained] at passing
    cases passing
  cases move with
  | call port crcCount timeoutCount =>
    simp only [slaveStep] at stepped
    split at stepped
    · cases stepped
      cases published
    · cases stepped
  | poll t =>
    cases pollStep_stepped stepped with
    | accepted size sendmsg here addr willing =>
      simp only [List.mem_cons, reduceCtorEq, List.mem_map, Event.published.injEq, exists_eq_right,
        false_or] at published
      exact (not_retained (ack_retained published)).elim
    | missed size here now =>
      simp only [List.mem_append, List.mem_map, Event.published.injEq, exists_eq_right, List.mem_singleton,
        reduceCtorEq, or_false] at published
      exact (not_retained (nak_retained published)).elim
    | handedOn size here news =>
      simp only [List.mem_cons, Event.published.injEq, reduceCtorEq, List.not_mem_nil, or_false] at published
      exact ⟨size, here, published⟩
    | _ => simp at published
  | message components payload =>
    cases stepped
    simp only [deliver, List.mem_append, List.mem_map, Event.published.injEq, exists_eq_right] at published
    rcases published with arrival | told
    · split at arrival
      · cases arrival
      · cases List.mem_singleton.mp arrival
    · exact (not_retained (messageForSlave_retained told)).elim

end Runs

/-- A positive size means a reply with a code that the check covered, and its publication is the
checked bytes from the code on, exactly if the frame declares at least one byte between header and
trailer; and every reply a run publishes is that of such a call. -/
theorem reply_covered (m : Protocol) (now stamp : Timespec) (after : Protocol) (size : Int)
    (run : readcook now stamp m = .ok size after) (positive : 0 < size) :
    (Covers (bytesOf m.input) size after ↔
      trailerSize (fromSoh (bytesOf m.input)) + 6 ≤ declared (fromSoh (bytesOf m.input))) ∧
    ∀ config texts i text master history, texts[i]? = some text →
      Run (bus config texts) free master history →
      ∀ action master' events publication, step master action = some (master', events) →
        (i, .published publication) ∈ events → publication.retain = false →
        ∃ m now stamp size, readcook now stamp m = .ok size master.port ∧ 0 < size ∧
          publication = incoming size master.port := by
  refine ⟨⟨?_, ?_⟩, ?_⟩
  · intro covers
    have least := covers.least
    obtain ⟨_, size_eq, _⟩ := checked_front run positive
    omega
  · intro long
    obtain ⟨_, size_eq, _⟩ := checked_front run positive
    exact covers_of_least run (by omega)
  · intro config texts i text master history configured run action master' events publication stepped
      published passing
    obtain ⟨p, follows, slaveRun⟩ := run_slave configured run
    rw [← mem_eventsOf] at published
    rcases step_follows follows stepped with ⟨quiet, _⟩ | ⟨p', move, _, _, moved⟩
    · rw [quiet] at published
      cases published
    · obtain ⟨size, here, publication_eq⟩ := published_incoming moved published passing
      have fromReply := fromReply_run slaveRun
      simp only [FromReply, here] at fromReply
      obtain ⟨port, _⟩ := follows.busy (by simp [here])
      obtain ⟨m, now, stamp, call, positive⟩ := fromReply
      rw [port] at call publication_eq
      exact ⟨m, now, stamp, size, call, positive, publication_eq⟩

def receiving (bytes : Bytes) : Protocol := { Protocol.construct plainPort with input := [.data bytes] }

/-- Only a header and its CRC: the reply code and the published bytes are not there. -/
theorem readcook_header_only :
    ¬∀ (m : Protocol) (now stamp : Timespec) (after : Protocol) (size : Int),
      readcook now stamp m = .ok size after → 0 < size → Covers (bytesOf m.input) size after := by
  intro always
  obtain ⟨size, after, run, checked⟩ := @exists_ok _ _ _ (readcook ⟨0, 0⟩ ⟨0, 0⟩)
    (receiving [0x53, 0x85, 7, 0, 4, 0x47, 0xAE]) (fun size _ => size == 5) (by decide +kernel)
  have five : size = 5 := by simpa using checked
  have covers := always _ _ _ _ _ run (by omega)
  have least := covers.least
  omega

theorem reply_covered_ack :
    ∃ size after, readcook ⟨0, 0⟩ ⟨0, 0⟩ (receiving ackReply) = .ok size after ∧
      Covers ackReply size after := by
  obtain ⟨size, after, run, checked⟩ := @exists_ok _ _ _ (readcook ⟨0, 0⟩ ⟨0, 0⟩) (receiving ackReply)
    (fun size _ => size == 6) (by decide +kernel)
  have six : size = 6 := by simpa using checked
  have same : bytesOf (receiving ackReply).input = ackReply := by decide
  have covered := (reply_covered (receiving ackReply) _ _ after size run (by omega)).1
  rw [same] at covered
  exact ⟨size, after, run, covered.mpr (by decide)⟩

end OsdpMaster.ReplyBounds
