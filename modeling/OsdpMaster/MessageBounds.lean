import OsdpMaster.QueueHistory
import OsdpMaster.RoundTrip

/-!
From the message that came in to the frame in `m_out_buffer`: nothing on the way
bounds its length, so whether the frame fits is a question of its length and the
pads alone.
-/

namespace OsdpMaster.MessageBounds
open OsdpMaster.Protocol OsdpMaster.Slave OsdpMaster.SlavePoll OsdpMaster.SlaveRun OsdpMaster.CallHistory
open OsdpMaster.QueueHistory OsdpMaster.FrameSpec OsdpMaster.WriteSpec OsdpMaster.RoundTrip
open OsdpMaster.Bus OsdpMaster.Split OsdpMaster.Lib.Program OsdpMaster.Lib.Trace

/-- The frame stands behind the leading pads, and its two length bytes are right. -/
structure Enveloped (config : SerialConfig) (addr seq : Int) (payload buffer : Bytes) : Prop where
  frame : buffer.take (config.lead.toNat + (encode addr seq payload).length) =
    padding config.lead ++ encode addr seq payload
  size : leWord (buffer.getD (config.lead.toNat + 2) 0) (buffer.getD (config.lead.toNat + 3) 0) =
    (encode addr seq payload).length

/-- However it ends, the call stores inside `m_out_buffer` and leaves the frame there. -/
def WritesInside (m : Protocol) (now : Timespec) (addr seq : Int) (payload : Bytes) : Prop :=
  Ends (writecook now addr seq payload) m
    (fun _ after => Enveloped m.config addr seq payload after.outBuffer.bytes)
    (fun stop after => stop ≠ .fault ∧ Enveloped m.config addr seq payload after.outBuffer.bytes)

section Frame

variable {config : SerialConfig} {addr seq : Int} {payload buffer : Bytes}

theorem enveloped_of_front
    (front : buffer.take (transmission config addr seq payload).length = transmission config addr seq payload)
    (fits : payload.length + 7 < 65536) : Enveloped config addr seq payload buffer := by
  have split : buffer = padding config.lead ++ (encode addr seq payload ++
      (padding config.trail ++ buffer.drop (transmission config addr seq payload).length)) := by
    conv_lhs => rw [← List.take_append_drop (transmission config addr seq payload).length buffer, front]
    simp only [transmission, List.append_assoc]
  refine ⟨?_, ?_⟩
  · rw [split, ← List.append_assoc (padding config.lead)]
    exact List.take_left' (by rw [List.length_append, padding_length])
  · have five : sizeofCommon ≤ (encode addr seq payload).length := by
      rw [encode_length]
      unfold sizeofCommon
      omega
    rw [split, ← padding_length config.lead, getD_append_right, getD_append_right]
    have total := declared_append (encode addr seq payload)
      (padding config.trail ++ buffer.drop (transmission config addr seq payload).length) five
    rw [declared_encode addr seq payload fits, ← encode_length addr seq payload] at total
    exact total

theorem writesInside_iff (m : Protocol) (now : Timespec) :
    WritesInside m now addr seq payload ↔
      m.config.lead.toNat + (payload.length + 7) + m.config.trail.toNat ≤ SLAVE_BUFF_SIZE := by
  have ends := writecook_ends m now addr seq payload _ rfl
  rw [← transmission_length m.config addr seq payload]
  have long_frame := transmission_length m.config addr seq payload
  constructor
  · intro inside
    cases run : writecook now addr seq payload m with
    | ok value after => exact (ends.of_ok run).2.1
    | error stop after =>
      rcases ends.of_error run with ⟨fault, _⟩ | ⟨_, fits, _⟩
      · exact absurd fault (inside.of_error run).1
      · exact fits
  · intro fits
    have short : payload.length + 7 < 65536 := by
      unfold SLAVE_BUFF_SIZE at fits
      omega
    apply ends.mono
    · intro value after ⟨_, _, wired⟩
      exact enveloped_of_front wired.front short
    · intro stop after stopped
      rcases stopped with ⟨_, long⟩ | ⟨broken, _, offset, wired⟩
      · omega
      · refine ⟨?_, enveloped_of_front wired.front short⟩
        rcases broken with blocked | failed
        · rw [blocked]
          exact Stop.noConfusion
        · rw [failed]
          exact Stop.noConfusion

end Frame

theorem queued_arrived {text : Bytes} {p : Poll} {history : List Event} (ledger : Ledger text p history)
    {message : Bytes} (queued : message ∈ p.slave.msglist) : message ∈ arrivals history := by
  rw [← ledger.balance]
  exact List.mem_append_right _ queued

/-- In every run, a message that `slave_poll` is about to hand to `writecook` came in while its slave
was enabled, and the call stays inside `m_out_buffer` and writes the right length exactly if the
frame with its pads is not longer than the buffer. -/
theorem queued_message_fits (config : SerialConfig) (texts : List Bytes) (i : Nat) (text : Bytes)
    (configured : texts[i]? = some text) (master : Master) (history : List (Nat × Event))
    (run : Run (bus config texts) free master history) (payload : Bytes)
    (sending : master.position = .transmit payload true) (selected : master.pollSlave = i) :
    payload ∈ arrivals (eventsOf i history) ∧
      ∃ slave, master.slaves[i]? = some slave ∧ ∀ (now : Timespec) (output : List WriteOutcome),
        (WritesInside { master.port with output := output } now slave.addr.toNat slave.txseq.toNat payload ↔
          config.lead.toNat + (payload.length + 7) + config.trail.toNat ≤ SLAVE_BUFF_SIZE) := by
  obtain ⟨p, follows, slaveRun⟩ := run_slave configured run
  have here : p.position = .transmit payload true := by
    rw [follows.position, if_pos selected, sending]
  have standing := standing_run slaveRun
  simp only [Standing, here] at standing
  refine ⟨?_, p.slave, follows.slave, ?_⟩
  · exact queued_arrived (ledger_run slaveRun) (List.mem_of_mem_head? standing.2.2)
  · intro now output
    have configured : master.port.config = config := congrArg Prod.fst follows.settings
    rw [← configured]
    exact writesInside_iff { master.port with output := output } now

def handing (message : Bytes) : List Action :=
  polls 8 ⟨0, 0⟩ [.data ackReply] ++ .message (ascii "osdp/bus1/outgoing/5") message :: polls 5 ⟨0, 0⟩ []

theorem queued_message_fits_short :
    ∃ master history slave, Run (bus plainPort [ascii "5"]) free master history ∧
      master.position = .transmit [OSDP_POLL, 7] true ∧ master.slaves[0]? = some slave ∧
      WritesInside { master.port with output := [] } ⟨0, 0⟩ slave.addr.toNat slave.txseq.toNat
        [OSDP_POLL, 7] := by
  have checked : (replay (bus plainPort [ascii "5"]) free (bus plainPort [ascii "5"]).start
      (bus plainPort [ascii "5"]).startup (handing [OSDP_POLL, 7])).any (fun reached =>
        reached.1.position == .transmit [OSDP_POLL, 7] true && reached.1.pollSlave == 0) = true := by
    decide +kernel
  obtain ⟨master, history, run, reached⟩ := exists_run checked
  simp only [Bool.and_eq_true, beq_iff_eq] at reached
  obtain ⟨_, slave, there, fits⟩ :=
    queued_message_fits plainPort [ascii "5"] 0 (ascii "5") rfl master history run _ reached.1 reached.2
  exact ⟨master, history, slave, run, reached.1, there, (fits _ _).mpr (by decide)⟩

/-- A message of 265 bytes is queued like any other, and its frame is one byte too long. -/
theorem queued_message_overruns :
    ¬∀ (master : Master) (history : List (Nat × Event)) (payload : Bytes) (slave : OsdpSlave),
      Run (bus plainPort [ascii "5"]) free master history → master.position = .transmit payload true →
      payload ∈ arrivals (eventsOf 0 history) → master.slaves[0]? = some slave →
      ∀ (now : Timespec) (output : List WriteOutcome),
        WritesInside { master.port with output := output } now slave.addr.toNat slave.txseq.toNat payload := by
  intro always
  have checked : (replay (bus plainPort [ascii "5"]) free (bus plainPort [ascii "5"]).start
      (bus plainPort [ascii "5"]).startup (handing (List.replicate 265 0))).any (fun reached =>
        reached.1.position == .transmit (List.replicate 265 0) true &&
        arrivals (eventsOf 0 reached.2) == [List.replicate 265 0] &&
        reached.1.slaves.length == 1 && reached.1.port.config == plainPort) = true := by
    decide +kernel
  obtain ⟨master, history, run, reached⟩ := exists_run checked
  simp only [Bool.and_eq_true, beq_iff_eq] at reached
  obtain ⟨⟨⟨sending, arrived⟩, one⟩, port⟩ := reached
  obtain ⟨slave, slaves⟩ := List.length_eq_one_iff.mp one
  have inside := always master history _ slave run sending (by rw [arrived]; exact List.mem_singleton_self _)
    (by rw [slaves]; rfl) ⟨0, 0⟩ []
  have fits := (writesInside_iff { master.port with output := [] } ⟨0, 0⟩).mp inside
  rw [port, List.length_replicate] at fits
  exact absurd fits (by decide)

end OsdpMaster.MessageBounds
