import OsdpMaster.QueueHistory
import OsdpMaster.RoundTrip
import OsdpMaster.Routing

/-!
The three uses of a configured address. `add_slave` keeps 8 bits of it, the wire
and the filter of `slave_poll` 7, and `message_callback` compares all of them; the
value 0xFF stands for no address at all.
-/

namespace OsdpMaster.Addresses
open OsdpMaster.Protocol OsdpMaster.Slave OsdpMaster.SlavePoll OsdpMaster.Split OsdpMaster.Bus OsdpMaster.Routing
open OsdpMaster.FrameSpec OsdpMaster.WriteSpec OsdpMaster.Lib.Trace

structure Agree (text : Bytes) : Prop where
  /-- A reply with the address byte that went out, with or without the reply bit, is not taken for
  another slave's. -/
  heard : ∀ (p : Poll) (size : Int) (sendmsg : Bool) (seq : Int) (payload : Bytes),
    defined (addSlave text) = true → p.slave.addr = (addSlave text).addr →
    (inByte p.port 1 = addrOf (encode p.slave.addr.toNat seq payload) ∨
      inByte p.port 1 = addrOf (encode p.slave.addr.toNat seq payload) ||| 0x80) →
    ∀ p' events, reply p size sendmsg = some (p', events) → .ended .wrongAddress ∉ events
  /-- A message to the topic with this text reaches a slave with this address, which queues it if it is
  enabled. -/
  routed : ∀ (master : Master) (payload : Bytes), (∃ slave ∈ master.slaves, slave.addr = (addSlave text).addr) →
    ∃ (i : Nat) (slave : OsdpSlave) (master' : Master) (events : List (Nat × Event)),
      master.slaves[i]? = some slave ∧ slave.addr.toNat = numeral text ∧
      messageCallback master (outgoing ++ 0x2F :: text) payload = some (master', events) ∧
      (slave.enabled = true → master'.slaves[i]? = some (push slave payload))

theorem addr_command (addr : UInt8) (seq : Int) (payload : Bytes) :
    addrOf (encode addr.toNat seq payload) = addr &&& 0x7F := by
  rw [RoundTrip.addrOf_encode, ofInt_toNat]

theorem mask_reply (addr : UInt8) : (addr &&& 0x7F) &&& 0x7F = addr &&& 0x7F ∧
    ((addr &&& 0x7F) ||| 0x80) &&& 0x7F = addr &&& 0x7F := by
  have all : ∀ addr : Fin 256, (UInt8.ofNat addr &&& 0x7F) &&& 0x7F = UInt8.ofNat addr &&& 0x7F ∧
      ((UInt8.ofNat addr &&& 0x7F) ||| 0x80) &&& 0x7F = UInt8.ofNat addr &&& 0x7F := by decide +kernel
  simpa using all ⟨addr.toNat, addr.toNat_lt⟩

theorem mask_eq_iff (addr : UInt8) : addr &&& 0x7F = addr ↔ addr.toNat ≤ 127 := by
  have all : ∀ addr : Fin 256, UInt8.ofNat addr &&& 0x7F = UInt8.ofNat addr ↔ (UInt8.ofNat addr).toNat ≤ 127 := by
    decide +kernel
  simpa using all ⟨addr.toNat, addr.toNat_lt⟩

theorem addSlave_addr {text : Bytes} (digits : isNumeral text = true) :
    (addSlave text).addr.toNat = min (numeral text) ULONG_MAX % 256 := by
  have addr : (addSlave text).addr = UInt8.ofNat (strtoul text) := rfl
  rw [addr, strtoul_numeral digits]
  exact UInt8.toNat_ofNat'

section Heard

variable {p : Poll} {size : Int} {sendmsg : Bool}

theorem reply_own (own : inByte p.port 1 &&& 0x7F = p.slave.addr) {p' : Poll} {events : List Event}
    (replied : reply p size sendmsg = some (p', events)) : .ended .wrongAddress ∉ events := by
  simp only [reply, own, ne_eq, not_true, if_false] at replied
  split at replied
  · cases replied
    simp only [List.nil_append, List.mem_singleton]
    split <;> simp
  · cases replied
    simp

theorem reply_other (other : inByte p.port 1 &&& 0x7F ≠ p.slave.addr) :
    reply p size sendmsg = some ({ p with position := .idle }, [.ended .wrongAddress]) := by
  rw [reply, if_pos other]
  rfl

end Heard

/-- A call in which the reply came with this address byte. -/
def answered (slave : OsdpSlave) (byte : UInt8) : Poll :=
  ⟨slave, { Protocol.construct plainPort with
    inBuffer := store Buffer.zero 0 [chSOH, byte] (show 0 + 2 ≤ SLAVE_BUFF_SIZE by decide) }, 0, 0, .reply 6 false⟩

theorem inByte_answered (slave : OsdpSlave) (byte : UInt8) : inByte (answered slave byte).port 1 = byte := rfl

theorem defined_addSlave (text : Bytes) : defined (addSlave text) = true ↔ (addSlave text).addr ≠ 0xFF := by
  have unnamed : memZero (addSlave text).uuid = true := by
    change memZero (List.replicate 16 0) = true
    decide
  rw [defined, unnamed]
  simp

theorem Agree.low {text : Bytes} (agree : Agree text) :
    (addSlave text).addr.toNat ≤ 127 ∨ (addSlave text).addr = 0xFF := by
  by_cases none_set : (addSlave text).addr = 0xFF
  · exact Or.inr none_set
  · refine Or.inl ((mask_eq_iff _).mp ?_)
    by_contra wide
    have byte := inByte_answered (addSlave text) ((addSlave text).addr &&& 0x7F)
    have other : inByte (answered (addSlave text) ((addSlave text).addr &&& 0x7F)).port 1 &&& 0x7F ≠
        (addSlave text).addr := by
      rw [byte, (mask_reply _).1]
      exact wide
    refine agree.heard (answered (addSlave text) ((addSlave text).addr &&& 0x7F)) 6 false 0 []
      ((defined_addSlave text).mpr none_set) rfl (Or.inl ?_) _ _ (reply_other other) List.mem_cons_self
    rw [byte, addr_command]
    rfl

theorem Agree.small {text : Bytes} (agree : Agree text) : numeral text ≤ 255 := by
  obtain ⟨i, slave, _, _, _, same, _⟩ :=
    agree.routed (bus plainPort [text]).start [] ⟨addSlave text, List.mem_cons_self, rfl⟩
  have byte := slave.addr.toNat_lt
  omega

theorem components_numeral {text : Bytes} (digits : isNumeral text = true) :
    address text = text ∧ isControl (components text) = false ∧ text ≠ [] := by
  simp only [isNumeral, Bool.and_eq_true, bne_iff_ne, List.all_eq_true] at digits
  obtain ⟨some_text, all⟩ := digits
  have free : 0x2F ∉ text := by
    intro slash
    exact absurd (all _ slash) (by decide)
  refine ⟨?_, ?_, some_text⟩
  · refine List.takeWhile_eq_self_iff.mpr ?_
    intro digit member
    exact bne_iff_ne.mpr (fun same => free (same ▸ member))
  · rw [components, split_free free some_text]
    rfl

theorem routed_small {text : Bytes} (digits : isNumeral text = true) (small : numeral text ≤ 255)
    (master : Master) (payload : Bytes) (there : ∃ slave ∈ master.slaves, slave.addr = (addSlave text).addr) :
    ∃ (i : Nat) (slave : OsdpSlave) (master' : Master) (events : List (Nat × Event)),
      master.slaves[i]? = some slave ∧ slave.addr.toNat = numeral text ∧
      messageCallback master (outgoing ++ 0x2F :: text) payload = some (master', events) ∧
      (slave.enabled = true → master'.slaves[i]? = some (push slave payload)) := by
  obtain ⟨level, plain, some_text⟩ := components_numeral digits
  have value : strtoul (address text) = numeral text := by
    rw [level, strtoul_numeral digits]
    unfold ULONG_MAX
    omega
  have addr : (addSlave text).addr.toNat = numeral text := by
    rw [addSlave_addr digits]
    unfold ULONG_MAX
    omega
  obtain ⟨own, member, same⟩ := there
  cases found : master.slaves.findIdx? (fun slave => slave.addr.toNat = strtoul (address text)) with
  | none =>
    rw [List.findIdx?_eq_none_iff] at found
    have unknown := of_decide_eq_false (found own member)
    rw [same, addr, value] at unknown
    exact absurd rfl unknown
  | some i =>
    obtain ⟨slave, here, slave_addr, told⟩ := callback_known payload some_text found
    refine ⟨i, slave, _, _, here, slave_addr.trans value, told, ?_⟩
    intro enabled
    obtain ⟨bound, _⟩ := List.getElem?_eq_some_iff.mp here
    have queued : (deliver slave (components text) payload).1 = push slave payload := by
      simp only [deliver, messageForSlave, plain, enabled, Bool.false_eq_true, if_false, Bool.not_true]
    simp [bound, queued]

/-- The uses of a decimal address agree exactly if it fits 7 bits, or is the 255 that no slave is polled
with. -/
theorem agree_iff (text : Bytes) (digits : isNumeral text = true) :
    Agree text ↔ numeral text ≤ 127 ∨ numeral text = 255 := by
  have addr : numeral text ≤ 255 → (addSlave text).addr.toNat = numeral text := by
    intro small
    rw [addSlave_addr digits]
    unfold ULONG_MAX
    omega
  constructor
  · intro agree
    have same := addr agree.small
    rcases agree.low with low | none_set
    · exact Or.inl (same ▸ low)
    · rw [none_set] at same
      exact Or.inr same.symm
  · intro fits
    have small : numeral text ≤ 255 := by omega
    have same := addr small
    refine ⟨?_, routed_small digits small⟩
    intro p size sendmsg seq payload named addr_eq byte p' events replied
    have low : (addSlave text).addr.toNat ≤ 127 := by
      rcases fits with low | top
      · omega
      · rw [top] at same
        exact absurd (UInt8.toNat_inj.mp same) ((defined_addSlave text).mp named)
    have mask := (mask_eq_iff _).mpr low
    apply reply_own _ replied
    rw [addr_command, addr_eq] at byte
    obtain ⟨plain, flagged⟩ := mask_reply (addSlave text).addr
    rcases byte with plain_byte | flagged_byte
    · rw [plain_byte, plain, addr_eq, mask]
    · rw [flagged_byte, flagged, addr_eq, mask]

theorem run_addr (config : SerialConfig) (texts : List Bytes) (i : Nat) (text : Bytes)
    (configured : texts[i]? = some text) (master : Master) (history : List (Nat × Event))
    (run : Run (bus config texts) free master history) :
    ∃ slave, master.slaves[i]? = some slave ∧ slave.addr = (addSlave text).addr := by
  obtain ⟨p, follows, slaveRun⟩ := SlaveRun.run_slave configured run
  exact ⟨p.slave, follows.slave, (QueueHistory.ledger_run slaveRun).addr⟩

theorem agree_iff_five : Agree (ascii "5") := (agree_iff (ascii "5") (by decide)).mpr (Or.inl (by decide))

/-- The slave with the address 200 is polled, and its replies are taken for another's. -/
theorem agree_two_hundred : ¬∀ text, isNumeral text = true → Agree text := by
  intro always
  rcases (always (ascii "200") (by decide)).low with low | none_set
  · exact absurd low (by decide)
  · exact absurd none_set (by decide)

end OsdpMaster.Addresses
