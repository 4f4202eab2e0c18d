import OsdpMaster.ProtocolWrite

/-!
What `writecook` leaves in `m_out_buffer` and puts on the wire: a frame between
its pads, if all of it fits, and otherwise a store outside the buffer.
-/

namespace OsdpMaster.WriteSpec
open OsdpMaster.Protocol OsdpMaster.Lib.Program OsdpMaster.Crc16

def header (addr seq : Int) (fullsize : Nat) : Bytes :=
  [chSOH, UInt8.ofInt addr &&& 0x7F, UInt8.ofNat fullsize, UInt8.ofNat (fullsize >>> 8),
    UInt8.ofInt seq ||| 0x04]

theorem ofInt_toNat (byte : UInt8) : UInt8.ofInt byte.toNat = byte := by
  have small := byte.toNat_lt
  have same : ((byte.toNat : Int) % 2 ^ 8).toNat = byte.toNat := by omega
  rw [UInt8.ofInt, same, UInt8.ofNat_toNat]

def crcBytes (crc : UInt16) : Bytes := [crc.toUInt8, (crc >>> 8).toUInt8]

/-- The frame of a command, from the SOH to the CRC. -/
def encode (addr seq : Int) (payload : Bytes) : Bytes :=
  let body := header addr seq (payload.length + 7) ++ payload
  body ++ crcBytes (crc16Digest (crc16Add crc16Prepare body))

theorem encode_length (addr seq : Int) (payload : Bytes) :
    (encode addr seq payload).length = payload.length + 7 := by
  simp only [encode, header, crcBytes, List.length_append, List.length_cons, List.length_nil]
  omega

def padding (count : Int) : Bytes := List.replicate count.toNat 0xFF

@[simp] theorem padding_length (count : Int) : (padding count).length = count.toNat :=
  List.length_replicate

def transmission (config : SerialConfig) (addr seq : Int) (payload : Bytes) : Bytes :=
  padding config.lead ++ encode addr seq payload ++ padding config.trail

theorem transmission_length (config : SerialConfig) (addr seq : Int) (payload : Bytes) :
    (transmission config addr seq payload).length =
      config.lead.toNat + (payload.length + 7) + config.trail.toNat := by
  simp only [transmission, List.length_append, padding_length, encode_length]

section Stores

/-- From `m` to `after`, only `m_out_buffer` changed, and it starts with `written`. -/
structure Wrote (m : Protocol) (written : Bytes) (after : Protocol) : Prop where
  front : after.outBuffer.bytes.take written.length = written
  kept : after = { m with outBuffer := after.outBuffer }

theorem Wrote.start (m : Protocol) : Wrote m [] m where
  front := rfl
  kept := rfl

theorem front_fits {m : Protocol} {written : Bytes}
    (front : m.outBuffer.bytes.take written.length = written) : written.length ≤ SLAVE_BUFF_SIZE := by
  have length := congrArg List.length front
  rw [List.length_take, m.outBuffer.size] at length
  omega

theorem outRange_ends {m : Protocol} {written : Bytes}
    (front : m.outBuffer.bytes.take written.length = written) (start : Nat) :
    Ends (outRange start written.length) m (fun data after => data = written.drop start ∧ after = m)
      (fun _ _ => False) := by
  simp only [outRange, ends_bind, ends_get, if_pos (front_fits front), ends_pure, front, and_self]

variable {m s : Protocol} {written : Bytes} {Q : Int → Protocol → Prop} {E : Stop → Protocol → Prop}

theorem putAll_ends (wrote : Wrote m written s) (data : Bytes) :
    Ends (putAll written.length data) s
      (fun out after => out = (written ++ data).length ∧ Wrote m (written ++ data) after)
      (fun stop _ => stop = .fault ∧ SLAVE_BUFF_SIZE < (written ++ data).length) := by
  simp only [putAll, ends_bind, ends_get]
  by_cases fits : written.length + data.length ≤ SLAVE_BUFF_SIZE
  · rw [dif_pos fits]
    refine ⟨List.length_append.symm, ?_, ?_⟩
    · rw [List.length_append, take_store, wrote.front]
    · rw [wrote.kept]
  · rw [dif_neg fits, ends_throw, List.length_append]
    exact ⟨rfl, by omega⟩

/-- The rule for a store before the rest of a transmission of `total` bytes. -/
theorem Wrote.putAll_bind (wrote : Wrote m written s) (data : Bytes) {rest : Nat → Proto Int}
    {total : Nat} (overflow : SLAVE_BUFF_SIZE < total → ∀ after, E .fault after)
    (within : (written ++ data).length ≤ total)
    (goes_on : ∀ after, Wrote m (written ++ data) after → Ends (rest (written ++ data).length) after Q E) :
    Ends (putAll written.length data >>= rest) s Q E := by
  rw [ends_bind]
  apply (putAll_ends wrote data).mono
  · intro out after holds
    obtain ⟨rfl, wrote'⟩ := holds
    exact goes_on after wrote'
  · intro stop after holds
    obtain ⟨rfl, long⟩ := holds
    exact overflow (by omega) after

theorem padTimes_ends (wrote : Wrote m written s) (count : Nat) :
    Ends (padTimes count written.length) s
      (fun out after => out = (written ++ List.replicate count 0xFF).length ∧
        Wrote m (written ++ List.replicate count 0xFF) after)
      (fun stop _ => stop = .fault ∧
        SLAVE_BUFF_SIZE < (written ++ List.replicate count 0xFF).length) := by
  induction count generalizing written s with
  | zero => simpa [padTimes] using wrote
  | succ count ih =>
    have grows : written ++ List.replicate (count + 1) 0xFF =
        written ++ [0xFF] ++ List.replicate count 0xFF := by
      rw [List.replicate_succ, List.append_assoc]
      rfl
    simp only [padTimes, put, ends_bind, grows]
    apply (putAll_ends wrote [0xFF]).mono
    · intro out after holds
      obtain ⟨rfl, wrote'⟩ := holds
      exact ih wrote'
    · intro stop after holds
      obtain ⟨rfl, long⟩ := holds
      refine ⟨rfl, ?_⟩
      rw [List.length_append]
      omega

theorem Wrote.pad_bind (wrote : Wrote m written s) (count : Int) {rest : Nat → Proto Int}
    {total : Nat} (overflow : SLAVE_BUFF_SIZE < total → ∀ after, E .fault after)
    (within : (written ++ padding count).length ≤ total)
    (goes_on : ∀ after, Wrote m (written ++ padding count) after →
      Ends (rest (written ++ padding count).length) after Q E) :
    Ends (pad count written.length >>= rest) s Q E := by
  rw [ends_bind]
  apply (padTimes_ends wrote count.toNat).mono
  · intro out after holds
    obtain ⟨rfl, wrote'⟩ := holds
    exact goes_on after wrote'
  · intro stop after holds
    obtain ⟨rfl, long⟩ := holds
    exact overflow (Nat.lt_of_lt_of_le long within) after

end Stores

section Sending

/-- Sending changes the port alone: `sent` went out. -/
def Sent (m : Protocol) (sent : Bytes) (after : Protocol) : Prop :=
  after = { m with output := after.output, wire := m.wire ++ sent }

theorem Sent.refl (m : Protocol) : Sent m [] m := by
  simp [Sent]

theorem Sent.outBuffer {m after : Protocol} {sent : Bytes} (done : Sent m sent after) :
    after.outBuffer = m.outBuffer := by
  unfold Sent at done
  rw [done]

theorem Sent.trans {m middle after : Protocol} {first second : Bytes} (start : Sent m first middle)
    (rest : Sent middle second after) : Sent m (first ++ second) after := by
  unfold Sent at start rest ⊢
  rw [rest, start, List.append_assoc]

def Broken (stop : Stop) : Prop := stop = .blocked ∨ stop = .exception "write I/O error"

theorem sendSome_ends (m : Protocol) (offset count : Nat) (room : offset + count ≤ SLAVE_BUFF_SIZE) :
    Ends (sendSome offset count) m
      (fun i after => i ≤ count ∧ Sent m ((m.outBuffer.bytes.drop offset).take i) after ∧
        after.output.length < m.output.length)
      (fun stop after => Broken stop ∧ Sent m [] after) := by
  simp only [sendSome, ends_bind, ends_get]
  cases outcomes : m.output with
  | nil => exact ⟨Or.inl rfl, Sent.refl m⟩
  | cons outcome rest =>
    have used : rest.length < (outcome :: rest).length := Nat.lt_succ_self _
    cases outcome with
    | eintr => exact ⟨Nat.zero_le _, by simp [Sent], used⟩
    | eagain => exact ⟨Nat.zero_le _, by simp [Sent], used⟩
    | error => exact ⟨Or.inr rfl, by simp [Sent]⟩
    | accept taken =>
      have size := m.outBuffer.size
      have length : ((m.outBuffer.bytes.drop offset).take (min taken count)).length = min taken count := by
        rw [List.length_take, List.length_drop, size]
        omega
      simp only [if_pos room]
      refine ⟨by rw [length]; omega, ?_, used⟩
      rw [length]
      rfl

/-- `write` sends the first `size` bytes of `m_out_buffer`, or stops behind some of them. -/
theorem sendAll_ends (m : Protocol) (size : Nat) (room : size ≤ SLAVE_BUFF_SIZE) :
    Ends (sendAll size) m
      (fun value after => value = size ∧ Sent m (m.outBuffer.bytes.take size) after)
      (fun stop after => Broken stop ∧ ∃ offset, offset ≤ size ∧
        Sent m (m.outBuffer.bytes.take offset) after) := by
  apply ends_forever (fun offset s => offset ≤ size ∧ Sent m (m.outBuffer.bytes.take offset) s)
  · intro offset s holds
    obtain ⟨bounded, done⟩ := holds
    by_cases more : offset < size
    · simp only [if_pos more, ends_bind, ends_pure]
      apply (sendSome_ends s offset (size - offset) (by omega)).mono
      · intro i after holds
        obtain ⟨short, sent, used⟩ := holds
        refine ⟨⟨by omega, ?_⟩, used⟩
        rw [done.outBuffer] at sent
        rw [List.take_add]
        exact done.trans sent
      · intro stop after holds
        obtain ⟨broken, sent⟩ := holds
        refine ⟨broken, offset, bounded, ?_⟩
        simpa only [List.append_nil] using done.trans sent
    · have complete : offset = size := by omega
      simp only [if_neg more, ends_pure, true_and]
      exact complete ▸ done
  · exact ⟨Nat.zero_le _, Sent.refl m⟩

theorem write_ends (m : Protocol) (data : Bytes) (room : data.length ≤ SLAVE_BUFF_SIZE) :
    Ends (write data) m
      (fun value after => value = data.length ∧
        Sent { m with logged := m.logged ++ [data] } (m.outBuffer.bytes.take data.length) after)
      (fun stop after => Broken stop ∧ ∃ offset, offset ≤ data.length ∧
        Sent { m with logged := m.logged ++ [data] } (m.outBuffer.bytes.take offset) after) := by
  simp only [write, ends_bind, ends_modify, ends_pure]
  refine (sendAll_ends _ data.length room).mono ?_ (fun _ _ stopped => stopped)
  intro value after holds
  obtain ⟨rfl, sent⟩ := holds
  exact ⟨rfl, sent⟩

end Sending

section Writecook

theorem delaywait_ends (m : Protocol) (now : Timespec) :
    Ends (delaywait now) m (fun _ after => after = { m with nextWrite := after.nextWrite })
      (fun _ _ => False) := by
  simp only [delaywait, ends_bind, ends_get]
  split
  · simp only [readstamp, ends_modify]
    split <;> rfl
  · rfl

/-- `data` stands in `m_out_buffer` and was logged, and `sent` of it went out. -/
structure Wired (m : Protocol) (data sent : Bytes) (after : Protocol) : Prop where
  front : after.outBuffer.bytes.take data.length = data
  outLen : after.outLen.toNat = data.length
  kept : after = { m with
    outBuffer := after.outBuffer, outLen := after.outLen, nextWrite := after.nextWrite,
    output := after.output, wire := m.wire ++ sent, logged := m.logged ++ [data] }

theorem Wrote.putPayload_bind {m s : Protocol} {written : Bytes} {Q : Int → Protocol → Prop}
    {E : Stop → Protocol → Prop} (wrote : Wrote m written s) (payload : Bytes) {rest : Nat → Proto Int}
    {total : Nat} (overflow : SLAVE_BUFF_SIZE < total → ∀ after, E .fault after)
    (within : (written ++ payload).length ≤ total)
    (goes_on : ∀ after, Wrote m (written ++ payload) after →
      Ends (rest (written ++ payload).length) after Q E) :
    Ends (putPayload written.length payload >>= rest) s Q E := by
  unfold putPayload
  by_cases some_payload : payload.length > 0
  · rw [if_pos some_payload]
    exact wrote.putAll_bind payload overflow within goes_on
  · have empty : payload = [] := List.length_eq_zero_iff.mp (by omega)
    subst empty
    rw [List.append_nil] at goes_on
    rw [if_neg some_payload, pure_bind]
    exact goes_on s wrote

theorem writeReady_ends (m ready : Protocol) (data : Bytes) (outLen : ready.outLen.toNat = data.length)
    (front : ready.outBuffer.bytes.take data.length = data)
    (kept : ready = { m with
      outBuffer := ready.outBuffer, outLen := ready.outLen, nextWrite := ready.nextWrite }) :
    Ends (outRange 0 ready.outLen.toNat >>= write) ready
      (fun value after => value = data.length ∧ Wired m data data after)
      (fun stop after => Broken stop ∧ ∃ offset, Wired m data (data.take offset) after) := by
  have wired {sent : Bytes} {after : Protocol}
      (done : Sent { ready with logged := ready.logged ++ [data] } sent after) : Wired m data sent after := by
    unfold Sent at done
    refine ⟨by rw [done, front], by rw [done, outLen], ?_⟩
    rw [done, kept]
  rw [outLen, ends_bind]
  refine (outRange_ends front 0).mono ?_ (fun _ _ => False.elim)
  intro given same holds
  obtain ⟨given_eq, same_eq⟩ := holds
  rw [given_eq, List.drop_zero, same_eq]
  apply (write_ends ready data (front_fits front)).mono
  · intro value after holds
    obtain ⟨value_eq, sent⟩ := holds
    rw [front] at sent
    exact ⟨value_eq, wired sent⟩
  · intro stop after holds
    obtain ⟨broken, offset, short, sent⟩ := holds
    have part : data.take offset = ready.outBuffer.bytes.take offset := by
      conv_lhs => rw [← front]
      rw [List.take_take, Nat.min_eq_left short]
    exact ⟨broken, offset, wired (by rw [part]; exact sent)⟩

/-- `writecook` puts a whole transmission on the wire or stops behind a part of it; where it does
not fit `m_out_buffer`, it stores outside. -/
theorem writecook_ends (m : Protocol) (now : Timespec) (addr seq : Int) (payload : Bytes)
    (data : Bytes) (data_eq : data = transmission m.config addr seq payload) :
    Ends (writecook now addr seq payload) m
      (fun value after => value = data.length ∧ data.length ≤ SLAVE_BUFF_SIZE ∧ Wired m data data after)
      (fun stop after => stop = .fault ∧ SLAVE_BUFF_SIZE < data.length ∨
        Broken stop ∧ data.length ≤ SLAVE_BUFF_SIZE ∧ ∃ offset, Wired m data (data.take offset) after) := by
  have total : data.length = m.config.lead.toNat + (payload.length + 7) + m.config.trail.toNat := by
    rw [data_eq, transmission_length]
  have overflow : SLAVE_BUFF_SIZE < data.length → ∀ after : Protocol,
      (Stop.fault = .fault ∧ SLAVE_BUFF_SIZE < data.length ∨
        Broken .fault ∧ data.length ≤ SLAVE_BUFF_SIZE ∧ ∃ offset, Wired m data (data.take offset) after) :=
    fun long _ => Or.inl ⟨rfl, long⟩
  unfold writecook
  rw [ends_bind, ends_get]
  dsimp only
  refine (Wrote.start m).pad_bind m.config.lead overflow (by simp; omega) fun s wrote => ?_
  refine wrote.putAll_bind [chSOH] overflow (by simp; omega) fun s wrote => ?_
  refine wrote.putAll_bind [UInt8.ofInt addr &&& 0x7F] overflow (by simp; omega) fun s wrote => ?_
  refine wrote.putAll_bind [UInt8.ofNat (payload.length + 7)] overflow (by simp; omega) fun s wrote => ?_
  refine wrote.putAll_bind [UInt8.ofNat ((payload.length + 7) >>> 8)] overflow (by simp; omega)
    fun s wrote => ?_
  refine wrote.putAll_bind [UInt8.ofInt seq ||| 0x04] overflow (by simp; omega) fun s wrote => ?_
  refine wrote.putPayload_bind payload overflow (by simp; omega) fun s wrote => ?_
  rw [ends_bind]
  refine (outRange_ends wrote.front _).mono ?_ (fun _ _ => False.elim)
  intro body s' holds
  obtain ⟨body_eq, rfl⟩ := holds
  have body_eq' : body = header addr seq (payload.length + 7) ++ payload := by
    rw [body_eq]
    simp [header]
  subst body_eq'
  generalize crc_eq : crc16Digest (crc16Add crc16Prepare
    (header addr seq (payload.length + 7) ++ payload)) = crc
  refine wrote.putAll_bind [crc.toUInt8] overflow (by simp; omega) fun s wrote => ?_
  refine wrote.putAll_bind [(crc >>> 8).toUInt8] overflow (by simp; omega) fun s wrote => ?_
  refine wrote.pad_bind m.config.trail overflow (by simp; omega) fun s wrote => ?_
  have whole : data = [] ++ padding m.config.lead ++ [chSOH] ++ [UInt8.ofInt addr &&& 0x7F] ++
      [UInt8.ofNat (payload.length + 7)] ++ [UInt8.ofNat ((payload.length + 7) >>> 8)] ++
      [UInt8.ofInt seq ||| 0x04] ++ payload ++ [crc.toUInt8] ++ [(crc >>> 8).toUInt8] ++
      padding m.config.trail := by
    rw [data_eq, transmission, encode, crc_eq]
    simp [header, crcBytes]
  rw [← whole] at wrote ⊢
  have fits := front_fits wrote.front
  rw [ends_bind]
  refine (delaywait_ends s now).mono ?_ (fun _ _ => False.elim)
  intro _ waited waited_eq
  rw [ends_bind, ends_modify, ends_bind, ends_get]
  have length_eq : (UInt16.ofNat data.length).toNat = data.length := by
    unfold SLAVE_BUFF_SIZE at fits
    rw [UInt16.toNat_ofNat_of_lt']
    change data.length < 65536
    omega
  have outBuffer : waited.outBuffer = s.outBuffer := by rw [waited_eq]
  have ready := writeReady_ends m { waited with outLen := UInt16.ofNat data.length } data length_eq
    (by rw [outBuffer, wrote.front]) (by rw [waited_eq, wrote.kept])
  refine ready.mono ?_ ?_
  · intro value after holds
    obtain ⟨value_eq, wired⟩ := holds
    exact ⟨value_eq, fits, wired⟩
  · intro stop after holds
    obtain ⟨broken, offset, wired⟩ := holds
    exact Or.inr ⟨broken, fits, offset, wired⟩

end Writecook

end OsdpMaster.WriteSpec
