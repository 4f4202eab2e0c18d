import OsdpMaster.WriteSpec

/-!
What the port takes over several calls. `resend` relies on `m_out_buffer` and
`m_out_len` as `writecook` left them, and the public `write` on `m_out_buffer`
alone, whatever it is given.
-/

namespace OsdpMaster.PortWrites
open OsdpMaster.Protocol OsdpMaster.Lib.Program OsdpMaster.WriteSpec

section Resend

structure Ready (m : Protocol) (data : Bytes) : Prop where
  front : m.outBuffer.bytes.take data.length = data
  outLen : m.outLen.toNat = data.length

theorem Wired.ready {m after : Protocol} {data sent : Bytes} (wired : Wired m data sent after) :
    Ready after data := ⟨wired.front, wired.outLen⟩

theorem Ready.fits {m : Protocol} {data : Bytes} (ready : Ready m data) : data.length < 65536 := by
  have short := front_fits ready.front
  unfold SLAVE_BUFF_SIZE at short
  omega

theorem writeOut_ends {m : Protocol} {data : Bytes} (ready : Ready m data) :
    Ends (writeOut m.outLen.toNat) m
      (fun value after => value = data.length ∧ Ready after data ∧ after.wire = m.wire ++ data)
      (fun stop _ => Broken stop) := by
  have length_eq : (UInt16.ofNat data.length).toNat = data.length := UInt16.toNat_ofNat_of_lt' ready.fits
  have front := ready.front
  simp only [writeOut, ready.outLen, ends_bind, ends_modify]
  refine (outRange_ends (m := { m with outLen := UInt16.ofNat data.length }) front 0).mono ?_
    (fun _ _ => False.elim)
  intro given same holds
  obtain ⟨given_eq, rfl⟩ := holds
  rw [given_eq, List.drop_zero]
  apply (write_ends _ data (front_fits front)).mono
  · intro value after holds
    obtain ⟨value_eq, sent⟩ := holds
    unfold Sent at sent
    refine ⟨value_eq, ⟨?_, ?_⟩, ?_⟩
    · rw [sent]
      exact front
    · rw [sent]
      exact length_eq
    · rw [sent, front]
  · intro stop after holds
    exact holds.1

theorem resend_ends {m : Protocol} {data : Bytes} (ready : Ready m data) (now : Timespec) :
    Ends (resend now) m
      (fun _ after => Ready after data ∧ after.wire = m.wire ++ data)
      (fun stop _ => Broken stop) := by
  simp only [resend, ends_bind, ends_get]
  by_cases empty : m.outLen = 0
  · have nothing : data = [] := by
      rw [← List.length_eq_zero_iff, ← ready.outLen, empty]
      rfl
    rw [if_pos empty, ends_pure]
    refine ⟨ready, ?_⟩
    rw [nothing, List.append_nil]
  · rw [if_neg empty, ends_bind]
    refine (delaywait_ends m now).mono ?_ (fun _ _ => False.elim)
    intro _ waited waited_eq
    have outLen : waited.outLen = m.outLen := by rw [waited_eq]
    have buffer : waited.outBuffer = m.outBuffer := by rw [waited_eq]
    have wire : waited.wire = m.wire := by rw [waited_eq]
    have ready' : Ready waited data := ⟨by rw [buffer, ready.front], by rw [outLen, ready.outLen]⟩
    have ends := writeOut_ends ready'
    rw [outLen] at ends
    refine ends.mono ?_ (fun _ _ stopped => stopped)
    intro value after holds
    obtain ⟨_, again, sent⟩ := holds
    exact ⟨again, by rw [sent, wire]⟩

def resends : List Timespec → Proto Unit
  | [] => pure ()
  | now :: clocks => do
    let _ ← resend now
    resends clocks

theorem resends_ends {m : Protocol} {data : Bytes} (ready : Ready m data) (clocks : List Timespec) :
    Ends (resends clocks) m
      (fun _ after => Ready after data ∧
        after.wire = m.wire ++ (List.replicate clocks.length data).flatten)
      (fun stop _ => Broken stop) := by
  induction clocks generalizing m with
  | nil =>
    rw [resends, ends_pure]
    exact ⟨ready, by simp⟩
  | cons now clocks ih =>
    rw [resends, ends_bind]
    refine (resend_ends ready now).mono ?_ (fun _ _ stopped => stopped)
    intro _ middle holds
    obtain ⟨again, sent⟩ := holds
    refine (ih again).mono ?_ (fun _ _ stopped => stopped)
    intro _ after holds
    obtain ⟨last, more⟩ := holds
    refine ⟨last, ?_⟩
    rw [more, sent, List.length_cons, List.replicate_succ, List.flatten_cons, List.append_assoc]

/-- However often the last transmission is repeated, and whatever the writes find, each call puts the
pads and the frame that `writecook` built on the wire once and whole. -/
theorem resends_repeat (m first : Protocol) (now : Timespec) (addr seq value : Int) (payload data : Bytes)
    (data_eq : data = padding m.config.lead ++ encode addr seq payload ++ padding m.config.trail)
    (run : writecook now addr seq payload m = .ok value first) :
    (first.wire = m.wire ++ data ∧ first.outLen.toNat = data.length) ∧
      ∀ (clocks : List Timespec) (later : Protocol), resends clocks first = .ok () later →
        later.wire = first.wire ++ (List.replicate clocks.length data).flatten ∧
        later.outLen.toNat = data.length ∧
        ∀ (now' : Timespec) (value' : Int) (after : Protocol), resend now' later = .ok value' after →
          after.wire = later.wire ++ data ∧ after.outLen.toNat = data.length := by
  obtain ⟨_, _, wired⟩ := (writecook_ends m now addr seq payload data data_eq).of_ok run
  refine ⟨⟨by rw [wired.kept], wired.outLen⟩, ?_⟩
  intro clocks later repeated
  obtain ⟨ready, wire⟩ := (resends_ends (Wired.ready wired) clocks).of_ok repeated
  refine ⟨wire, ready.outLen, ?_⟩
  intro now' value' after again
  obtain ⟨ready', wire'⟩ := (resend_ends ready now').of_ok again
  exact ⟨wire', ready'.outLen⟩

def pieced : Protocol :=
  { Protocol.construct ⟨1, 1, 50000, 0, 0⟩ with
    output := [.accept 4, .eintr, .accept 0, .accept 20, .eagain, .accept 3, .accept 3, .accept 20] }

theorem pieced_runs : ∃ value first later, writecook ⟨0, 0⟩ 1 2 [5] pieced = .ok value first ∧
    resends [⟨1, 0⟩] first = .ok () later := by
  obtain ⟨_, later, both, _⟩ := @exists_ok _ _ _
    (writecook ⟨0, 0⟩ 1 2 [5] >>= fun _ => resends [⟨1, 0⟩]) pieced (fun _ _ => true) (by decide +kernel)
  obtain ⟨value, first, run, again⟩ := ok_of_bind both
  exact ⟨value, first, later, run, again⟩

theorem resends_repeat_pieces :
    ∃ value first later, writecook ⟨0, 0⟩ 1 2 [5] pieced = .ok value first ∧
      resends [⟨1, 0⟩] first = .ok () later ∧ later.outLen.toNat = 10 ∧
      later.wire = first.wire ++ [0xFF, 0x53, 1, 8, 0, 6, 5, 0xDB, 0x5A, 0xFF] := by
  obtain ⟨value, first, later, run, again⟩ := pieced_runs
  have data_eq : [0xFF, 0x53, 1, 8, 0, 6, 5, 0xDB, 0x5A, 0xFF] =
      padding pieced.config.lead ++ encode 1 2 [5] ++ padding pieced.config.trail := by decide +kernel
  obtain ⟨wire, outLen, _⟩ :=
    (resends_repeat pieced first ⟨0, 0⟩ 1 2 value [5] _ data_eq run).2 [⟨1, 0⟩] later again
  refine ⟨value, first, later, run, again, outLen, ?_⟩
  rw [wire]
  simp only [List.length_singleton, List.replicate_one, List.flatten_singleton]

end Resend

section Write

theorem sendAll_outside (m : Protocol) (size : Nat) (outside : SLAVE_BUFF_SIZE < size) :
    Ends (sendAll size) m (fun _ _ => False) (fun stop _ => Broken stop ∨ stop = .fault) := by
  apply ends_forever (fun offset _ => offset = 0)
  · intro offset s start
    subst start
    have more : 0 < size := by omega
    have no_room : ¬0 + (size - 0) ≤ SLAVE_BUFF_SIZE := by omega
    simp only [if_pos more, ends_bind, ends_pure, sendSome, ends_get]
    cases outcomes : s.output with
    | nil => exact Or.inl (Or.inl rfl)
    | cons outcome rest =>
      have used : rest.length < (outcome :: rest).length := Nat.lt_succ_self _
      cases outcome with
      | eintr => exact ⟨rfl, used⟩
      | eagain => exact ⟨rfl, used⟩
      | error => exact Or.inl (Or.inr rfl)
      | accept taken =>
        simp only [if_neg no_room]
        exact Or.inr rfl
  · rfl

/-- The bytes given to `write` go into the log, and those of `m_out_buffer` to the port: a call that
returns has sent what it was given exactly if that is what `m_out_buffer` starts with, and a call with
more bytes than the array has does not return. -/
theorem write_sends_iff (m : Protocol) (data : Bytes) :
    Ends (write data) m
      (fun value after => value = data.length ∧ after.logged = m.logged ++ [data] ∧
        (after.wire = m.wire ++ data ↔ m.outBuffer.bytes.take data.length = data))
      (fun stop _ => Broken stop ∨ stop = .fault ∧ m.outBuffer.bytes.take data.length ≠ data) := by
  by_cases room : data.length ≤ SLAVE_BUFF_SIZE
  · apply (write_ends m data room).mono
    · intro value after holds
      obtain ⟨value_eq, sent⟩ := holds
      unfold Sent at sent
      refine ⟨value_eq, by rw [sent], ?_⟩
      rw [sent]
      exact List.append_right_inj m.wire
    · intro stop after holds
      exact Or.inl holds.1
  · have differs : m.outBuffer.bytes.take data.length ≠ data := fun front => room (front_fits front)
    simp only [write, ends_bind, ends_modify, ends_pure]
    apply (sendAll_outside _ data.length (by omega)).mono
    · intro _ _ impossible
      exact impossible.elim
    · intro stop _ stopped
      rcases stopped with broken | faulted
      · exact Or.inl broken
      · exact Or.inr ⟨faulted, differs⟩

theorem write_sends_other :
    ¬∀ (m : Protocol) (data : Bytes) (value : Int) (after : Protocol), .error ∉ m.output →
      write data m = .ok value after → after.wire = m.wire ++ data := by
  intro always
  have wire := always { Protocol.construct ⟨0, 0, 50000, 0, 0⟩ with output := [.accept 1] } [0xC0] 1
    { Protocol.construct ⟨0, 0, 50000, 0, 0⟩ with wire := [0], logged := [[0xC0]] } (by decide) rfl
  exact absurd wire (by decide)

end Write

end OsdpMaster.PortWrites
