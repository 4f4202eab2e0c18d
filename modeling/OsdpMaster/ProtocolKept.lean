import OsdpMaster.ReadLaw
import OsdpMaster.ProtocolWrite

/-! No call of `readcook` or `writecook`, however it ends, changes the settings or the address of the
port. -/

namespace OsdpMaster.ProtocolKept
open OsdpMaster.Protocol OsdpMaster.Lib.Program

def settings (m : Protocol) : SerialConfig × UInt8 := (m.config, m.myAddr)

section Read

theorem readAgain_keeps (offset count : Nat) (room : offset + count ≤ SLAVE_BUFF_SIZE)
    (input : List ReadOutcome) (m : Protocol) :
    Ends (fun m => readAgain offset count room m input) m (fun _ after => settings after = settings m)
      (fun _ after => settings after = settings m) := by
  induction input generalizing m with
  | nil => rfl
  | cons outcome input ih =>
    cases outcome with
    | data bytes => rfl
    | eintr => exact ih m
    | eagain tick =>
      by_cases late : expired m.deadline tick = true
      · simp only [Ends, readAgain, if_pos late]
        rfl
      · simp only [Ends, readAgain, if_neg late]
        exact ih { m with waits := m.waits ++ [pollWait (pollTimer m.deadline tick)] }
    | error => rfl

theorem readSome_keeps (offset count : Nat) : Keeps settings (readSome offset count) := by
  intro m
  unfold readSome
  by_cases request : 0 < count ∧ offset + count ≤ SLAVE_BUFF_SIZE
  · simp only [Ends, dif_pos request]
    exact readAgain_keeps offset count request.2 m.input m
  · simp only [Ends, dif_neg request]

theorem settings_allows : ReadLaw.Allows (fun s after => settings after = settings s)
    (fun _ s after => settings after = settings s) where
  law := law_kept settings
  buffer _ _ := rfl
  own _ _ _ := rfl
  some := readSome_keeps

theorem readstamp_keeps (now : Timespec) : Keeps settings (readstamp now) := by
  apply keeps_modify
  intro m
  dsimp only
  split <;> rfl

theorem readcook_keeps (now stamp : Timespec) : Keeps settings (readcook now stamp) := by
  apply keeps_bind
  · exact keeps_modify fun _ => rfl
  intro _
  apply keeps_bind
  · apply keeps_tryCatch
    · exact settings_allows.readFrame
    · intro stop
      cases stop with
      | code value => exact keeps_pure value
      | exception message => exact keeps_throw _
      | blocked => exact keeps_throw _
      | fault => exact keeps_throw _
  · intro _
    exact keeps_bind (readstamp_keeps _) fun _ => keeps_pure _

end Read

section Write

theorem putAll_keeps (out : Nat) (data : Bytes) : Keeps settings (putAll out data) := by
  intro m
  simp only [putAll, ends_bind, ends_get]
  split <;> rfl

theorem pad_keeps (count : Int) (out : Nat) : Keeps settings (pad count out) := by
  have times (count : Nat) : ∀ out, Keeps settings (padTimes count out) := by
    induction count with
    | zero => exact fun out => keeps_pure out
    | succ count ih => exact fun out => keeps_bind (putAll_keeps _ _) ih
  exact times count.toNat out

theorem outRange_keeps (start out : Nat) : Keeps settings (outRange start out) :=
  keeps_bind keeps_get fun _ => keeps_ite (keeps_pure _) (keeps_throw _)

theorem sendSome_keeps (offset count : Nat) : Keeps settings (sendSome offset count) := by
  intro m
  simp only [sendSome, ends_bind, ends_get]
  split
  · rfl
  · rfl
  · rfl
  · rfl
  · split <;> rfl

theorem write_keeps (data : Bytes) : Keeps settings (write data) := by
  apply keeps_bind
  · exact keeps_modify fun _ => rfl
  intro _
  apply keeps_bind
  · apply keeps_forever
    intro offset
    exact keeps_ite (keeps_bind (sendSome_keeps _ _) fun _ => keeps_pure _) (keeps_pure _)
  · exact fun _ => keeps_pure _

theorem delaywait_keeps (now : Timespec) : Keeps settings (delaywait now) :=
  keeps_bind keeps_get fun _ => keeps_ite (readstamp_keeps now) (keeps_pure _)

theorem writecook_keeps (now : Timespec) (addr seq : Int) (payload : Bytes) :
    Keeps settings (writecook now addr seq payload) := by
  apply keeps_bind keeps_get
  intro m
  apply keeps_bind (pad_keeps _ _)
  intro postpad
  apply keeps_bind (putAll_keeps _ _)
  intro _
  apply keeps_bind (putAll_keeps _ _)
  intro _
  apply keeps_bind (putAll_keeps _ _)
  intro _
  apply keeps_bind (putAll_keeps _ _)
  intro _
  apply keeps_bind (putAll_keeps _ _)
  intro _
  apply keeps_bind (keeps_ite (putAll_keeps _ _) (keeps_pure _))
  intro _
  apply keeps_bind (outRange_keeps _ _)
  intro _
  apply keeps_bind (putAll_keeps _ _)
  intro _
  apply keeps_bind (putAll_keeps _ _)
  intro _
  apply keeps_bind (pad_keeps _ _)
  intro _
  apply keeps_bind (delaywait_keeps _)
  intro _
  apply keeps_bind
  · exact keeps_modify fun _ => rfl
  intro _
  apply keeps_bind keeps_get
  intro _
  exact keeps_bind (outRange_keeps _ _) fun _ => write_keeps _

end Write

end OsdpMaster.ProtocolKept
