import OsdpMaster.BusStep
import OsdpMaster.QueueHistory
import OsdpMaster.Retransmission
import OsdpMaster.RoundTrip
import OsdpMaster.SequenceNumbers

/-!
The wire over a whole run of the master. Each call of `writecook` adds its
transmission to what the port has taken, or a part of it where the port fails,
and no other step adds anything: the bytes on the bus are the frames of all
slaves in the order of the calls.
-/

namespace OsdpMaster.WireHistory
open OsdpMaster.Protocol OsdpMaster.Slave OsdpMaster.SlavePoll OsdpMaster.SlaveRun OsdpMaster.QueueHistory
open OsdpMaster.Retransmission OsdpMaster.SequenceNumbers OsdpMaster.WriteSpec OsdpMaster.RoundTrip
open OsdpMaster.ReadInput OsdpMaster.FrameSpec OsdpMaster.Bus OsdpMaster.BusStep OsdpMaster.Lib.Program
open OsdpMaster.RetryBound (current)
open OsdpMaster.Lib.Trace

section Reading

variable {τ : Type} {view : Protocol → τ}

def Unread (view : Protocol → τ) : Prop :=
  ∀ (m : Protocol) inBuffer input deadline nextWrite waits, view { m with
    inBuffer := inBuffer, input := input, deadline := deadline, nextWrite := nextWrite, waits := waits } = view m

theorem Unread.readAgain (unread : Unread view) (offset count : Nat) (room : offset + count ≤ SLAVE_BUFF_SIZE)
    (input : List ReadOutcome) (m : Protocol) :
    Ends (fun m => Protocol.readAgain offset count room m input) m (fun _ after => view after = view m)
      (fun _ after => view after = view m) := by
  have same (m : Protocol) (input : List ReadOutcome) : view { m with input := input } = view m :=
    unread m m.inBuffer input m.deadline m.nextWrite m.waits
  induction input generalizing m with
  | nil => exact same m []
  | cons outcome input ih =>
    cases outcome with
    | data bytes => exact unread m _ _ m.deadline m.nextWrite m.waits
    | eintr => exact ih m
    | eagain tick =>
      by_cases late : expired m.deadline tick = true
      · simp only [Ends, Protocol.readAgain, if_pos late]
        exact same m input
      · simp only [Ends, Protocol.readAgain, if_neg late]
        have waits : view { m with waits := m.waits ++ [pollWait (pollTimer m.deadline tick)] } = view m :=
          unread m m.inBuffer m.input m.deadline m.nextWrite _
        exact waits ▸ ih { m with waits := m.waits ++ [pollWait (pollTimer m.deadline tick)] }
    | error => exact same m input

theorem Unread.readSome (unread : Unread view) (offset count : Nat) : Keeps view (Protocol.readSome offset count) := by
  intro m
  unfold Protocol.readSome
  by_cases request : 0 < count ∧ offset + count ≤ SLAVE_BUFF_SIZE
  · simp only [Ends, dif_pos request]
    exact unread.readAgain offset count request.2 m.input m
  · simp only [Ends, dif_neg request]

theorem Unread.allows (unread : Unread view) : ReadLaw.Allows (fun s after => view after = view s)
    (fun _ s after => view after = view s) where
  law := law_kept view
  buffer m buffer := unread m buffer m.input m.deadline m.nextWrite m.waits
  own _ _ _ := rfl
  some := unread.readSome

theorem Unread.readcook (unread : Unread view) (now stamp : Timespec) : Keeps view (Protocol.readcook now stamp) := by
  apply keeps_bind
  · exact keeps_modify fun m => unread m m.inBuffer m.input _ m.nextWrite m.waits
  intro _
  apply keeps_bind
  · apply keeps_tryCatch unread.allows.readFrame
    intro stop
    cases stop with
    | code value => exact keeps_pure value
    | exception message => exact keeps_throw _
    | blocked => exact keeps_throw _
    | fault => exact keeps_throw _
  · intro _
    refine keeps_bind (keeps_modify fun m => ?_) fun _ => keeps_pure _
    dsimp only
    split
    · exact unread m m.inBuffer m.input m.deadline _ m.waits
    · exact unread m m.inBuffer m.input m.deadline _ m.waits

end Reading

def transmitted (m : Protocol) : Bytes × List Bytes := (m.wire, m.logged)

theorem unread_transmitted : Unread transmitted := fun _ _ _ _ _ _ => rfl

def image (config : SerialConfig) (addr : UInt8) (sent : Sent) : Bytes :=
  transmission config addr.toNat sent.seq.toNat sent.payload

def framesOf (events : List Event) : List Sent := events.filterMap sentBy

@[simp] theorem framesOf_append (first second : List Event) :
    framesOf (first ++ second) = framesOf first ++ framesOf second := List.filterMap_append

@[simp] theorem framesOf_published (publications : List Publication) :
    framesOf (publications.map .published) = [] := by
  simp [framesOf, sentBy]

def threw : Event → Bool
  | .ended (.exception _) => true
  | _ => false

/-- From `m` to `after`, the frames were logged, and the port took a part of each, or all of it. -/
structure Carries (images : List Bytes) (broken : Bool) (m after : Protocol) : Prop where
  logged : after.logged = m.logged ++ images
  wire : ∃ pieces, after.wire = m.wire ++ pieces.flatten ∧
    List.Forall₂ (fun piece whole => piece <+: whole) pieces images ∧ (broken = false → pieces = images)

theorem Carries.none {m after : Protocol} (same : transmitted after = transmitted m) (broken : Bool) :
    Carries [] broken m after := by
  obtain ⟨wire, logged⟩ := Prod.mk.inj same
  exact ⟨by rw [logged, List.append_nil], [], by rw [wire]; simp, .nil, fun _ => rfl⟩

theorem Carries.one {m after : Protocol} {data sent : Bytes} (wired : Wired m data sent after) (part : sent <+: data)
    {broken : Bool} (whole : broken = false → sent = data) : Carries [data] broken m after where
  logged := by rw [wired.kept]
  wire := ⟨[sent], by rw [wired.kept]; simp, .cons part .nil, fun fine => by rw [whole fine]⟩

theorem Carries.trans {m middle after : Protocol} {first second : List Bytes} {broken broken' : Bool}
    (start : Carries first broken m middle) (rest : Carries second broken' middle after) :
    Carries (first ++ second) (broken || broken') m after := by
  obtain ⟨pieces, wire, parts, all⟩ := start.wire
  obtain ⟨pieces', wire', parts', all'⟩ := rest.wire
  refine ⟨by rw [rest.logged, start.logged, List.append_assoc], pieces ++ pieces', ?_, List.rel_append parts parts', ?_⟩
  · rw [wire', wire, List.flatten_append, List.append_assoc]
  · intro fine
    obtain ⟨fine, fine'⟩ := Bool.or_eq_false_iff.mp fine
    rw [all fine, all' fine']

theorem carries_output (m : Protocol) (output : List WriteOutcome) :
    Carries [] false m { m with output := output } := by
  apply Carries.none
  rfl

section Steps

variable {p p' : Poll} {events : List Event}

theorem carries_poll (stepped : PollStepped p p' events) (inside : p'.position ≠ .fault) :
    Carries ((framesOf events).map (image p.port.config p.slave.addr)) (events.any threw) p.port p'.port := by
  cases stepped with
  | transmitted payload sendmsg here t value port run =>
    obtain ⟨_, _, wired⟩ := (writecook_ends _ _ _ _ _ _ rfl).of_ok run
    exact (carries_output p.port t.output).trans (.one wired List.prefix_rfl fun _ => rfl)
  | transmitFailed payload sendmsg here t message port run =>
    rcases (writecook_ends _ _ _ _ _ _ rfl).of_error run with ⟨fault, _⟩ | ⟨_, _, offset, wired⟩
    · cases fault
    · exact (carries_output p.port t.output).trans (.one wired (List.take_prefix _ _) Bool.noConfusion)
  | overran => exact absurd rfl inside
  | received sendmsg here t size port run =>
    have kept := (unread_transmitted.readcook _ _).of_ok run
    have same : transmitted port = transmitted p.port := kept
    exact Carries.none same _
  | receiveFailed sendmsg here t message port run =>
    have kept := (unread_transmitted.readcook _ _).of_error run
    have same : transmitted port = transmitted p.port := kept
    exact Carries.none same _
  | accepted size sendmsg here addr willing =>
    have none_sent : framesOf (.accepted :: (ack (noteSeq p.slave (inByte p.port 4 &&& 0x03))).2.map .published) = [] :=
      framesOf_published _
    rw [none_sent]
    exact Carries.none rfl _
  | missed size here now =>
    rw [framesOf_append, framesOf_published]
    refine Carries.none ?_ _
    simp only [countError]
    split
    · rfl
    · split <;> rfl
  | _ => exact Carries.none rfl _

theorem inside_before {t : Tick} (stepped : pollStep p t = some (p', events)) : p.position ≠ .fault := by
  intro fault
  simp only [pollStep, fault] at stepped
  cases stepped

end Steps

section Runs

def addrAt (texts : List Bytes) (i : Nat) : UInt8 := (texts[i]?.map fun text => (addSlave text).addr).getD 0xFF

def handed (history : List (Nat × Event)) : List (Nat × Sent) :=
  history.filterMap fun tagged => (sentBy tagged.2).map fun sent => (tagged.1, sent)

def imageOf (config : SerialConfig) (texts : List Bytes) (frame : Nat × Sent) : Bytes :=
  image config (addrAt texts frame.1) frame.2

def images (config : SerialConfig) (texts : List Bytes) (history : List (Nat × Event)) : List Bytes :=
  (handed history).map (imageOf config texts)

def broken (history : List (Nat × Event)) : Bool := history.any fun tagged => threw tagged.2

theorem broken_tagged (i : Nat) (events : List Event) :
    broken (events.map fun event => (i, event)) = events.any threw := by
  rw [broken, List.any_map]
  rfl

theorem images_append (config : SerialConfig) (texts : List Bytes) (first second : List (Nat × Event)) :
    images config texts (first ++ second) = images config texts first ++ images config texts second := by
  rw [images, images, images, handed, List.filterMap_append, List.map_append]
  rfl

theorem images_tagged (config : SerialConfig) (texts : List Bytes) (i : Nat) (events : List Event) :
    images config texts (events.map fun event => (i, event)) =
      (framesOf events).map (image config (addrAt texts i)) := by
  rw [images, handed, framesOf, List.filterMap_map, List.map_filterMap, List.map_filterMap]
  congr 1
  funext event
  cases event with
  | sent seq payload sendmsg => rfl
  | _ => rfl

theorem images_unsent (config : SerialConfig) (texts : List Bytes) {i : Nat} {events : List Event}
    (unsent : ∀ event ∈ events, sentBy event = none) :
    images config texts (events.map fun event => (i, event)) = [] := by
  rw [images_tagged, framesOf, List.filterMap_eq_nil_iff.mpr unsent]
  rfl

structure Wires (config : SerialConfig) (texts : List Bytes) (master : Master) (history : List (Nat × Event)) : Prop where
  addrs : ∀ i slave, master.slaves[i]? = some slave → slave.addr = addrAt texts i
  settings : master.port.config = config
  carries : master.position ≠ .fault →
    Carries (images config texts history) (broken history) (Protocol.construct config) master.port

variable {config : SerialConfig} {texts : List Bytes} {master master' : Master} {history events : List (Nat × Event)}

theorem reopen_transmitted (events : List Event) (port : Protocol) :
    transmitted (reopen events port) = transmitted port := by
  unfold reopen
  split <;> rfl

theorem reopen_config (events : List Event) (port : Protocol) : (reopen events port).config = port.config := by
  unfold reopen
  split <;> rfl

theorem startup_unsent (config : SerialConfig) (texts : List Bytes) :
    handed (bus config texts).startup = [] ∧ broken (bus config texts).startup = false := by
  constructor
  · rw [handed, List.filterMap_eq_nil_iff]
    intro tagged member
    obtain ⟨numbered, _, same⟩ := List.mem_map.mp member
    rw [← same]
    rfl
  · rw [broken, List.any_eq_false]
    intro tagged member
    obtain ⟨numbered, _, same⟩ := List.mem_map.mp member
    rw [← same]
    exact Bool.false_ne_true

theorem wires_start (config : SerialConfig) (texts : List Bytes) :
    Wires config texts (bus config texts).start (bus config texts).startup where
  addrs i slave there := by
    change (texts.map addSlave)[i]? = some slave at there
    rw [List.getElem?_map, Option.map_eq_some_iff] at there
    obtain ⟨text, configured, same⟩ := there
    rw [addrAt, configured, ← same]
    rfl
  settings := rfl
  carries _ := by
    rw [images, (startup_unsent config texts).1]
    exact Carries.none rfl _

theorem Wires.quiet (wires : Wires config texts master history)
    (addrs : ∀ i slave, master'.slaves[i]? = some slave → slave.addr = addrAt texts i)
    (port : master'.port = master.port) (position : master'.position ≠ .fault → master.position ≠ .fault)
    (unsent : images config texts events = []) (fine : broken events = false) :
    Wires config texts master' (history ++ events) where
  addrs := addrs
  settings := port ▸ wires.settings
  carries inside := by
    have before := wires.carries (position inside)
    rw [images_append, unsent, List.append_nil, broken, List.any_append, ← broken, ← broken, fine, Bool.or_false, port]
    exact before

theorem wires_step {action : Action} (wires : Wires config texts master history)
    (step : Bus.step master action = some (master', events)) : Wires config texts master' (history ++ events) := by
  cases step_stepped step with
  | selected t idle a slave next there =>
    exact wires.quiet wires.addrs rfl (fun _ => by rw [idle]; exact Position.noConfusion) rfl rfl
  | polled t busy slave there p own polled =>
    have inversion := pollStep_stepped polled
    have addr := wires.addrs _ _ there
    refine ⟨forall_set wires.addrs ((queue_poll inversion).2.2.trans addr), ?_, ?_⟩
    · have kept : p.port.config = master.port.config := congrArg Prod.fst inversion.settings_eq
      rw [← wires.settings, ← kept]
      exact reopen_config own p.port
    · intro inside
      have before := wires.carries (inside_before polled)
      have now := carries_poll inversion inside
      simp only [current] at now
      rw [wires.settings, addr] at now
      have whole := (before.trans now).trans (.none (reopen_transmitted own p.port) false)
      rw [List.append_nil, Bool.or_false] at whole
      rw [tag, images_append, images_tagged, broken, List.any_append, ← broken, ← broken, broken_tagged]
      exact whole
  | passed topic payload components routed => exact wires.quiet wires.addrs rfl id rfl rfl
  | told topic payload components i routed slave there =>
    have same := (queue_message slave components payload).2.2.trans (wires.addrs i slave there)
    refine wires.quiet (forall_set wires.addrs same) rfl id (images_unsent _ _ ?_) ?_
    · exact forall_deliver (fun _ => rfl) (fun _ _ => rfl) slave components payload
    · rw [tag, broken_tagged, List.any_eq_false]
      exact forall_deliver (fun _ => Bool.false_ne_true) (fun _ _ => Bool.false_ne_true) slave components payload

theorem wires_run (run : Run (bus config texts) free master history) : Wires config texts master history := by
  apply run.invariant (I := Wires config texts)
  · exact wires_start config texts
  · intro master history action master' events _ wires _ stepped
    exact wires_step wires stepped

theorem handed_small (run : Run (bus config texts) free master history) :
    ∀ frame ∈ handed history, frame.2.seq ≤ 3 := by
  intro frame member
  obtain ⟨⟨i, event⟩, there, found⟩ := List.mem_filterMap.mp member
  obtain ⟨sent, sent_eq, same⟩ := Option.map_eq_some_iff.mp found
  subst same
  have inside : i < texts.length := run_inside run _ there
  obtain ⟨p, _, slaveRun⟩ := run_slave (List.getElem?_eq_getElem inside) run
  obtain ⟨before, after, split⟩ := List.append_of_mem (mem_eventsOf.mpr there)
  have lawful := (numbered_run slaveRun).2 before event after split
  cases event with
  | sent seq payload sendmsg =>
    cases sent_eq
    exact lawful.1
  | _ => cases sent_eq

end Runs

/-- In every run, while no frame was too long for `m_out_buffer`, what was logged as transmitted is the images of the
frames handed to `writecook`, of all slaves, in order; the port took a part from the start of each, and all of each
if no call ended in an exception. -/
theorem wire_history (config : SerialConfig) (texts : List Bytes) (master : Master) (history : List (Nat × Event))
    (run : Run (bus config texts) free master history) (inside : master.position ≠ .fault) :
    master.port.logged = images config texts history ∧
    ∃ pieces, master.port.wire = pieces.flatten ∧
      List.Forall₂ (fun piece whole => piece <+: whole) pieces (images config texts history) ∧
      (broken history = false → pieces = images config texts history) := by
  obtain ⟨logged, wire⟩ := (wires_run run).carries inside
  exact ⟨logged, wire⟩

def outsideFault : Position → Bool
  | .fault => false
  | _ => true

theorem not_fault {position : Position} (outside : outsideFault position = true) : position ≠ .fault := by
  rintro rfl
  cases outside

theorem wire_history_cut :
    ∃ (master : Master) (history : List (Nat × Event)), broken history = true ∧
      (handed history).length = 2 ∧ master.port.wire.length = 13 ∧
      master.port.logged = images plainPort [ascii "5"] history := by
  have checked : (replay (bus plainPort [ascii "5"]) free (bus plainPort [ascii "5"]).start
      (bus plainPort [ascii "5"]).startup
      (polls 8 ⟨0, 0⟩ [.data ackReply] ++ polls 4 ⟨1, 0⟩ [] ++
        [.poll ⟨⟨1, 0⟩, ⟨1, 0⟩, true, [], [.accept 5, .error]⟩])).any (fun reached =>
        outsideFault reached.1.position && broken reached.2 && (handed reached.2).length == 2 &&
        reached.1.port.wire.length == 13) = true := by
    decide +kernel
  obtain ⟨master, history, run, reached⟩ := exists_run checked
  simp only [Bool.and_eq_true, beq_iff_eq] at reached
  obtain ⟨⟨⟨inside, cut⟩, two⟩, short⟩ := reached
  exact ⟨master, history, cut, two, short,
    (wire_history plainPort [ascii "5"] master history run (not_fault inside)).1⟩

section Monitor

structure Reads (texts : List Bytes) (frame : Nat × Sent) (result : Int × Bytes) : Prop where
  size : result.1 = frame.2.payload.length + 5
  addr : result.2.getD 1 0 = addrAt texts frame.1 &&& 0x7F
  seq : result.2.getD 4 0 &&& 0x03 = frame.2.seq
  payload : (result.2.drop 5).take frame.2.payload.length = frame.2.payload

def commandOf (config : SerialConfig) (texts : List Bytes) (frame : Nat × Sent) : Command where
  now := ⟨0, 0⟩
  lead := config.lead
  trail := config.trail
  addr := (addrAt texts frame.1).toNat
  seq := frame.2.seq.toNat
  payload := frame.2.payload

theorem streamOf_frames (config : SerialConfig) (texts : List Bytes) (frames : List (Nat × Sent)) :
    streamOf (frames.map (commandOf config texts)) = (frames.map (imageOf config texts)).flatten := by
  rw [streamOf, List.flatMap_map, List.flatMap_def]
  rfl

theorem reads_of_returned {config : SerialConfig} {texts : List Bytes} {frame : Nat × Sent} {result : Int × Bytes}
    (returned : Returned (commandOf config texts frame) result) : Reads texts frame result where
  size := returned.size
  addr := by
    rw [returned.addr]
    exact congrArg (· &&& 0x7F) (ofInt_toNat _)
  seq := by
    apply UInt8.toNat_inj.mp
    exact Int.ofNat_inj.mp returned.seq
  payload := returned.payload

/-- Of a run with no payload over 259 bytes, no exception and no frame too long for `m_out_buffer`, a station that
hears the master and calls `readcook` as often as the master called `writecook`, in time, reads exactly the frames, in
order: for whom each was, its sequence number and its payload. -/
theorem monitor_reads (config : SerialConfig) (texts : List Bytes) (master : Master) (history : List (Nat × Event))
    (run : Run (bus config texts) free master history) (inside : master.position ≠ .fault)
    (fine : broken history = false) (short : ∀ frame ∈ handed history, frame.2.payload.length ≤ 259)
    (m : Protocol) (clocks : List (Timespec × Timespec)) (listening : m.myAddr = 0xFF) (nonfatal : .error ∉ m.input)
    (fed : bytesOf m.input = master.port.wire) (as_many : clocks.length = (handed history).length)
    (in_time : InTime clocks m) :
    ∃ results after, readcooks clocks m = .ok results after ∧ List.Forall₂ (Reads texts) (handed history) results := by
  obtain ⟨pieces, wire, _, whole⟩ := ((wires_run run).carries inside).wire
  rw [whole fine, images, ← streamOf_frames] at wire
  have wellFormed : ∀ command ∈ (handed history).map (commandOf config texts),
      0 ≤ command.seq ∧ command.seq ≤ 3 ∧ command.payload.length ≤ 259 := by
    intro command member
    obtain ⟨frame, there, same⟩ := List.mem_map.mp member
    subst same
    have small := UInt8.le_iff_toNat_le.mp (handed_small run frame there)
    refine ⟨Int.natCast_nonneg _, ?_, short frame there⟩
    show (frame.2.seq.toNat : Int) ≤ 3
    have three : (3 : UInt8).toNat = 3 := rfl
    omega
  obtain ⟨results, after, reads, all, _⟩ := readcooks_row _ m clocks [] wellFormed listening nonfatal (by simp)
    (fed.trans wire) (by rw [List.length_map, as_many]) in_time
  refine ⟨results, after, reads, ?_⟩
  rw [List.forall₂_map_left_iff] at all
  exact all.imp fun _ _ => reads_of_returned

def recorded (wire : Bytes) : Protocol :=
  { Protocol.construct ⟨0, 0, 50000, 0, 0⟩ with input := [.data (wire.take 3), .eintr, .data (wire.drop 3)] }

theorem bytesOf_recorded (wire : Bytes) : bytesOf (recorded wire).input = wire := by
  show arrived (marksOf [.data (wire.take 3), .eintr, .data (wire.drop 3)]) = wire
  rw [marksOf_data, marksOf, marksOf_data, marksOf]
  · rw [List.append_nil, arrived_append, arrived_taken, arrived_taken, List.take_append_drop]
  · simp
  · simp

theorem monitor_reads_two :
    ∃ (master : Master) (history : List (Nat × Event)) (results : List (Int × Bytes)) (after : Protocol),
      (handed history).length = 2 ∧
      readcooks [(⟨0, 0⟩, ⟨0, 0⟩), (⟨1, 0⟩, ⟨1, 0⟩)] (recorded master.port.wire) = .ok results after ∧
      List.Forall₂ (Reads [ascii "5"]) (handed history) results := by
  have checked : (replay (bus plainPort [ascii "5"]) free (bus plainPort [ascii "5"]).start
      (bus plainPort [ascii "5"]).startup (polls 8 ⟨0, 0⟩ [.data ackReply] ++ polls 8 ⟨1, 0⟩ [.data ackReply])).any
      (fun reached => outsideFault reached.1.position && !broken reached.2 &&
        (handed reached.2).all (fun frame => decide (frame.2.payload.length ≤ 259)) &&
        (handed reached.2).length == 2 &&
        decide (InTime [(⟨0, 0⟩, ⟨0, 0⟩), (⟨1, 0⟩, ⟨1, 0⟩)] (recorded reached.1.port.wire))) = true := by
    decide +kernel
  obtain ⟨master, history, run, reached⟩ := exists_run checked
  simp only [Bool.and_eq_true, Bool.not_eq_true', beq_iff_eq, List.all_eq_true, decide_eq_true_eq] at reached
  obtain ⟨⟨⟨⟨inside, fine⟩, short⟩, two⟩, in_time⟩ := reached
  obtain ⟨results, after, reads, all⟩ := monitor_reads plainPort [ascii "5"] master history run (not_fault inside)
    fine short (recorded master.port.wire) [(⟨0, 0⟩, ⟨0, 0⟩), (⟨1, 0⟩, ⟨1, 0⟩)] rfl (by simp [recorded, Protocol.construct])
    (bytesOf_recorded _) two.symm in_time
  exact ⟨master, history, results, after, two, reads, all⟩

end Monitor

end OsdpMaster.WireHistory
