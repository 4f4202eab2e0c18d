import OsdpMaster.Upload

/-!
A device that refuses the file. `on_message` stores its reply, but the uploader
may clear the event or find another reply in its place; and it does not look at a
negative status anyway, so that it goes on as after any other reply.
-/

namespace OsdpMaster.UploadRefusal
open OsdpMaster.Filesend OsdpMaster.Upload OsdpMaster.Lib.Trace

variable {image : Bytes} {s s' : State} {history events : List Event} {action : Action}

inductive Course
  /-- Nothing has been published. -/
  | fresh
  | sent
  /-- A negative status has come in for a fragment. -/
  | refused
  deriving DecidableEq

def noteCourse : Course → Event → Course
  | .fresh, .published _ => .sent
  | .sent, .received status => if status < 0 then .refused else .sent
  | course, _ => course

def course (history : List Event) : Course := history.foldl noteCourse .fresh

theorem course_append (history events : List Event) :
    course (history ++ events) = events.foldl noteCourse (course history) := List.foldl_append

/-- After a negative status for a fragment has come in, nothing is published. -/
def Obeys (before : List Event) (event : Event) : Prop :=
  ∀ record, event = .published record → course before ≠ .refused

/-- The loop has ended, or ends next. -/
def Done (image : Bytes) (u : Uploader) : Prop :=
  (∃ how, u.position = .ended how) ∨ (u.position = .looping ∧ u.fin = true ∧ image.length ≤ u.offset)

/-- The loop is over with the reply that is waited for, whatever it says: `fin` is set, and the fragment it
answers is the last one. -/
def Spent (image : Bytes) (u : Uploader) : Prop :=
  Done image u ∨ ((u.position = .waiting ∨ u.position = .answered) ∧ u.fin = true ∧
    image.length ≤ u.offset + u.frag)

instance (image : Bytes) (u : Uploader) : Decidable (Done image u) :=
  have : Decidable (∃ how, u.position = .ended how) :=
    decidable_of_iff (u.position = .ended .returned ∨ u.position = .ended .raised)
      ⟨fun ended => ended.elim (⟨_, ·⟩) (⟨_, ·⟩), fun ⟨how, ended⟩ => by cases how <;> simp [ended]⟩
  inferInstanceAs (Decidable (_ ∨ _))

instance (image : Bytes) (u : Uploader) : Decidable (Spent image u) := inferInstanceAs (Decidable (_ ∨ _))

def refuses : Event → Bool
  | .received status => decide (status < 0)
  | _ => false

/-- A negative status for a fragment comes in when the loop is over with the reply that is waited for, and then
the wait for that reply does not give up, except at the end, where that is an exception. -/
def Heeded (image : Bytes) (s : State) (history : List Event) : Action → Prop
  | .message incoming => course history ≠ .fresh →
      ∀ event ∈ taken incoming, refuses event = true → Spent image s.upload
  | .timeout => course history = .refused → s.upload.offset = image.length
  | _ => True

instance (image : Bytes) (s : State) (history : List Event) : ∀ action, Decidable (Heeded image s history action)
  | .message _ | .timeout => inferInstanceAs (Decidable (_ → _))
  | .set | .uploader => isTrue trivial

theorem finished_set (status : Int) : finished true status = true := by
  unfold finished
  split
  · rfl
  · split <;> rfl

theorem finished_negative {status : Int} (negative : status < 0) (fin : Bool) : finished fin status = fin := by
  have other : status ∉ [0, 1, 3] := by
    simp only [List.mem_cons, List.not_mem_nil, or_false]
    omega
  have not_two : status ≠ 2 := by omega
  rw [finished, if_neg other, if_neg not_two]

theorem received_only (incoming : Incoming) : ∀ event ∈ taken incoming, ∃ status, event = .received status :=
  forall_taken (fun status => ⟨status, rfl⟩) incoming

theorem course_refused {events : List Event} (only : ∀ event ∈ events, ∃ status, event = .received status)
    {before : Course} (refused : events.foldl noteCourse before = .refused) :
    before = .refused ∨ before ≠ .fresh ∧ ∃ status < 0, .received status ∈ events := by
  induction events generalizing before with
  | nil => exact .inl refused
  | cons event events ih =>
    obtain ⟨⟨status, received⟩, rest⟩ := List.forall_mem_cons.mp only
    subst received
    by_cases negative : before ≠ .fresh ∧ status < 0
    · exact .inr ⟨negative.1, status, negative.2, List.mem_cons_self⟩
    · have same : noteCourse before (.received status) = before := by
        cases before with
        | fresh | refused => rfl
        | sent => exact if_neg fun below => negative ⟨Course.noConfusion, below⟩
      rw [List.foldl_cons, same] at refused
      exact (ih rest refused).imp_right fun ⟨begun, status, below, member⟩ =>
        ⟨begun, status, below, List.mem_cons_of_mem _ member⟩

theorem done_advance (done : Done image s.upload) (advances : advance image s = some (s', events)) :
    Done image s'.upload ∧ events = [] := by
  unfold advance at advances
  rcases done with ⟨how, ended⟩ | ⟨looping, fin, whole⟩
  · rw [ended] at advances
    cases advances
  · have none_left : ¬(s.upload.offset < image.length ∨ s.upload.fin = false) := by
      simp only [fin, Bool.true_eq_false, or_false, not_lt]
      exact whole
    rw [looping] at advances
    simp only [if_neg none_left] at advances
    cases advances
    exact ⟨.inl ⟨.returned, rfl⟩, rfl⟩

theorem spent_advance (spent : Spent image s.upload) (advances : advance image s = some (s', events)) :
    Spent image s'.upload ∧ ∀ record, .published record ∉ events := by
  rcases spent with done | ⟨waiting | answered, fin, whole⟩
  · obtain ⟨still, quiet⟩ := done_advance done advances
    exact ⟨.inl still, by simp [quiet]⟩
  · unfold advance at advances
    rw [waiting] at advances
    simp only at advances
    split at advances
    · cases advances
      exact ⟨.inr ⟨.inr rfl, fin, whole⟩, by simp⟩
    · cases advances
  · unfold advance at advances
    rw [answered] at advances
    cases advances
    unfold interpret
    split
    · exact ⟨.inl (.inl ⟨_, rfl⟩), by simp⟩
    · refine ⟨.inl (.inr ⟨rfl, ?_, whole⟩), by simp⟩
      dsimp only
      rw [fin]
      exact finished_set _

/-- Once the file has been refused, the loop is over with the reply that is waited for. -/
structure Heeding (image : Bytes) (s : State) (history : List Event) : Prop where
  spent : course history = .refused → Spent image s.upload
  obeys : Always Obeys history

theorem obeys_other {events : List Event} (unpublished : ∀ record, .published record ∉ events) :
    Always (fun before event => Obeys (history ++ before) event) events := by
  apply always_of_forall
  intro event member before record published
  exact absurd (published ▸ member) (unpublished record)

/-- A step of the uploader that publishes nothing, after which nothing has changed for the course. -/
theorem Heeding.goes_on (heeding : Heeding image s history) (advances : advance image s = some (s', events))
    (uncounted : ∀ event ∈ events, ∀ before, noteCourse before event = before)
    (unpublished : ∀ record, .published record ∉ events) : Heeding image s' (history ++ events) where
  spent refused := by
    have same : course (history ++ events) = course history := by
      rw [course_append]
      exact foldl_keeps id uncounted _
    exact (spent_advance (heeding.spent (same.symm.trans refused)) advances).1
  obeys := always_append.mpr ⟨heeding.obeys, obeys_other unpublished⟩

/-- After a refusal the uploader does not come to publish. -/
theorem Heeding.unrefused (heeding : Heeding image s history) (publishing : s.upload.position = .publishing) :
    course history ≠ .refused := by
  intro refused
  rcases heeding.spent refused with (⟨how, ended⟩ | ⟨looping, _⟩) | ⟨waiting | answered, _⟩
  · exact Position.noConfusion (ended.symm.trans publishing)
  · exact Position.noConfusion (looping.symm.trans publishing)
  · exact Position.noConfusion (waiting.symm.trans publishing)
  · exact Position.noConfusion (answered.symm.trans publishing)

theorem Heeding.publishes (heeding : Heeding image s history) (publishing : s.upload.position = .publishing)
    (record : Bytes) : Heeding image s' (history ++ [.published record]) where
  spent refused := by
    have unrefused := heeding.unrefused publishing
    rw [course_append] at refused
    cases was : course history with
    | fresh | sent =>
      rw [was] at refused
      cases refused
    | refused => exact absurd was unrefused
  obeys := by
    rw [always_snoc]
    exact ⟨heeding.obeys, fun _ _ => heeding.unrefused publishing⟩

theorem Heeding.advances (heeding : Heeding image s history) (advances : advance image s = some (s', events)) :
    Heeding image s' (history ++ events) := by
  rcases advance_cases advances with ⟨quiet, _⟩ | ⟨publishing, sent, _⟩ | ⟨answered, _⟩ | ⟨reply, _, _, read, _⟩
  · exact heeding.goes_on advances (by simp [quiet]) (by simp [quiet])
  · rw [sent]
    exact heeding.publishes publishing _
  · apply heeding.goes_on advances
    · rw [answered, List.forall_mem_singleton]
      intro before
      cases before <;> rfl
    · simp [answered]
  · apply heeding.goes_on advances
    · rw [read, List.forall_mem_singleton]
      intro before
      cases before <;> rfl
    · simp [read]

theorem Heeding.receives {incoming : Incoming} (heeding : Heeding image s history)
    (heeded : Heeded image s history (.message incoming)) (same : s'.upload = s.upload) :
    Heeding image s' (history ++ taken incoming) where
  spent refused := by
    rw [course_append] at refused
    rw [same]
    rcases course_refused (received_only incoming) refused with before | ⟨begun, status, negative, received⟩
    · exact heeding.spent before
    · exact heeded begun _ received (decide_eq_true negative)
  obeys := by
    refine always_append.mpr ⟨heeding.obeys, obeys_other ?_⟩
    intro record published
    obtain ⟨status, other⟩ := received_only incoming _ published
    cases other

theorem heeding_of_run (run : Run (filesend image) (Heeded image) s history) : Heeding image s history := by
  apply run.invariant
  · refine ⟨?_, always_nil _⟩
    intro never
    cases never
  · intro s history action s' events _ heeding heeded stepped
    rcases step_cases stepped with ⟨_, advances⟩ | ⟨same, quiet | ⟨incoming, told, taken_in⟩⟩ |
      ⟨gives_up, waiting, after, quiet⟩
    · exact heeding.advances advances
    · rw [quiet, List.append_nil]
      exact ⟨same ▸ heeding.spent, heeding.obeys⟩
    · subst told
      rw [taken_in]
      exact heeding.receives heeded same
    · subst gives_up
      rw [quiet, List.append_nil]
      refine ⟨fun refused => .inl (.inl ⟨.raised, ?_⟩), heeding.obeys⟩
      rw [after]
      exact if_pos (heeded refused)

section Stops

/-- From here on nothing is published, whatever happens. -/
def Stops (image : Bytes) (s : State) : Prop :=
  ∀ steps later, Path (filesend image) s steps later → ∀ one ∈ steps, ∀ record, .published record ∉ one.events

theorem Stops.step (stops : Stops image s) (stepped : step image s action = some (s', events)) :
    Stops image s' ∧ ∀ record, .published record ∉ events := by
  constructor
  · intro steps later path one member
    exact stops _ later (.cons ⟨s, action, s', events⟩ rfl stepped path) one (List.mem_cons_of_mem _ member)
  · exact stops _ s' (.cons ⟨s, action, s', events⟩ rfl stepped (.nil s')) _ List.mem_cons_self

theorem stops_online (stops : Stops image s) (works : s.crashed = false) :
    ∃ s', Stops image s' ∧ s'.offline = false ∧ s'.crashed = false ∧ s'.upload = s.upload := by
  have answer : onMessage s (.status (ascii "ONLINE")) = { s with offline := false } := rfl
  cases setting : s.setting with
  | false =>
    have stepped : step image s (.message (.status (ascii "ONLINE"))) = some ({ s with offline := false }, []) := by
      simp only [step, works, setting, Bool.false_eq_true, ↓reduceIte, answer]
      rfl
    exact ⟨_, (stops.step stepped).1, rfl, works, rfl⟩
  | true =>
    have stored : step image s .set = some ({ s with ftevent := true, setting := false }, []) := by
      simp only [step, works, setting, Bool.false_eq_true, ↓reduceIte]
    have stepped : step image { s with ftevent := true, setting := false } (.message (.status (ascii "ONLINE"))) =
        some ({ s with ftevent := true, setting := false, offline := false }, []) := by
      simp only [step, works, Bool.false_eq_true, ↓reduceIte]
      rfl
    exact ⟨_, ((stops.step stored).1.step stepped).1, rfl, works, rfl⟩

theorem fragment_some {offset frag : Nat} (total : image.length < 4294967296) (start : offset < 4294967296)
    (size : frag < 65536) : ∃ record, fragment image offset frag = some record := by
  have fits : ∀ field ∈ [(1, 0x7C), (1, 1), (4, image.length), (4, offset), (2, frag)],
      field.2 < 256 ^ field.1 := by
    simp only [List.mem_cons, List.not_mem_nil, or_false, forall_eq_or_imp, forall_eq]
    exact ⟨by decide, by decide, total, start, size⟩
  exact ⟨_, Option.map_eq_some_iff.mpr ⟨_, if_pos fits, rfl⟩⟩

theorem not_stops_publishing (works : s.crashed = false) (publishing : s.upload.position = .publishing) :
    ¬Stops image s := by
  intro stops
  have stepped : step image s .uploader =
      some ({ s with upload := { s.upload with position := .waiting } }, [.published s.upload.record]) := by
    simp only [step, works, Bool.false_eq_true, ↓reduceIte, advance, publishing]
  exact (stops.step stepped).2 s.upload.record List.mem_cons_self

theorem not_stops_trying (works : s.crashed = false) (trying : s.upload.position = .trying)
    (inside : s.upload.offset ≤ image.length) (small : s.upload.frag ≤ 100) (total : image.length < 4294967296) :
    ¬Stops image s := by
  intro stops
  obtain ⟨there, stops, present, works, same⟩ := stops_online stops works
  have size : remaining image s.upload ≤ s.upload.frag := remaining_le s.upload
  obtain ⟨record, makes⟩ := @fragment_some image s.upload.offset (remaining image s.upload) total (by omega) (by omega)
  have stepped : step image there .uploader =
      some ({ there with
        ftevent := false
        upload := { s.upload with frag := remaining image s.upload, record := record, position := .publishing } },
        []) := by
    simp only [step, works, Bool.false_eq_true, ↓reduceIte, advance, attempt, present, same, trying, makes]
  refine not_stops_publishing ?_ ?_ (stops.step stepped).1
  · exact works
  · rfl

theorem not_stops_looping (works : s.crashed = false) (looping : s.upload.position = .looping)
    (more : s.upload.offset < image.length ∨ s.upload.fin = false) (inside : s.upload.offset ≤ image.length)
    (small : s.upload.frag ≤ 100) (total : image.length < 4294967296) : ¬Stops image s := by
  intro stops
  have stepped : step image s .uploader =
      some ({ s with upload := { s.upload with position := .trying } }, []) := by
    simp only [step, works, Bool.false_eq_true, ↓reduceIte, advance, looping, if_pos more]
  refine not_stops_trying ?_ ?_ ?_ ?_ total (stops.step stepped).1
  · exact works
  · rfl
  · exact inside
  · exact small

theorem not_stops_answered {reply : Ftstat} (works : s.crashed = false) (answered : s.upload.position = .answered)
    (read : s.ftstat.bind unpack = some reply) (negative : reply.status < 0)
    (more : s.upload.offset + s.upload.frag < image.length ∨ s.upload.fin = false)
    (inside : s.upload.offset + s.upload.frag ≤ image.length) (small : s.upload.frag ≤ 100)
    (total : image.length < 4294967296) : ¬Stops image s := by
  intro stops
  have stepped : step image s .uploader =
      some ({ s with upload := { s.upload with offset := s.upload.offset + s.upload.frag, position := .looping } },
        [.status reply.status]) := by
    simp only [step, works, Bool.false_eq_true, ↓reduceIte, advance, answered, interpret, read,
      finished_negative negative]
  refine not_stops_looping ?_ ?_ ?_ ?_ ?_ total (stops.step stepped).1
  · exact works
  · rfl
  · exact more
  · exact inside
  · exact small

theorem not_stops_waiting {reply : Ftstat} (works : s.crashed = false) (waiting : s.upload.position = .waiting)
    (setting : s.setting = true) (read : s.ftstat.bind unpack = some reply) (negative : reply.status < 0)
    (more : s.upload.offset + s.upload.frag < image.length ∨ s.upload.fin = false)
    (inside : s.upload.offset + s.upload.frag ≤ image.length) (small : s.upload.frag ≤ 100)
    (total : image.length < 4294967296) : ¬Stops image s := by
  intro stops
  have stored : step image s .set = some ({ s with ftevent := true, setting := false }, []) := by
    simp only [step, works, setting, Bool.false_eq_true, ↓reduceIte]
  have woken : step image { s with ftevent := true, setting := false } .uploader =
      some ({ s with
        ftevent := true
        setting := false
        upload := { s.upload with position := .answered } }, [.answered s.upload.record]) := by
    simp only [step, works, Bool.false_eq_true, ↓reduceIte, advance, waiting]
  refine not_stops_answered ?_ ?_ ?_ negative ?_ ?_ ?_ total ((stops.step stored).1.step woken).1
  · exact works
  · rfl
  · exact read
  · exact more
  · exact inside
  · exact small

/-- A negative status that comes in when something is left to do is ignored. -/
theorem not_stops_received {t : Lib.StopAndWait.Sender Bytes} {reply : Ftstat} (works : s.crashed = false)
    (follows : Follows image s.upload t) (setting : s.setting = true) (read : s.ftstat.bind unpack = some reply)
    (negative : reply.status < 0) (more : ¬Spent image s.upload) (total : image.length < 4294967296) :
    ¬Stops image s := by
  have small := follows.frag
  unfold Spent Done at more
  cases position : s.upload.position with
  | looping =>
    have stands := follows.offset
    rw [position] at more
    apply not_stops_looping works position _ follows.offset small total
    by_contra none_left
    rw [not_or, not_lt, Bool.not_eq_false] at none_left
    exact more (.inl (.inr ⟨rfl, none_left.2, none_left.1⟩))
  | trying => exact not_stops_trying works position follows.offset small total
  | publishing => exact not_stops_publishing works position
  | waiting =>
    have made := (follows.stands position).2
    rw [position] at more
    apply not_stops_waiting works position setting read negative _ made.within small total
    by_contra none_left
    rw [not_or, not_lt, Bool.not_eq_false] at none_left
    exact more (.inr ⟨.inl rfl, none_left.2, none_left.1⟩)
  | answered =>
    have made := (follows.stands position).2
    rw [position] at more
    apply not_stops_answered works position read negative _ made.within small total
    by_contra none_left
    rw [not_or, not_lt, Bool.not_eq_false] at none_left
    exact more (.inr ⟨.inr rfl, none_left.2, none_left.1⟩)
  | ended how =>
    rw [position] at more
    exact absurd (.inl (.inl ⟨how, rfl⟩)) more

end Stops

theorem step_works (stepped : step image s action = some (s', events)) : s.crashed = false := by
  cases crashed : s.crashed with
  | false => rfl
  | true =>
    simp only [step, crashed, ↓reduceIte] at stepped
    cases stepped

theorem total_of_course (run : Run (filesend image) free s history) (begun : course history ≠ .fresh) :
    image.length < 4294967296 := by
  have published : ∃ record, .published record ∈ history := by
    by_contra none_published
    apply begun
    unfold course
    have still : ∀ event ∈ history, noteCourse .fresh event = .fresh := by
      intro event member
      cases event with
      | published record => exact absurd ⟨record, member⟩ none_published
      | _ => rfl
    clear begun none_published run
    induction history with
    | nil => rfl
    | cons event history ih =>
      obtain ⟨first, rest⟩ := List.forall_mem_cons.mp still
      rw [List.foldl_cons, first]
      exact ih rest
  obtain ⟨record, published⟩ := published
  obtain ⟨t, _, sends⟩ := upload_simulated run
  have sent : Lib.StopAndWait.Event.sent record ∈ traffic history :=
    List.mem_filterMap.mpr ⟨.published record, published, rfl⟩
  obtain ⟨before, after, split⟩ := List.append_of_mem sent
  obtain ⟨frag, _, _, made⟩ := ((Lib.StopAndWait.sender_told sends).proper before _ after split).1
  exact (fragment_eq made).1

theorem onMessage_taken {incoming : Incoming} {status : Int} (received : .received status ∈ taken incoming) :
    ∃ reply, (onMessage s incoming).ftstat.bind unpack = some reply ∧ reply.status = status ∧
      (onMessage s incoming).setting = true ∧ (onMessage s incoming).crashed = s.crashed := by
  unfold taken at received
  split at received
  next payload =>
    split at received
    next stat =>
      obtain ⟨reply, read, same⟩ := Option.map_eq_some_iff.mp (Option.mem_toList.mp received)
      cases payload with
      | nil => cases stat
      | cons code payload =>
        cases stat
        cases same
        exact ⟨reply, read, rfl, rfl, rfl⟩
    · cases received
  · cases received

/-- Nothing is published after a refusal in runs whose steps meet the condition, and after a step that does not
meet it something can still be. -/
theorem refusals_obeyed_iff (image : Bytes) :
    (∀ s history, Run (filesend image) (Heeded image) s history → Always Obeys history) ∧
      ∀ s history action s' events, Run (filesend image) free s history →
        step image s action = some (s', events) → ¬Heeded image s history action → ¬Stops image s' := by
  constructor
  · exact fun s history run => (heeding_of_run run).obeys
  · intro s history action s' events run stepped unheeded
    obtain ⟨t, follows, _⟩ := upload_simulated run
    have works := step_works stepped
    cases action with
    | message incoming =>
      simp only [Heeded, not_forall] at unheeded
      obtain ⟨begun, event, received, refusal, more⟩ := unheeded
      have total := total_of_course run begun
      obtain ⟨status, same⟩ := received_only incoming event received
      subst same
      have negative := of_decide_eq_true refusal
      obtain ⟨reply, read, same, setting, crashed⟩ := @onMessage_taken s incoming status received
      simp only [step, works, Bool.false_eq_true, ↓reduceIte] at stepped
      split at stepped
      · cases stepped
      · cases stepped
        have upload := onMessage_upload s incoming
        exact not_stops_received (crashed.trans works) (upload ▸ follows) setting read (same ▸ negative)
          (upload ▸ more) total
    | timeout =>
      simp only [Heeded, not_forall] at unheeded
      obtain ⟨refused, more⟩ := unheeded
      have total := total_of_course run (by rw [refused]; exact Course.noConfusion)
      simp only [step, works, Bool.false_eq_true, ↓reduceIte] at stepped
      split at stepped
      · cases stepped
        exact not_stops_trying rfl (if_neg more) follows.offset follows.frag total
      · cases stepped
    | set => exact absurd trivial unheeded
    | uploader => exact absurd trivial unheeded

theorem refusals_obeyed_byte : ∃ s history, Run (filesend [0x41]) (Heeded [0x41]) s history ∧
    course history = .refused ∧ Always Obeys history := by
  have checked : (replay (filesend [0x41]) (Heeded [0x41]) (filesend [0x41]).start (filesend [0x41]).startup
      [.uploader, .uploader, .uploader, .message (.device [0x7A, 0, 0, 0, 2, 0, 0, 0]), .set, .uploader, .uploader,
        .message (.device [0x7A, 0, 0, 0, 0xFF, 0xFF, 0, 0])]).any
      (fun reached => course reached.2 = .refused) = true := by decide +kernel
  obtain ⟨s, history, run, refused⟩ := exists_run checked
  exact ⟨s, history, run, of_decide_eq_true refused, (refusals_obeyed_iff [0x41]).1 s history run⟩

/-- A device that aborts, and gets another fragment. -/
theorem refusal_ignored : ¬∀ s history, Run (filesend [0x41]) free s history → Always Obeys history := by
  intro always
  have checked : (replay (filesend [0x41]) free (filesend [0x41]).start (filesend [0x41]).startup
      [.uploader, .uploader, .uploader, .message (.device [0x7A, 0, 0, 0, 0xFF, 0xFF, 0, 0]), .set,
        .uploader, .uploader, .uploader, .uploader, .uploader]).any
      (fun reached => reached.2 =
        [.published [0x7C, 1, 1, 0, 0, 0, 0, 0, 0, 0, 1, 0, 0x41], .received (-1),
          .answered [0x7C, 1, 1, 0, 0, 0, 0, 0, 0, 0, 1, 0, 0x41], .status (-1),
          .published [0x7C, 1, 1, 0, 0, 0, 1, 0, 0, 0, 0, 0]]) = true := by decide +kernel
  obtain ⟨s, history, run, reached⟩ := exists_run checked
  have known := of_decide_eq_true reached
  simp only at known
  subst known
  have refused := always s _ run [.published [0x7C, 1, 1, 0, 0, 0, 0, 0, 0, 0, 1, 0, 0x41], .received (-1),
    .answered [0x7C, 1, 1, 0, 0, 0, 0, 0, 0, 0, 1, 0, 0x41], .status (-1)] _ [] rfl _ rfl
  exact absurd (by decide) refused

end OsdpMaster.UploadRefusal
