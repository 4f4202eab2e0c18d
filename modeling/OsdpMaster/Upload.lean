import OsdpMaster.Filesend
import OsdpMaster.Lib.StopAndWait

/-!
The uploader as a sender that waits for its answers: it follows the abstract one
for the fragments of the image, so that what it publishes and what has been
answered is what that one's history allows.
-/

namespace OsdpMaster.Upload
open OsdpMaster.Filesend OsdpMaster.Lib.LittleEndian OsdpMaster.Lib.StopAndWait OsdpMaster.Lib.Trace

section Fields

variable {image record : Bytes} {offset frag : Nat}

/-- A fragment as its receiver finds it: the header, the sizes and the piece of the image at its offset. -/
structure Carries (image record : Bytes) : Prop where
  kind : record.take 2 = [0x7C, 1]
  total : sizeOfImage record = image.length
  small : sizeOfFragment record ≤ 100
  within : offsetOf record + sizeOfFragment record ≤ image.length
  data : dataOf record = (image.drop (offsetOf record)).take (sizeOfFragment record)

theorem fragment_eq (made : fragment image offset frag = some record) :
    image.length < 4294967296 ∧ offset < 4294967296 ∧ frag < 65536 ∧
      record = [0x7C, 1] ++ (packed 4 image.length ++ (packed 4 offset ++ (packed 2 frag ++
        (image.drop offset).take frag))) := by
  obtain ⟨fields, packs, whole⟩ := Option.map_eq_some_iff.mp made
  unfold pack at packs
  split at packs
  · next fits =>
    cases packs
    simp only [List.mem_cons, List.not_mem_nil, or_false, forall_eq_or_imp, forall_eq] at fits
    refine ⟨by omega, by omega, by omega, ?_⟩
    rw [← whole]
    simp [packed]
  · cases packs

theorem fields_eq (made : fragment image offset frag = some record) :
    record.take 2 = [0x7C, 1] ∧ sizeOfImage record = image.length ∧ offsetOf record = offset ∧
      sizeOfFragment record = frag ∧ dataOf record = (image.drop offset).take frag := by
  obtain ⟨total, start, size, whole⟩ := fragment_eq made
  have first : record.drop 2 = packed 4 image.length ++ (packed 4 offset ++ (packed 2 frag ++
      (image.drop offset).take frag)) := by
    rw [whole]
    rfl
  have second : record.drop 6 = packed 4 offset ++ (packed 2 frag ++ (image.drop offset).take frag) := by
    rw [← List.drop_drop (i := 4) (j := 2), first]
    exact List.drop_left' (packed_length _ _)
  have third : record.drop 10 = packed 2 frag ++ (image.drop offset).take frag := by
    rw [← List.drop_drop (i := 4) (j := 6), second]
    exact List.drop_left' (packed_length _ _)
  refine ⟨?_, ?_, ?_, ?_, ?_⟩
  · rw [whole]
    rfl
  · rw [sizeOfImage, first, List.take_left' (packed_length _ _), number_packed total]
  · rw [offsetOf, second, List.take_left' (packed_length _ _), number_packed start]
  · rw [sizeOfFragment, third, List.take_left' (packed_length _ _), number_packed size]
  · rw [dataOf, ← List.drop_drop (i := 2) (j := 10), third]
    exact List.drop_left' (packed_length _ _)

end Fields

section Steps

variable {image : Bytes} {s s' : State} {action : Action} {events : List Event}

theorem onMessage_upload (s : State) (incoming : Incoming) : (onMessage s incoming).upload = s.upload := by
  unfold onMessage
  split
  · rfl
  · split <;> rfl
  · split
    · rfl
    · split
      · rfl
      · split <;> rfl

theorem advance_cases (advances : advance image s = some (s', events)) :
    (events = [] ∧ s'.upload.fin = s.upload.fin) ∨
      (s.upload.position = .publishing ∧ events = [.published s.upload.record] ∧ s'.upload.fin = s.upload.fin) ∨
      (events = [.answered s.upload.record] ∧ s'.upload.fin = s.upload.fin) ∨
      ∃ reply, s.upload.position = .answered ∧ s.ftstat.bind unpack = some reply ∧
        events = [.status reply.status] ∧
        s' = { s with upload := { s.upload with
          offset := s.upload.offset + s.upload.frag
          fin := finished s.upload.fin reply.status
          position := .looping } } := by
  unfold advance at advances
  cases position : s.upload.position with
  | looping =>
    rw [position] at advances
    cases advances
    exact .inl ⟨rfl, rfl⟩
  | trying =>
    rw [position] at advances
    cases advances
    refine .inl ⟨rfl, ?_⟩
    unfold attempt
    split
    · rfl
    · split <;> rfl
  | publishing =>
    rw [position] at advances
    cases advances
    exact .inr (.inl ⟨rfl, rfl, rfl⟩)
  | waiting =>
    rw [position] at advances
    simp only at advances
    split at advances
    · cases advances
      exact .inr (.inr (.inl ⟨rfl, rfl⟩))
    · cases advances
  | answered =>
    rw [position] at advances
    cases advances
    unfold interpret
    split
    · exact .inl ⟨rfl, rfl⟩
    · next reply read =>
      exact .inr (.inr (.inr ⟨reply, rfl, read, rfl, rfl⟩))
  | ended how =>
    rw [position] at advances
    cases advances

/-- A step is one of the uploader, or leaves its variables as they are, or is a wait given up. -/
theorem step_cases (stepped : step image s action = some (s', events)) :
    (action = .uploader ∧ advance image s = some (s', events)) ∨
      (s'.upload = s.upload ∧ (events = [] ∨ ∃ incoming, action = .message incoming ∧ events = taken incoming)) ∨
      (action = .timeout ∧ s.upload.position = .waiting ∧ s'.upload = timedOut image s.upload ∧ events = []) := by
  unfold step at stepped
  split at stepped
  · cases stepped
  · cases action with
    | message incoming =>
      simp only at stepped
      split at stepped
      · cases stepped
      · cases stepped
        exact .inr (.inl ⟨onMessage_upload s incoming, .inr ⟨incoming, rfl, rfl⟩⟩)
    | set =>
      simp only at stepped
      split at stepped
      · cases stepped
        exact .inr (.inl ⟨rfl, .inl rfl⟩)
      · cases stepped
    | uploader => exact .inl ⟨rfl, stepped⟩
    | timeout =>
      simp only at stepped
      split at stepped
      · next waiting =>
        cases stepped
        exact .inr (.inr ⟨rfl, waiting, rfl, rfl⟩)
      · cases stepped

theorem forall_taken {P : Event → Prop} (received : ∀ status, P (.received status)) (incoming : Incoming) :
    ∀ event ∈ taken incoming, P event := by
  intro event member
  unfold taken at member
  split at member
  · split at member
    · obtain ⟨reply, _, same⟩ := Option.map_eq_some_iff.mp (Option.mem_toList.mp member)
      exact same ▸ received reply.status
    · cases member
  · cases member

theorem step_events (stepped : step image s action = some (s', events)) :
    ((∀ event ∈ events, ∃ status, event = .received status) ∧ s'.upload.fin = s.upload.fin) ∨
      (s.upload.position = .publishing ∧ events = [.published s.upload.record] ∧ s'.upload.fin = s.upload.fin) ∨
      (events = [.answered s.upload.record] ∧ s'.upload.fin = s.upload.fin) ∨
      ∃ reply, action = .uploader ∧ s.upload.position = .answered ∧ s.ftstat.bind unpack = some reply ∧
        events = [.status reply.status] ∧
        s' = { s with upload := { s.upload with
          offset := s.upload.offset + s.upload.frag
          fin := finished s.upload.fin reply.status
          position := .looping } } := by
  rcases step_cases stepped with ⟨turn, advances⟩ | ⟨same, quiet | ⟨incoming, _, told⟩⟩ | ⟨_, _, after, quiet⟩
  · rcases advance_cases advances with ⟨quiet, same⟩ | published | answered | ⟨reply, read⟩
    · exact .inl ⟨by simp [quiet], same⟩
    · exact .inr (.inl published)
    · exact .inr (.inr (.inl answered))
    · exact .inr (.inr (.inr ⟨reply, turn, read⟩))
  · exact .inl ⟨by simp [quiet], by rw [same]⟩
  · exact .inl ⟨told ▸ forall_taken (fun status => ⟨status, rfl⟩) incoming, by rw [same]⟩
  · rw [after]
    exact .inl ⟨by simp [quiet], rfl⟩

end Steps

section Sender

/-- The fragments that may be next after `n` bytes. -/
def Next (image : Bytes) (n : Nat) (record : Bytes) : Prop :=
  ∃ frag ≤ 100, n + frag ≤ image.length ∧ fragment image n frag = some record

def see : Event → Option (Lib.StopAndWait.Event Bytes)
  | .published record => some (.sent record)
  | .answered record => some (.answered record)
  | .received _ | .status _ => none

def traffic (history : List Event) : List (Lib.StopAndWait.Event Bytes) := history.filterMap see

theorem traffic_taken (incoming : Incoming) : traffic (taken incoming) = [] :=
  List.filterMap_eq_nil_iff.mpr (forall_taken (fun _ => rfl) incoming)

structure Made (image : Bytes) (u : Uploader) (record : Bytes) : Prop where
  within : u.offset + u.frag ≤ image.length
  record : fragment image u.offset u.frag = some record

/-- Where the abstract sender is, by where the uploader is. -/
def At (image : Bytes) (u : Uploader) (t : Sender Bytes) : Position → Prop
  | .looping => t = ⟨u.offset, none⟩
  | .trying => t.progress = u.offset ∧ ∀ last ∈ t.out, Made image u last
  | .publishing => t.progress = u.offset ∧ Made image u u.record ∧ ∀ last ∈ t.out, last = u.record
  | .waiting => t = ⟨u.offset, some u.record⟩ ∧ Made image u u.record
  | .answered => t = ⟨u.offset + u.frag, none⟩ ∧ Made image u u.record
  | .ended how => how = .returned → t.progress = image.length ∧ u.fin = true

structure Follows (image : Bytes) (u : Uploader) (t : Sender Bytes) : Prop where
  offset : u.offset ≤ image.length
  frag : u.frag ≤ 100
  here : At image u t u.position

theorem Follows.stands {image : Bytes} {u : Uploader} {t : Sender Bytes} {position : Position}
    (follows : Follows image u t) (place : u.position = position) : At image u t position := place ▸ follows.here

theorem remaining_within {image : Bytes} {u : Uploader} (inside : u.offset ≤ image.length) :
    u.offset + remaining image u ≤ image.length := by
  unfold remaining
  split <;> omega

theorem remaining_le {image : Bytes} (u : Uploader) : remaining image u ≤ u.frag := by
  unfold remaining
  split <;> omega

theorem remaining_made {image record : Bytes} {u : Uploader} (made : Made image u record) :
    remaining image u = u.frag := by
  have within := made.within
  unfold remaining
  split <;> omega

theorem follows_attempt {image : Bytes} {s : State} {t : Sender Bytes} (follows : Follows image s.upload t)
    (trying : s.upload.position = .trying) : Follows image (attempt image s).upload t := by
  obtain ⟨reached, again⟩ := follows.stands trying
  have fits : remaining image s.upload ≤ 100 := (remaining_le s.upload).trans follows.frag
  unfold attempt
  split
  · exact follows
  · split
    · exact ⟨follows.offset, fits, fun returned => by cases returned⟩
    · next record makes =>
      refine ⟨follows.offset, fits, reached, ⟨remaining_within follows.offset, makes⟩, ?_⟩
      intro last out
      have made := again last out
      have remade := made.record
      rw [← remaining_made made, makes] at remade
      exact (Option.some.inj remade).symm

theorem follows_timedOut {image : Bytes} {u : Uploader} {t : Sender Bytes} (follows : Follows image u t)
    (waiting : u.position = .waiting) : Follows image (timedOut image u) t := by
  obtain ⟨reached, made⟩ := follows.stands waiting
  refine ⟨follows.offset, follows.frag, ?_⟩
  by_cases sent : u.offset = image.length
  · have position : (timedOut image u).position = .ended .raised := if_pos sent
    rw [position]
    exact fun returned => by cases returned
  · have position : (timedOut image u).position = .trying := if_neg sent
    rw [position, reached]
    refine ⟨rfl, ?_⟩
    intro last out
    cases out
    exact ⟨made.within, made.record⟩

theorem follows_looping {image : Bytes} {u : Uploader} {t : Sender Bytes} (follows : Follows image u t)
    (looping : u.position = .looping) :
    Follows image
      { u with position := if u.offset < image.length ∨ u.fin = false then .trying else .ended .returned } t := by
  have reached : t = ⟨u.offset, none⟩ := follows.stands looping
  refine ⟨follows.offset, follows.frag, ?_⟩
  subst reached
  by_cases more : u.offset < image.length ∨ u.fin = false
  · simp only [if_pos more]
    exact ⟨rfl, by simp⟩
  · simp only [if_neg more]
    have inside := follows.offset
    rw [not_or] at more
    intro _
    exact ⟨by simp only; omega, by simpa using more.2⟩

theorem send_record {image : Bytes} {u : Uploader} {t : Sender Bytes} (follows : Follows image u t)
    (publishing : u.position = .publishing) :
    send (Next image) t u.record = some (⟨u.offset, some u.record⟩, [.sent u.record]) := by
  obtain ⟨reached, made, same⟩ := follows.stands publishing
  cases out : t.out with
  | none =>
    have may : Next image t.progress u.record :=
      ⟨u.frag, follows.frag, reached ▸ made.within, reached ▸ made.record⟩
    rw [← reached]
    exact send_new out may
  | some last =>
    have again : last = u.record := same last out
    have state : t = ⟨u.offset, some u.record⟩ := by
      cases t
      simp only at reached out
      rw [reached, out, again]
    rw [send_again (again ▸ out), state]

theorem follows_advance {image : Bytes} {s s' : State} {t : Sender Bytes} {events : List Event}
    (follows : Follows image s.upload t) (advances : advance image s = some (s', events)) :
    (Follows image s'.upload t ∧ traffic events = []) ∨
      ∃ t' move, Follows image s'.upload t' ∧
        (sender (Next image) sizeOfFragment).step t move = some (t', traffic events) := by
  unfold advance at advances
  cases position : s.upload.position with
  | looping =>
    rw [position] at advances
    cases advances
    exact .inl ⟨follows_looping follows position, rfl⟩
  | trying =>
    rw [position] at advances
    cases advances
    exact .inl ⟨follows_attempt follows position, rfl⟩
  | publishing =>
    rw [position] at advances
    cases advances
    obtain ⟨_, made, _⟩ := follows.stands position
    exact .inr ⟨_, .send s.upload.record, ⟨follows.offset, follows.frag, rfl, made.within, made.record⟩,
      send_record follows position⟩
  | waiting =>
    rw [position] at advances
    simp only at advances
    split at advances
    · cases advances
      obtain ⟨reached, made⟩ := follows.stands position
      have size := (fields_eq made.record).2.2.2.1
      right
      refine ⟨⟨s.upload.offset + s.upload.frag, none⟩, .answer,
        ⟨follows.offset, follows.frag, rfl, made.within, made.record⟩, ?_⟩
      rw [reached, ← size]
      rfl
    · cases advances
  | answered =>
    rw [position] at advances
    cases advances
    obtain ⟨reached, made⟩ := follows.stands position
    left
    unfold interpret
    split
    · exact ⟨⟨made.within, follows.frag, fun returned => by cases returned⟩, rfl⟩
    · exact ⟨⟨made.within, follows.frag, reached⟩, rfl⟩
  | ended how =>
    rw [position] at advances
    cases advances

end Sender

section Runs

variable {image : Bytes} {s : State} {history : List Event}

theorem follows_step {s' : State} {t : Sender Bytes} {action : Action} {events : List Event}
    (follows : Follows image s.upload t) (stepped : step image s action = some (s', events)) :
    (Follows image s'.upload t ∧ traffic events = []) ∨
      ∃ t' move, Follows image s'.upload t' ∧
        (sender (Next image) sizeOfFragment).step t move = some (t', traffic events) := by
  rcases step_cases stepped with ⟨_, advances⟩ | ⟨same, quiet | ⟨incoming, _, told⟩⟩ | ⟨_, waiting, after, quiet⟩
  · exact follows_advance follows advances
  · rw [same, quiet]
    exact .inl ⟨follows, rfl⟩
  · rw [same, told]
    exact .inl ⟨follows, traffic_taken incoming⟩
  · rw [after, quiet]
    exact .inl ⟨follows_timedOut follows waiting, rfl⟩

/-- The uploader is a sender of the image's fragments. -/
theorem upload_simulated (run : Run (filesend image) free s history) :
    ∃ t, Follows image s.upload t ∧ Run (sender (Next image) sizeOfFragment) free t (traffic history) := by
  apply run.simulated (R := fun s t => Follows image s.upload t)
  · exact ⟨Nat.zero_le _, Nat.le_refl _, rfl⟩
  · rfl
  · intro s t history action s' events follows _ _ stepped
    rcases follows_step follows stepped with still | ⟨t', move, after, moved⟩
    · exact .inl still
    · exact .inr ⟨t', move, after, trivial, moved⟩

theorem fin_step {s' : State} {action : Action} {events : List Event}
    (stepped : step image s action = some (s', events)) (fin : s'.upload.fin = true) :
    s.upload.fin = true ∨ .status 2 ∈ events := by
  rcases step_events stepped with ⟨_, same⟩ | ⟨_, _, same⟩ | ⟨_, same⟩ | ⟨reply, _, _, _, emits, after⟩
  · exact .inl (same ▸ fin)
  · exact .inl (same ▸ fin)
  · exact .inl (same ▸ fin)
  · rw [after] at fin
    simp only [finished] at fin
    split at fin
    · exact .inl fin
    · split at fin
      · next two =>
        rw [emits, two]
        exact .inr List.mem_cons_self
      · exact .inl fin

theorem fin_received (run : Run (filesend image) free s history) (fin : s.upload.fin = true) :
    .status 2 ∈ history := by
  apply run.invariant (I := fun s history => s.upload.fin = true → .status 2 ∈ history) _ _ fin
  · exact fun never => by cases never
  · intro s history action s' events _ received _ stepped fin
    rw [List.mem_append]
    rcases fin_step stepped fin with before | now
    · exact .inl (received before)
    · exact .inr now

theorem next_carries {n : Nat} {record : Bytes} (next : Next image n record) :
    Carries image record ∧ offsetOf record = n := by
  obtain ⟨frag, small, within, made⟩ := next
  obtain ⟨kind, total, start, size, data⟩ := fields_eq made
  refine ⟨⟨kind, total, ?_, ?_, ?_⟩, start⟩
  · rw [size]
    exact small
  · rw [start, size]
    exact within
  · rw [start, size]
    exact data

def delivered (events : List (Lib.StopAndWait.Event Bytes)) : Bytes := (answers events).flatMap dataOf

/-- What a fragment must be that is published, or answered, after the traffic before it. -/
def Orderly (image : Bytes) (before : List (Lib.StopAndWait.Event Bytes)) : Lib.StopAndWait.Event Bytes → Prop
  | .sent record =>
    (∀ last ∈ unanswered before, record = last) ∧
      (delivered before = image → offsetOf record = image.length ∧ sizeOfFragment record = 0)
  | .answered record => unanswered before = some record ∧ offsetOf record = (delivered before).length

structure Uploads (image : Bytes) (s : State) (history : List Event) : Prop where
  carries : ∀ record, .published record ∈ history → Carries image record
  orderly : Always (Orderly image) (traffic history)
  front : delivered (traffic history) <+: image
  ends : s.upload.position = .ended .returned → delivered (traffic history) = image ∧ .status 2 ∈ history

theorem delivered_take {events : List (Lib.StopAndWait.Event Bytes)}
    (proper : Always (Proper (Next image) sizeOfFragment) events) :
    delivered events = image.take (progress sizeOfFragment events) := by
  apply answered_front _ proper
  intro n record next
  obtain ⟨carries, start⟩ := next_carries next
  rw [← start]
  exact ⟨carries.within, carries.data⟩

theorem orderly_of_proper {before : List (Lib.StopAndWait.Event Bytes)} {event : Lib.StopAndWait.Event Bytes}
    (earlier : Always (Proper (Next image) sizeOfFragment) before)
    (proper : Proper (Next image) sizeOfFragment before event) : Orderly image before event := by
  have front := delivered_take earlier
  cases event with
  | sent record =>
    obtain ⟨next, repeats⟩ := proper
    obtain ⟨carries, start⟩ := next_carries next
    refine ⟨repeats, ?_⟩
    intro whole
    have within := carries.within
    have length : image.length ≤ progress sizeOfFragment before := by
      have lengths := congrArg List.length (front.symm.trans whole)
      rw [List.length_take] at lengths
      omega
    omega
  | answered record =>
    obtain ⟨waits, next⟩ := proper
    obtain ⟨carries, start⟩ := next_carries next
    have within := carries.within
    refine ⟨waits, ?_⟩
    rw [front, List.length_take, start]
    omega

/-- What the uploader publishes, and has answered, over every run. -/
theorem uploads (run : Run (filesend image) free s history) : Uploads image s history := by
  obtain ⟨t, follows, sends⟩ := upload_simulated run
  have told := sender_told sends
  have front := delivered_take told.proper
  refine ⟨?_, ?_, ?_, ?_⟩
  · intro record published
    have sent : Lib.StopAndWait.Event.sent record ∈ traffic history :=
      List.mem_filterMap.mpr ⟨.published record, published, rfl⟩
    obtain ⟨before, after, split⟩ := List.append_of_mem sent
    exact (next_carries (told.proper before _ after split).1).1
  · intro before event after split
    have all := told.proper
    rw [split] at all
    exact orderly_of_proper (always_append.mp all).1 (told.proper before event after split)
  · rw [front]
    exact List.take_prefix _ _
  · intro ended
    obtain ⟨whole, fin⟩ := follows.stands ended rfl
    refine ⟨?_, fin_received run fin⟩
    rw [front, ← told.progress, whole, List.take_length]

theorem uploads_byte : ∃ s history, s.upload.position = .ended .returned ∧ Uploads [0x41] s history := by
  have checked : (replay (filesend [0x41]) free (filesend [0x41]).start (filesend [0x41]).startup
      [.uploader, .uploader, .uploader, .timeout, .uploader, .uploader,
        .message (.device [0x7A, 0, 0, 0, 2, 0, 0, 0]), .set, .uploader, .uploader, .uploader]).any
      (fun reached => reached.1.upload.position = .ended .returned) = true := by decide +kernel
  obtain ⟨s, history, run, ended⟩ := exists_run checked
  exact ⟨s, history, of_decide_eq_true ended, uploads run⟩

end Runs

end OsdpMaster.Upload
