import OsdpMaster.Lib.Trace

/-!
A sender that has one message out at a time and repeats it until it is answered.
What the next message may be depends on the progress made, to which each
answered message adds its size.
-/

namespace OsdpMaster.Lib.StopAndWait
open OsdpMaster.Lib.Trace

variable {M : Type}

inductive Event (M : Type)
  | sent (message : M)
  | answered (message : M)

def Event.waiting : Event M → Option M
  | .sent message => some message
  | .answered _ => none

def Event.answer : Event M → Option M
  | .sent _ => none
  | .answered message => some message

def unanswered (history : List (Event M)) : Option M := history.getLast?.bind Event.waiting

def answers (history : List (Event M)) : List M := history.filterMap Event.answer

def progress (size : M → Nat) (history : List (Event M)) : Nat :=
  (answers history).foldl (fun reached message => reached + size message) 0

@[simp] theorem unanswered_snoc (history : List (Event M)) (event : Event M) :
    unanswered (history ++ [event]) = event.waiting := by
  simp [unanswered]

@[simp] theorem answers_sent (history : List (Event M)) (message : M) :
    answers (history ++ [.sent message]) = answers history := by
  simp [answers, Event.answer]

@[simp] theorem answers_answered (history : List (Event M)) (message : M) :
    answers (history ++ [.answered message]) = answers history ++ [message] := by
  simp [answers, Event.answer]

structure Sender (M : Type) where
  progress : Nat
  out : Option M

inductive Move (M : Type)
  | send (message : M)
  | answer

variable (next : Nat → M → Prop) (size : M → Nat)

open scoped Classical in
/-- A message goes out if it is a next one and none is out, or if it is the one that is. -/
noncomputable def send (s : Sender M) (message : M) : Option (Sender M × List (Event M)) :=
  match s.out with
  | none => if next s.progress message then some (⟨s.progress, some message⟩, [.sent message]) else none
  | some last => if message = last then some (s, [.sent message]) else none

def answer (s : Sender M) : Option (Sender M × List (Event M)) :=
  s.out.map fun message => (⟨s.progress + size message, none⟩, [.answered message])

noncomputable def sender : System (Sender M) (Move M) (Event M) where
  start := ⟨0, none⟩
  startup := []
  step s
    | .send message => send next s message
    | .answer => answer size s

def Proper (before : List (Event M)) : Event M → Prop
  | .sent message => next (progress size before) message ∧ ∀ last ∈ unanswered before, message = last
  | .answered message => unanswered before = some message ∧ next (progress size before) message

variable {next size}

theorem send_new {s : Sender M} {message : M} (free : s.out = none) (may : next s.progress message) :
    send next s message = some (⟨s.progress, some message⟩, [.sent message]) := by
  simp only [send, free, if_pos may]

theorem send_again {s : Sender M} {message : M} (out : s.out = some message) :
    send next s message = some (s, [.sent message]) := by
  simp only [send, out, ↓reduceIte]

theorem send_cases {s s' : Sender M} {message : M} {events : List (Event M)}
    (sends : send next s message = some (s', events)) :
    s' = ⟨s.progress, some message⟩ ∧ events = [.sent message] ∧
      ((s.out = none ∧ next s.progress message) ∨ s.out = some message) := by
  unfold send at sends
  split at sends
  · next out =>
    split at sends
    · next may =>
      cases sends
      exact ⟨rfl, rfl, .inl ⟨out, may⟩⟩
    · cases sends
  · next last out =>
    split at sends
    · next same =>
      cases sends
      subst same
      cases s
      exact ⟨by rw [← out], rfl, .inr out⟩
    · cases sends

/-- A run of the sender, told by its history. -/
structure Told (next : Nat → M → Prop) (size : M → Nat) (s : Sender M) (history : List (Event M)) : Prop where
  progress : s.progress = progress size history
  out : s.out = unanswered history
  may : ∀ message ∈ s.out, next s.progress message
  proper : Always (Proper next size) history

theorem sender_told {s : Sender M} {history : List (Event M)} (run : Run (sender next size) free s history) :
    Told next size s history := by
  apply run.invariant
  · exact ⟨rfl, rfl, by simp [sender], always_nil _⟩
  · intro s history action s' events _ told _ stepped
    obtain ⟨progressed, out, may, proper⟩ := told
    cases action with
    | send message =>
      obtain ⟨after, sent, allowed⟩ := send_cases stepped
      subst after sent
      have next_ : next s.progress message := by
        rcases allowed with ⟨_, may⟩ | same
        · exact may
        · exact may message same
      have repeats : ∀ last ∈ unanswered history, message = last := by
        intro last waits
        rw [← out] at waits
        rcases allowed with ⟨none_out, _⟩ | same
        · rw [none_out] at waits
          cases waits
        · exact Option.some.inj (same.symm.trans waits)
      refine ⟨?_, by simp [Event.waiting], ?_, always_snoc.mpr ⟨proper, ?_, repeats⟩⟩
      · simpa [StopAndWait.progress] using progressed
      · intro other same
        cases same
        exact next_
      · rw [← progressed]
        exact next_
    | answer =>
      obtain ⟨message, waits, result⟩ := Option.map_eq_some_iff.mp stepped
      cases result
      refine ⟨?_, by simp [Event.waiting], by simp, always_snoc.mpr ⟨proper, ?_, ?_⟩⟩
      · simp [StopAndWait.progress, progressed]
      · rw [← out, waits]
      · rw [← progressed]
        exact may message waits

section Data

variable {A : Type} {data : M → List A} {whole : List A}

/-- Where each message carries the piece of a whole from the progress on, what has been answered is the
front of the whole. -/
theorem answered_front
    (pieces : ∀ n message, next n message → n + size message ≤ whole.length ∧
      data message = (whole.drop n).take (size message))
    {history : List (Event M)} (proper : Always (Proper next size) history) :
    (answers history).flatMap data = whole.take (progress size history) := by
  induction history using List.reverseRecOn with
  | nil => rfl
  | append_singleton history event ih =>
    obtain ⟨earlier, last⟩ := always_snoc.mp proper
    have front := ih earlier
    cases event with
    | sent message => simpa [progress] using front
    | answered message =>
      have piece := (pieces _ _ last.2).2
      calc (answers (history ++ [.answered message])).flatMap data
          = whole.take (progress size history) ++ (whole.drop (progress size history)).take (size message) := by
            rw [answers_answered, List.flatMap_append, front, List.flatMap_singleton, piece]
        _ = whole.take (progress size history + size message) := List.take_add.symm
        _ = whole.take (progress size (history ++ [.answered message])) := by simp [progress]

/-- Where each message starts at the progress made before it, those answered cover all of the progress. -/
theorem answered_covers {start : M → Nat} (starts : ∀ n message, next n message → start message = n)
    {history : List (Event M)} (proper : Always (Proper next size) history) {place : Nat}
    (reached : place < progress size history) :
    ∃ message ∈ answers history, start message ≤ place ∧ place < start message + size message := by
  induction history using List.reverseRecOn with
  | nil => exact absurd reached (Nat.not_lt_zero place)
  | append_singleton history event ih =>
    obtain ⟨earlier, last⟩ := always_snoc.mp proper
    cases event with
    | sent message =>
      rw [progress, answers_sent] at reached
      rw [answers_sent]
      exact ih earlier reached
    | answered message =>
      have grown : progress size (history ++ [.answered message]) = progress size history + size message := by
        simp [progress]
      have here := starts _ _ last.2
      rw [answers_answered]
      by_cases before : place < progress size history
      · obtain ⟨other, member, covered⟩ := ih earlier before
        exact ⟨other, List.mem_append_left _ member, covered⟩
      · refine ⟨message, List.mem_append_right _ List.mem_cons_self, ?_⟩
        omega

end Data

end OsdpMaster.Lib.StopAndWait
