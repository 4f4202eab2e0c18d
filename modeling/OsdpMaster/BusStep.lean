import OsdpMaster.RetryBound

/-!
What a step of the master can do, said once: the poll thread selects a slave or
takes the next step of the call it is in, or the MQTT thread works a message for
no slave or for one.
-/

namespace OsdpMaster.BusStep
open OsdpMaster.Protocol OsdpMaster.Slave OsdpMaster.SlavePoll OsdpMaster.SlaveRun OsdpMaster.Split OsdpMaster.Bus
open OsdpMaster.RetryBound OsdpMaster.Lib.Trace

def tag (i : Nat) (events : List Event) : List (Nat × Event) := events.map fun event => (i, event)

theorem mem_tag {i : Nat} {events : List Event} {tagged : Nat × Event} :
    tagged ∈ tag i events ↔ tagged.1 = i ∧ tagged.2 ∈ events := by
  simp only [tag, List.mem_map]
  constructor
  · rintro ⟨event, member, rfl⟩
    exact ⟨rfl, member⟩
  · rintro ⟨rfl, member⟩
    exact ⟨tagged.2, member, rfl⟩

def afterStep (master : Master) (p : Poll) (events : List Event) : Master where
  slaves := master.slaves.set master.pollSlave p.slave
  pollSlave := master.pollSlave
  port := reopen events p.port
  crcCount := p.crcCount
  timeoutCount := p.timeoutCount
  position := p.position

def afterMessage (master : Master) (i : Nat) (slave : OsdpSlave) : Master :=
  { master with slaves := master.slaves.set i slave }

inductive Stepped (master : Master) : Action → Master → List (Nat × Event) → Prop
  | selected (t : Tick) (idle : master.position = .idle) (a : Nat) (slave : OsdpSlave)
      (next : a = nextSlave master.slaves master.pollSlave master.slaves.length master.pollSlave)
      (there : master.slaves[a]? = some slave) :
      Stepped master (.poll t)
        { master with pollSlave := a, position := if pollable slave then .offlineTest else .idle } []
  | polled (t : Tick) (busy : master.position ≠ .idle) (slave : OsdpSlave)
      (there : master.slaves[master.pollSlave]? = some slave) (p : Poll) (events : List Event)
      (step : pollStep (current master slave) t = some (p, events)) :
      Stepped master (.poll t) (afterStep master p events) (tag master.pollSlave events)
  | passed (topic payload : Bytes) (components : List Bytes)
      (routed : route master.slaves topic = some (components, none)) :
      Stepped master (.message topic payload) master []
  | told (topic payload : Bytes) (components : List Bytes) (i : Nat)
      (routed : route master.slaves topic = some (components, some i)) (slave : OsdpSlave)
      (there : master.slaves[i]? = some slave) :
      Stepped master (.message topic payload) (afterMessage master i (deliver slave components payload).1)
        (tag i (deliver slave components payload).2)

section Inversion

variable {master master' : Master} {action : Action} {events : List (Nat × Event)}

/-- The cases of a step. -/
theorem step_stepped (step : Bus.step master action = some (master', events)) :
    Stepped master action master' events := by
  cases action with
  | poll t =>
    simp only [Bus.step] at step
    split at step
    next idle =>
      simp only [select] at step
      split at step
      · cases step
      next slave there =>
        cases step
        exact .selected t idle _ slave rfl there
    next busy =>
      simp only [pollSelected] at step
      split at step
      · cases step
      next slave there =>
        split at step
        · cases step
        next p own stepped =>
          cases step
          exact .polled t busy slave there p own stepped
  | message topic payload =>
    simp only [Bus.step, messageCallback] at step
    split at step
    · cases step
    next components routed =>
      cases step
      exact .passed topic payload components routed
    next components i routed =>
      split at step
      · cases step
      next slave there =>
        cases step
        exact .told topic payload components i routed slave there

theorem step_polled {t : Tick} (busy : master.position ≠ .idle) {slave : OsdpSlave}
    (there : master.slaves[master.pollSlave]? = some slave) {p : Poll} {own : List Event}
    (polled : pollStep (current master slave) t = some (p, own)) :
    Bus.step master (.poll t) = some (afterStep master p own, tag master.pollSlave own) := by
  simp only [current] at polled
  simp only [Bus.step, if_neg busy, pollSelected, there, polled]
  rfl

theorem step_passed {topic payload : Bytes} {components : List Bytes}
    (routed : route master.slaves topic = some (components, none)) :
    Bus.step master (.message topic payload) = some (master, []) := by
  simp only [Bus.step, messageCallback, routed]

theorem step_told {topic payload : Bytes} {components : List Bytes} {i : Nat}
    (routed : route master.slaves topic = some (components, some i)) {slave : OsdpSlave}
    (there : master.slaves[i]? = some slave) :
    Bus.step master (.message topic payload) =
      some (afterMessage master i (deliver slave components payload).1, tag i (deliver slave components payload).2) := by
  simp only [Bus.step, messageCallback, routed, there]
  rfl

theorem Stepped.slaves_length (stepped : Stepped master action master' events) :
    master'.slaves.length = master.slaves.length := by
  cases stepped with
  | selected | passed => rfl
  | polled | told => exact List.length_set

theorem Stepped.pollSlave (busy : master.position ≠ .idle) (stepped : Stepped master action master' events) :
    master'.pollSlave = master.pollSlave := by
  cases stepped with
  | selected t idle => exact absurd idle busy
  | polled | passed | told => rfl

theorem Stepped.inside (stepped : Stepped master action master' events) :
    ∀ tagged ∈ events, tagged.1 < master.slaves.length := by
  intro tagged member
  cases stepped with
  | selected | passed => cases member
  | polled t busy slave there p own step =>
    rw [(mem_tag.mp member).1]
    exact (List.getElem?_eq_some_iff.mp there).1
  | told topic payload components i routed slave there =>
    rw [(mem_tag.mp member).1]
    exact (List.getElem?_eq_some_iff.mp there).1

/-- One slave of the list has changed: what holds of the others, and of it now, holds of all. -/
theorem forall_set {P : Nat → OsdpSlave → Prop} {slaves : List OsdpSlave} {i : Nat} {after : OsdpSlave}
    (before : ∀ j slave, slaves[j]? = some slave → P j slave) (now : P i after) (j : Nat) (slave : OsdpSlave)
    (found : (slaves.set i after)[j]? = some slave) : P j slave := by
  by_cases here : i = j
  · subst here
    have inside : i < (slaves.set i after).length := (List.getElem?_eq_some_iff.mp found).1
    rw [List.length_set] at inside
    rw [List.getElem?_set_self inside, Option.some.injEq] at found
    exact found ▸ now
  · rw [List.getElem?_set_ne here] at found
    exact before j slave found

end Inversion

section Runs

variable {config : SerialConfig} {texts : List Bytes} {master : Master} {history : List (Nat × Event)}
  {ok : Master → List (Nat × Event) → Action → Prop}

theorem run_length (run : Run (bus config texts) ok master history) : master.slaves.length = texts.length := by
  apply run.invariant (I := fun master _ => master.slaves.length = texts.length)
  · exact List.length_map _
  · intro master history action master' events _ length _ step
    exact (step_stepped step).slaves_length.trans length

theorem run_inside (run : Run (bus config texts) ok master history) :
    ∀ tagged ∈ history, tagged.1 < texts.length := by
  apply run.invariant (I := fun _ history => ∀ tagged ∈ history, tagged.1 < texts.length)
  · intro tagged member
    obtain ⟨numbered, there, same⟩ := List.mem_map.mp member
    rw [← same]
    simpa using (List.mem_zipIdx there).2.1
  · intro master history action master' events run inside _ step tagged member
    rcases List.mem_append.mp member with before | now
    · exact inside tagged before
    · rw [← run_length run]
      exact (step_stepped step).inside tagged now

/-- `m_poll_slave` is on the bus in a call, and always if the configuration has a slave. -/
theorem run_cursor (run : Run (bus config texts) ok master history) (some_slave : master.position ≠ .idle ∨ texts ≠ []) :
    master.pollSlave < texts.length := by
  have inside : master.position ≠ .idle ∨ texts ≠ [] → master.pollSlave < master.slaves.length := by
    apply run.invariant (I := fun master _ =>
      master.position ≠ .idle ∨ texts ≠ [] → master.pollSlave < master.slaves.length)
    · rintro (busy | configured)
      · exact absurd rfl busy
      · exact (List.length_map addSlave).symm ▸ List.length_pos_iff.mpr configured
    · intro master history action master' events _ inside _ step some_slave
      cases step_stepped step with
      | selected t idle a slave next there => exact (List.getElem?_eq_some_iff.mp there).1
      | polled t busy slave there p own stepped =>
        simp only [afterStep, List.length_set]
        exact (List.getElem?_eq_some_iff.mp there).1
      | passed topic payload components routed => exact inside some_slave
      | told topic payload components i routed slave there =>
        simp only [afterMessage, List.length_set]
        exact inside some_slave
  rw [← run_length run]
  exact inside some_slave

theorem run_current (run : Run (bus config texts) free master history) (busy : master.position ≠ .idle)
    {slave : OsdpSlave} (there : master.slaves[master.pollSlave]? = some slave) :
    ∃ text, texts[master.pollSlave]? = some text ∧ ProtocolKept.settings master.port = (config, 0xFF) ∧
      Run (slaveSystem config text) free (current master slave) (eventsOf master.pollSlave history) := by
  have configured := List.getElem?_eq_getElem (run_cursor run (Or.inl busy))
  obtain ⟨p, follows, slaveRun⟩ := run_slave configured run
  have position : p.position = master.position := by rw [follows.position, if_pos rfl]
  obtain ⟨port, crcCount, timeoutCount⟩ := follows.busy (position ▸ busy)
  have same : p.slave = slave := Option.some.inj (follows.slave.symm.trans there)
  have here : p = current master slave := by
    rw [current, ← same, ← port, ← crcCount, ← timeoutCount, ← position]
  exact ⟨_, configured, follows.settings, here ▸ slaveRun⟩

end Runs

end OsdpMaster.BusStep
