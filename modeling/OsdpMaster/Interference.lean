import OsdpMaster.BusStep
import OsdpMaster.Lib.Reduction
import OsdpMaster.QueueHistory

/-!
What the MQTT thread does for one slave leaves a call of another alone: each run
is one in which messages for other slaves come between the calls only, seen from
any slave.
-/

namespace OsdpMaster.Interference
open OsdpMaster.Protocol OsdpMaster.Slave OsdpMaster.SlavePoll OsdpMaster.SlaveRun OsdpMaster.Split OsdpMaster.Bus
open OsdpMaster.BusStep OsdpMaster.QueueHistory
open OsdpMaster.RetryBound (current)
open OsdpMaster.Lib.Trace OsdpMaster.Lib.Reduction

def Calling (master : Master) : Prop := master.position ≠ .idle

def Elsewhere (master : Master) : Action → Prop
  | .poll _ => False
  | .message topic _ => ∀ components, route master.slaves topic ≠ some (components, some master.pollSlave)

def seenAt (i : Nat) (tagged : Nat × Event) : Option Event := if tagged.1 = i then some tagged.2 else none

/-- Nothing for other slaves happens in a call. -/
def Undisturbed (master : Master) (_ : List (Nat × Event)) (action : Action) : Prop :=
  master.position ≠ .idle → ¬Elsewhere master action

section Routes

def addrs (slaves : List OsdpSlave) : List UInt8 := slaves.map fun slave => slave.addr

theorem route_congr {slaves slaves' : List OsdpSlave} (same : addrs slaves = addrs slaves') (topic : Bytes) :
    route slaves topic = route slaves' topic := by
  have found (number : Nat) : slaves.findIdx? (fun slave => slave.addr.toNat = number) =
      slaves'.findIdx? (fun slave => slave.addr.toNat = number) := by
    have mapped := congrArg (List.findIdx? fun (addr : UInt8) => decide (addr.toNat = number)) same
    rwa [addrs, addrs, List.findIdx?_map, List.findIdx?_map] at mapped
  unfold route
  split
  · simp only [found]
  · rfl

theorem addrs_set {slaves : List OsdpSlave} {i : Nat} {slave after : OsdpSlave} (there : slaves[i]? = some slave)
    (same : after.addr = slave.addr) : addrs (slaves.set i after) = addrs slaves := by
  obtain ⟨inside, found⟩ := List.getElem?_eq_some_iff.mp there
  have inside' : i < (addrs slaves).length := (List.length_map _).symm ▸ inside
  have kept : slave.addr = (addrs slaves)[i] := by
    rw [← found]
    exact (List.getElem_map _).symm
  rw [addrs, List.map_set, same, kept]
  exact List.set_getElem_self inside'

end Routes

section Swaps

variable {master : Master}

theorem addrs_afterStep {slave : OsdpSlave} {t : Tick} {p : Poll} {own : List Event}
    (there : master.slaves[master.pollSlave]? = some slave)
    (polled : pollStep (current master slave) t = some (p, own)) :
    addrs (afterStep master p own).slaves = addrs master.slaves :=
  addrs_set there (queue_poll (pollStep_stepped polled)).2.2

theorem addrs_afterMessage {i : Nat} {slave : OsdpSlave} (there : master.slaves[i]? = some slave)
    (components : List Bytes) (payload : Bytes) :
    addrs (afterMessage master i (deliver slave components payload).1).slaves = addrs master.slaves :=
  addrs_set there (queue_message slave components payload).2.2

theorem alike_tags {i j : Nat} (other : i ≠ j) (first second : List Event) :
    Alike seenAt (tag i first ++ tag j second) (tag j second ++ tag i first) := by
  intro k
  have unseen {l : Nat} (elsewhere : l ≠ k) (events : List Event) : (tag l events).filterMap (seenAt k) = [] := by
    rw [List.filterMap_eq_nil_iff]
    intro tagged member
    rw [seenAt, (mem_tag.mp member).1, if_neg elsewhere]
  rw [List.filterMap_append, List.filterMap_append]
  by_cases here : i = k
  · subst here
    rw [unseen other.symm, List.append_nil, List.nil_append]
  · rw [unseen here, List.append_nil, List.nil_append]

theorem passed_later {after : Master} {topic payload : Bytes} {components : List Bytes} {events : List (Nat × Event)}
    (routed : route master.slaves topic = some (components, none)) (same : addrs after.slaves = addrs master.slaves) :
    (∀ components, route after.slaves topic ≠ some (components, some after.pollSlave)) ∧
      Bus.step after (.message topic payload) = some (after, []) ∧ Alike seenAt (events ++ []) ([] ++ events) := by
  have routed' : route after.slaves topic = some (components, none) := (route_congr same topic).trans routed
  refine ⟨?_, step_passed routed', by simp [Alike]⟩
  intro components' other
  rw [routed'] at other
  cases other

/-- A message for another slave can be put off past a step of the call. -/
theorem told_later_polled {topic payload : Bytes} {components : List Bytes} {i : Nat} {slave : OsdpSlave} {t : Tick}
    {after : Master} {events : List (Nat × Event)} (busy : master.position ≠ .idle) (other : i ≠ master.pollSlave)
    (routed : route master.slaves topic = some (components, some i)) (there : master.slaves[i]? = some slave)
    (stepped : Stepped (afterMessage master i (deliver slave components payload).1) (.poll t) after events) :
    ∃ middle, Bus.step master (.poll t) = some (middle, events) ∧ Elsewhere middle (.message topic payload) ∧
      Bus.step middle (.message topic payload) = some (after, tag i (deliver slave components payload).2) ∧
      Alike seenAt (events ++ tag i (deliver slave components payload).2)
        (tag i (deliver slave components payload).2 ++ events) := by
  cases stepped with
  | selected t idle => exact absurd idle busy
  | polled t busy' selected found p own polled =>
    have found' : master.slaves[master.pollSlave]? = some selected := by
      simpa only [afterMessage, List.getElem?_set_ne other] using found
    have now := step_polled busy found' polled
    have routed' : route (afterStep master p own).slaves topic = some (components, some i) :=
      (route_congr (addrs_afterStep found' polled) topic).trans routed
    have there' : (afterStep master p own).slaves[i]? = some slave := by
      simpa only [afterStep, List.getElem?_set_ne other.symm] using there
    refine ⟨_, now, ?_, ?_, alike_tags other.symm _ _⟩
    · intro components' here
      rw [routed'] at here
      cases here
      exact other rfl
    · rw [step_told routed' there']
      simp only [afterMessage, afterStep, List.set_comm _ _ other]

theorem told_later_told {topic payload topic' payload' : Bytes} {components : List Bytes} {i : Nat} {slave : OsdpSlave}
    {after : Master} {events : List (Nat × Event)} (other : i ≠ master.pollSlave)
    (routed : route master.slaves topic = some (components, some i)) (there : master.slaves[i]? = some slave)
    (here : ¬Elsewhere (afterMessage master i (deliver slave components payload).1) (.message topic' payload'))
    (stepped : Stepped (afterMessage master i (deliver slave components payload).1) (.message topic' payload') after
      events) :
    ∃ middle, Bus.step master (.message topic' payload') = some (middle, events) ∧
      Elsewhere middle (.message topic payload) ∧
      Bus.step middle (.message topic payload) = some (after, tag i (deliver slave components payload).2) ∧
      Alike seenAt (events ++ tag i (deliver slave components payload).2)
        (tag i (deliver slave components payload).2 ++ events) := by
  have addrs_same := addrs_afterMessage there components payload
  cases stepped with
  | passed topic' payload' components' routed' =>
    exfalso
    apply here
    intro components'' mine
    rw [routed'] at mine
    cases mine
  | told topic' payload' components' j routed' selected found =>
    have mine : j = master.pollSlave := by
      by_contra not_mine
      apply here
      intro components'' same
      rw [routed'] at same
      cases same
      exact not_mine rfl
    subst mine
    have found' : master.slaves[master.pollSlave]? = some selected := by
      simpa only [afterMessage, List.getElem?_set_ne other] using found
    have now := @step_told master topic' payload' components' _ ((route_congr addrs_same topic').symm.trans routed') _ found'
    have routed'' := (route_congr (addrs_afterMessage found' components' payload') topic).trans routed
    have there' : (afterMessage master master.pollSlave (deliver selected components' payload').1).slaves[i]? =
        some slave := by
      simpa only [afterMessage, List.getElem?_set_ne other.symm] using there
    refine ⟨_, now, ?_, ?_, alike_tags other.symm _ _⟩
    · intro components'' same
      rw [routed''] at same
      cases same
      exact other rfl
    · rw [step_told routed'' there']
      simp only [afterMessage, List.set_comm _ _ other]

end Swaps

section Runs

variable {config : SerialConfig} {texts : List Bytes}

theorem Stepped.within {master after : Master} {action : Action} {events : List (Nat × Event)}
    (busy : master.position ≠ .idle) (stepped : Stepped master action after events) :
    addrs after.slaves = addrs master.slaves ∧ after.pollSlave = master.pollSlave := by
  refine ⟨?_, stepped.pollSlave busy⟩
  cases stepped with
  | selected | passed => rfl
  | polled t _ slave there p own polled => exact addrs_afterStep there polled
  | told topic payload components i routed slave there => exact addrs_afterMessage there components payload

theorem movers_bus (config : SerialConfig) (texts : List Bytes) :
    Movers (bus config texts) Calling Elsewhere seenAt where
  keeps := by
    intro master after action events elsewhere step
    cases step_stepped step with
    | selected | polled => exact elsewhere.elim
    | passed | told => exact Iff.rfl
  moves := by
    intro master middle after late action out events busy elsewhere first own second
    cases step_stepped first with
    | selected | polled => exact elsewhere.elim
    | passed topic payload components routed =>
      obtain ⟨same, _⟩ := Stepped.within busy (step_stepped second)
      obtain ⟨still, later, alike⟩ := passed_later routed same
      exact ⟨own, after, second, still, later, alike⟩
    | told topic payload components i routed slave there =>
      have other : i ≠ master.pollSlave := by
        rintro rfl
        exact elsewhere components routed
      refine ⟨?_, ?_⟩
      · cases action with
        | poll t => exact id
        | message topic' payload' =>
          intro elsewhere'
          apply own
          intro components' mine
          apply elsewhere' components'
          exact (route_congr (addrs_afterMessage there components payload) topic').symm.trans mine
      · cases action with
        | poll t => exact told_later_polled busy other routed there (step_stepped second)
        | message topic' payload' => exact told_later_told other routed there own (step_stepped second)

/-- Every run that has come to the end of its calls can be put in an order in which no message for another slave
comes in the middle of a call: it reaches the same state, and each slave sees the same events in the same order. -/
theorem calls_undisturbed (config : SerialConfig) (texts : List Bytes) (master : Master) (history : List (Nat × Event))
    (run : Run (bus config texts) free master history) (idle : master.position = .idle) :
    ∃ serial, Run (bus config texts) Undisturbed master serial ∧ ∀ i, eventsOf i serial = eventsOf i history := by
  obtain ⟨start, done, late, serial, path, _, alike, flush⟩ := serialized (movers_bus config texts) run
  have nothing := flush (not_not.mpr idle)
  subst nothing
  cases path
  refine ⟨done, serial, ?_⟩
  intro i
  have same := alike i
  rwa [List.flatMap_nil, List.append_nil] at same

/-- A message for the first slave comes in while the second is called. -/
theorem calls_undisturbed_two :
    ∃ (master : Master) (serial : List (Nat × Event)),
      Run (bus plainPort [ascii "5", ascii "6"]) Undisturbed master serial ∧
        arrivals (eventsOf 0 serial) = [[OSDP_POLL, 7]] := by
  have checked : (replay (bus plainPort [ascii "5", ascii "6"]) free (bus plainPort [ascii "5", ascii "6"]).start
      (bus plainPort [ascii "5", ascii "6"]).startup
      (polls 5 ⟨0, 0⟩ [.eagain ⟨1, 0⟩] ++ .message (ascii "osdp/bus1/outgoing/5") [OSDP_POLL, 7] ::
        polls 2 ⟨0, 0⟩ [.eagain ⟨1, 0⟩])).any (fun reached =>
        reached.1.position == .idle && arrivals (eventsOf 0 reached.2) == [[OSDP_POLL, 7]]) = true := by
    decide +kernel
  obtain ⟨master, history, run, reached⟩ := exists_run checked
  simp only [Bool.and_eq_true, beq_iff_eq] at reached
  obtain ⟨idle, arrived⟩ := reached
  obtain ⟨serial, undisturbed, same⟩ := calls_undisturbed plainPort [ascii "5", ascii "6"] master history run idle
  refine ⟨master, serial, undisturbed, ?_⟩
  rw [same 0]
  exact arrived

end Runs

end OsdpMaster.Interference
