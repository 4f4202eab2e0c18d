import OsdpMaster.BusStep
import OsdpMaster.Status

/-!
What the MQTT broker keeps, by its rules for retained messages. The statuses are
retained, so that an app that subscribes later gets the last one first; a slave's
topic is its own while no other slave has its address.
-/

namespace OsdpMaster.RetainedStatus
open OsdpMaster.Protocol OsdpMaster.Slave OsdpMaster.SlavePoll OsdpMaster.SlaveRun OsdpMaster.Split
open OsdpMaster.Bus OsdpMaster.BusStep OsdpMaster.Status OsdpMaster.Lib.Trace

section Broker

/-- What MQTT says of the messages that a broker retains: what it has for a topic after these publications. -/
structure Retains (retained : List Publication → Bytes → Option Bytes) : Prop where
  nothing : ∀ topic, retained [] topic = none
  replaced : ∀ earlier publication, publication.retain = true → publication.payload ≠ [] →
    retained (earlier ++ [publication]) publication.topic = some publication.payload
  elsewhere : ∀ earlier publication topic, topic ≠ publication.topic →
    retained (earlier ++ [publication]) topic = retained earlier topic
  passing : ∀ earlier publication topic, publication.retain = false →
    retained (earlier ++ [publication]) topic = retained earlier topic

def publicationIn : Event → Option Publication
  | .published publication => some publication
  | _ => none

def publications (history : List (Nat × Event)) : List Publication :=
  history.filterMap fun tagged => publicationIn tagged.2

theorem publications_snoc (history : List (Nat × Event)) (tagged : Nat × Event) :
    publications (history ++ [tagged]) = publications history ++ (publicationIn tagged.2).toList := by
  rw [publications, publications, List.filterMap_append, List.append_cancel_left_eq]
  cases found : publicationIn tagged.2 <;> simp [found]

def Titled (topic : Bytes) (event : Event) : Prop :=
  ∀ publication, event = .published publication → publication.retain = true →
    publication.topic = topic ∧ publication.payload ≠ []

variable {retained : List Publication → Bytes → Option Bytes} (retains : Retains retained)

include retains in
theorem retained_titled {topic : Bytes} {history : List (Nat × Event)} {tagged : Nat × Event}
    (titled : Titled topic tagged.2) : retained (publications (history ++ [tagged])) topic =
      (statusIn tagged.2).or (retained (publications history) topic) := by
  obtain ⟨j, event⟩ := tagged
  rw [publications_snoc]
  cases event with
  | published publication =>
    cases kept : publication.retain with
    | false => simpa [publicationIn, statusIn, kept] using retains.passing _ publication topic kept
    | true =>
      obtain ⟨rfl, some_text⟩ := titled publication rfl kept
      simpa [publicationIn, statusIn, kept] using retains.replaced _ publication kept some_text
  | _ => simp [publicationIn, statusIn]

include retains in
theorem retained_other {topic other : Bytes} {history : List (Nat × Event)} {tagged : Nat × Event}
    (titled : Titled other tagged.2) (apart : topic ≠ other) :
    retained (publications (history ++ [tagged])) topic = retained (publications history) topic := by
  obtain ⟨j, event⟩ := tagged
  rw [publications_snoc]
  cases event with
  | published publication =>
    cases kept : publication.retain with
    | false => exact retains.passing _ publication topic kept
    | true =>
      obtain ⟨rfl, _⟩ := titled publication rfl kept
      exact retains.elsewhere _ publication topic apart
  | _ => simp [publicationIn]

include retains in
/-- Of a topic that only the slave at index `i` has, the broker keeps the last status of the slave. -/
theorem retained_last {topics : Nat → Bytes} {i : Nat} (history : List (Nat × Event))
    (titled : ∀ tagged ∈ history, Titled (topics tagged.1) tagged.2)
    (alone : ∀ tagged ∈ history, topics i = topics tagged.1 → tagged.1 = i) :
    retained (publications history) (topics i) = lastStatus (eventsOf i history) := by
  induction history using List.reverseRecOn with
  | nil => exact retains.nothing _
  | append_singleton history tagged ih =>
    have before := ih (fun earlier member => titled earlier (List.mem_append_left _ member))
      (fun earlier member => alone earlier (List.mem_append_left _ member))
    have own := titled tagged (List.mem_append_right _ List.mem_cons_self)
    by_cases here : tagged.1 = i
    · have only : eventsOf i [tagged] = [tagged.2] := by
        subst here
        exact eventsOf_tagged tagged.1 [tagged.2]
      rw [here] at own
      rw [eventsOf_append, lastStatus_append, retained_titled retains own, before, only]
      cases status : statusIn tagged.2 <;> simp [lastStatus, status]
    · have none_there : eventsOf i [tagged] = [] := eventsOf_other here [tagged.2]
      have apart : topics i ≠ topics tagged.1 := fun same =>
        here (alone tagged (List.mem_append_right _ List.mem_cons_self) same)
      rw [eventsOf_append, none_there, List.append_nil, retained_other retains own apart, before]

include retains in
theorem retained_topics {topics : Nat → Bytes} (history : List (Nat × Event))
    (titled : ∀ tagged ∈ history, Titled (topics tagged.1) tagged.2) (topic : Bytes)
    (kept : retained (publications history) topic ≠ none) : ∃ tagged ∈ history, topic = topics tagged.1 := by
  induction history using List.reverseRecOn with
  | nil => exact absurd (retains.nothing topic) kept
  | append_singleton history tagged ih =>
    by_cases here : topic = topics tagged.1
    · exact ⟨tagged, List.mem_append_right _ List.mem_cons_self, here⟩
    · rw [retained_other retains (titled tagged (List.mem_append_right _ List.mem_cons_self)) here] at kept
      obtain ⟨earlier, member, same⟩ := ih (fun earlier member => titled earlier (List.mem_append_left _ member)) kept
      exact ⟨earlier, List.mem_append_left _ member, same⟩

/-- The retained message of each topic, one publication after the other; an empty one removes it. -/
def keep (store : Bytes → Option Bytes) (publication : Publication) : Bytes → Option Bytes :=
  if publication.retain then
    Function.update store publication.topic (if publication.payload = [] then none else some publication.payload)
  else store

theorem retains_keep : Retains fun publications => publications.foldl keep fun _ => none where
  nothing _ := rfl
  replaced earlier publication kept some_text := by
    simp [keep, kept, some_text]
  elsewhere earlier publication topic apart := by
    rw [List.foldl_append, List.foldl_cons, List.foldl_nil, keep]
    split
    · exact Function.update_of_ne apart _ _
    · rfl
  passing earlier publication topic passed := by
    simp [keep, passed]

end Broker

section Topics

def topicOf (addr : UInt8) : Bytes := ascii "osdpiom/bus1/incoming/" ++ decimal addr.toNat ++ ascii "/status"

theorem strtoul_decimal (addr : UInt8) : strtoul (decimal addr.toNat) = addr.toNat := by
  have all : ∀ n < 256, strtoul (decimal n) = n := by decide +kernel
  exact all addr.toNat addr.toNat_lt

theorem topicOf_inj {addr addr' : UInt8} (same : topicOf addr = topicOf addr') : addr = addr' := by
  have names : decimal addr.toNat = decimal addr'.toNat :=
    List.append_cancel_left (List.append_cancel_right same)
  apply UInt8.toNat_inj.mp
  rw [← strtoul_decimal addr, ← strtoul_decimal addr', names]

theorem statusValue_ne_nil (enabled tf : Bool) : statusValue enabled tf ≠ [] := by
  cases enabled <;> cases tf <;> decide

theorem titled_declared {addr : UInt8} {slave : OsdpSlave} (named : slave.addr = addr) (tf : Bool) :
    Titled (topicOf addr) (.published (declareOnline slave tf)) := by
  rintro _ ⟨⟩ _
  exact ⟨congrArg topicOf named, statusValue_ne_nil _ _⟩

theorem titled_incoming (topic : Bytes) (size : Int) (port : Protocol) :
    Titled topic (.published (incoming size port)) := by
  rintro _ ⟨⟩ retained
  cases retained

end Topics

section Slave

variable {addr : UInt8} {p p' : Poll} {events : List Event}

theorem titled_append {topic : Bytes} {first second : List Event} (before : ∀ event ∈ first, Titled topic event)
    (after : ∀ event ∈ second, Titled topic event) : ∀ event ∈ first ++ second, Titled topic event := by
  intro event member
  rcases List.mem_append.mp member with earlier | later
  · exact before event earlier
  · exact after event later

theorem titled_ack {slave : OsdpSlave} (named : slave.addr = addr) :
    ∀ event ∈ (ack slave).2.map Event.published, Titled (topicOf addr) event := by
  intro event member
  rw [ack_published] at member
  split at member
  · rw [List.mem_singleton.mp member]
    exact titled_declared named true
  · cases member

theorem titled_nak {slave : OsdpSlave} (named : slave.addr = addr) (now : Timespec) :
    ∀ event ∈ (nak slave now).2.map Event.published, Titled (topicOf addr) event := by
  intro event member
  simp only [nak] at member
  split at member
  · cases member
  · split at member
    · rw [List.mem_singleton.mp member]
      exact titled_declared named false
    · cases member

theorem titled_deliver {slave : OsdpSlave} (named : slave.addr = addr) (components : List Bytes) (payload : Bytes) :
    ∀ event ∈ (deliver slave components payload).2, Titled (topicOf addr) event := by
  cases told : isControl components with
  | true =>
    rw [deliver_control told]
    obtain ⟨tf, only⟩ := control_published slave payload
    obtain ⟨enabled, kept⟩ := control_slave slave payload
    intro event member
    simp only [only, List.map_singleton] at member
    rw [List.mem_singleton.mp member, kept]
    have named' : { slave with enabled := enabled }.addr = addr := named
    exact titled_declared named' tf
  | false =>
    intro event member
    simp only [deliver, messageForSlave, told, Bool.false_eq_true, if_false] at member
    split at member <;> simp at member <;> subst member <;> rintro _ ⟨⟩

theorem addr_deliver {slave : OsdpSlave} (named : slave.addr = addr) (components : List Bytes) (payload : Bytes) :
    (deliver slave components payload).1.addr = addr := by
  obtain ⟨more, enabled, kept⟩ := deliver_slave slave components payload
  rw [kept]
  exact named

theorem titled_poll (named : p.slave.addr = addr) (stepped : PollStepped p p' events) :
    p'.slave.addr = addr ∧ ∀ event ∈ events, Titled (topicOf addr) event := by
  have noted : (noteSeq p.slave (inByte p.port 4 &&& 0x03)).addr = addr := by
    obtain ⟨rxseq, kept⟩ := noteSeq_slave p.slave (inByte p.port 4 &&& 0x03)
    rw [kept]
    exact named
  cases stepped with
  | accepted size sendmsg here addr willing =>
    refine ⟨noted, ?_⟩
    intro event member
    rcases List.mem_cons.mp member with rfl | published
    · rintro _ ⟨⟩
    · exact titled_ack noted event published
  | refused size sendmsg here addr unwilling =>
    refine ⟨noted, ?_⟩
    intro event member
    rw [List.mem_singleton.mp member]
    rintro _ ⟨⟩
  | missed size here now =>
    obtain ⟨retry, nextPoll, kept⟩ := nak_slave p.slave now
    refine ⟨?_, titled_append (titled_nak named now) ?_⟩
    · show (nak p.slave now).1.addr = addr
      rw [kept]
      exact named
    · intro event member
      rw [List.mem_singleton.mp member]
      rintro _ ⟨⟩
  | handedOn size here news =>
    refine ⟨named, ?_⟩
    intro event member
    rcases List.mem_cons.mp member with rfl | last
    · exact titled_incoming _ size p.port
    · rw [List.mem_singleton.mp last]
      rintro _ ⟨⟩
  | _ =>
    refine ⟨named, ?_⟩
    intro event member publication published
    subst published
    simp at member

theorem titled_run {config : SerialConfig} {text : Bytes} {ok : Poll → List Event → Move → Prop} {history : List Event}
    (run : Run (slaveSystem config text) ok p history) :
    p.slave.addr = (addSlave text).addr ∧ ∀ event ∈ history, Titled (topicOf (addSlave text).addr) event := by
  apply slaveRun_invariant (I := fun p history =>
    p.slave.addr = (addSlave text).addr ∧ ∀ event ∈ history, Titled (topicOf (addSlave text).addr) event) _ _ _ _ run
  · refine ⟨rfl, ?_⟩
    intro event member
    rw [List.mem_singleton.mp member]
    exact titled_declared rfl false
  · intro p history port crcCount timeoutCount _ holds
    exact holds
  · intro p history t p' events _ _ stepped holds
    obtain ⟨named, now⟩ := titled_poll holds.1 (pollStep_stepped stepped)
    exact ⟨named, titled_append holds.2 now⟩
  · intro p history components payload _ _ holds
    exact ⟨addr_deliver holds.1 components payload, titled_append holds.2 (titled_deliver holds.1 components payload)⟩

end Slave

section Runs

def topicAt (texts : List Bytes) (i : Nat) : Bytes := topicOf (addSlave (texts.getD i [])).addr

theorem topicAt_eq {texts : List Bytes} {i : Nat} {text : Bytes} (configured : texts[i]? = some text) :
    topicAt texts i = topicOf (addSlave text).addr := by
  rw [topicAt, List.getD_eq_getElem?_getD, configured, Option.getD_some]

variable {config : SerialConfig} {texts : List Bytes} {master : Master} {history : List (Nat × Event)}
  {ok : Master → List (Nat × Event) → Action → Prop}

theorem titled_history (run : Run (bus config texts) ok master history) :
    ∀ tagged ∈ history, tagged.1 < texts.length ∧ Titled (topicAt texts tagged.1) tagged.2 := by
  rintro ⟨i, event⟩ member
  have inside := run_inside run (i, event) member
  have configured := List.getElem?_eq_getElem inside
  obtain ⟨p, _, slaveRun⟩ := @run_follows config i master texts _ configured ok free (fun _ _ _ _ _ _ _ _ => trivial)
    history run
  refine ⟨inside, ?_⟩
  rw [topicAt_eq configured]
  exact (titled_run slaveRun).2 event (mem_eventsOf.mpr member)

/-- In every run, all that a broker retains is under the status topic of a slave of the configuration; and for a
slave whose address no other slave has, it is the last status of the slave. While control messages fit, an app that
subscribes to the topic between two steps gets the status that describes the slave; a step has the whole of `ack`, `nak`
or the control branch, which the other thread does not interrupt. -/
theorem retained_status (retained : List Publication → Bytes → Option Bytes) (retains : Retains retained)
    (config : SerialConfig) (texts : List Bytes) (master : Master) (history : List (Nat × Event)) :
    (Run (bus config texts) free master history → ∀ topic, retained (publications history) topic ≠ none →
      ∃ text ∈ texts, topic = topicOf (addSlave text).addr) ∧
    ∀ i text, texts[i]? = some text →
      (∀ j text', texts[j]? = some text' → (addSlave text').addr = (addSlave text).addr → j = i) →
        (Run (bus config texts) free master history →
          retained (publications history) (topicOf (addSlave text).addr) = lastStatus (eventsOf i history)) ∧
        (Run (bus config texts) Fits master history → ∃ slave, master.slaves[i]? = some slave ∧
          retained (publications history) (statusTopic slave) = some (statusOf slave)) := by
  constructor
  · intro run topic kept
    obtain ⟨tagged, member, same⟩ :=
      retained_topics retains history (fun tagged member => (titled_history run tagged member).2) topic kept
    have inside := (titled_history run tagged member).1
    refine ⟨texts[tagged.1], List.getElem_mem inside, ?_⟩
    rw [same, topicAt_eq (List.getElem?_eq_getElem inside)]
  intro i text configured alone
  have last {ok : Master → List (Nat × Event) → Action → Prop} (run : Run (bus config texts) ok master history) :
      retained (publications history) (topicOf (addSlave text).addr) = lastStatus (eventsOf i history) := by
    rw [← topicAt_eq configured]
    apply retained_last retains history fun tagged member => (titled_history run tagged member).2
    intro tagged member same
    have there := List.getElem?_eq_getElem (titled_history run tagged member).1
    rw [topicAt_eq configured, topicAt_eq there] at same
    exact alone tagged.1 _ there (topicOf_inj same).symm
  refine ⟨last, ?_⟩
  intro run
  obtain ⟨p, follows, slaveRun⟩ := run_follows configured
    (fun _ _ _ _ _ follows fits behind => fits_behind follows fits behind) run
  refine ⟨p.slave, follows.slave, ?_⟩
  have named : statusTopic p.slave = topicOf (addSlave text).addr := congrArg topicOf (titled_run slaveRun).1
  rw [named, last run, status_run slaveRun]

theorem retained_status_two :
    ∃ (master : Master) (history : List (Nat × Event)) (slave : OsdpSlave), master.slaves[0]? = some slave ∧
      (publications history).foldl keep (fun _ => none) (statusTopic slave) = some (statusOf slave) ∧
        statusOf slave = ascii "ONLINE" := by
  have checked : (replay (bus plainPort [ascii "5", ascii "6"]) Fits (bus plainPort [ascii "5", ascii "6"]).start
      (bus plainPort [ascii "5", ascii "6"]).startup
      (polls 14 ⟨0, 0⟩ [.data ackReply] ++
        [.message (ascii "osdp/bus1/outgoing/6/control") (ascii "DISABLE")])).any (fun reached =>
        (reached.1.slaves[0]?).any fun slave => statusOf slave == ascii "ONLINE") = true := by
    decide +kernel
  obtain ⟨master, history, run, reached⟩ := exists_run checked
  obtain ⟨first, found, online⟩ := (Option.any_eq_true _ _).mp reached
  have alone : ∀ j text', [ascii "5", ascii "6"][j]? = some text' →
      (addSlave text').addr = (addSlave (ascii "5")).addr → j = 0 := by
    rintro (_ | _ | j) text' there same
    · rfl
    · cases there
      exact absurd same (by decide +kernel)
    · cases there
  obtain ⟨slave, there, kept⟩ :=
    ((retained_status _ retains_keep plainPort [ascii "5", ascii "6"] master history).2 0 (ascii "5") rfl alone).2 run
  have same : first = slave := Option.some.inj (found.symm.trans there)
  exact ⟨master, history, slave, there, kept, same ▸ beq_iff_eq.mp online⟩

end Runs

end OsdpMaster.RetainedStatus
