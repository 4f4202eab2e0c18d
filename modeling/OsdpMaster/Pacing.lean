import OsdpMaster.OfflineDetection

/-!
How far apart the transmissions to a slave are. An offline slave is paced by
`m_next_assign`, one that missed a poll by `m_next_poll`, each compared with a
reading of the clock in the same call.
-/

namespace OsdpMaster.Pacing
open OsdpMaster.Protocol OsdpMaster.Slave OsdpMaster.SlavePoll OsdpMaster.SlaveRun OsdpMaster.Bus
open OsdpMaster.Lib.Trace

abbrev MasterStep := Step Master Action (Nat × Event)

section Readings

/-- Whether `slave_poll` reads its clock at this statement. -/
def reads (slave : OsdpSlave) : Position → Bool
  | .tickle => true
  | .backoff => decide (slave.retry > 0)
  | _ => false

def readingOf (i : Nat) (step : MasterStep) : Option Timespec :=
  match step.action with
  | .poll t =>
    if step.before.pollSlave = i ∧
        (step.before.slaves[i]?.any fun slave => reads slave step.before.position) = true then some t.now
    else none
  | .message _ _ => none

def lastReading (i : Nat) (steps : List MasterStep) : Option Timespec :=
  steps.reverse.findSome? (readingOf i)

theorem lastReading_snoc (i : Nat) (steps : List MasterStep) (step : MasterStep) :
    lastReading i (steps ++ [step]) = (readingOf i step).or (lastReading i steps) := by
  simp [lastReading, List.findSome?_cons]
  cases readingOf i step <;> rfl

def Transmits (i : Nat) (step : MasterStep) : Prop :=
  ∃ seq payload sendmsg, (i, Event.sent seq payload sendmsg) ∈ step.events

def offlineIn (i : Nat) (master : Master) : Bool := master.slaves[i]?.any offline

def Misses (i : Nat) (now : Timespec) (step : MasterStep) : Prop :=
  step.before.pollSlave = i ∧ (∃ size, step.before.position = .failed size) ∧
    ∃ t, step.action = .poll t ∧ t.now = now

def clocksOf (steps : List MasterStep) : List Timespec :=
  steps.filterMap fun step => match step.action with
    | .poll t => some t.now
    | .message _ _ => none

/-- The clock never goes back, and its readings are normal. -/
structure Clocked (steps : List MasterStep) : Prop where
  normal : ∀ now ∈ clocksOf steps, now.Normal
  sorted : (clocksOf steps).Pairwise fun earlier later => earlier.nanoseconds ≤ later.nanoseconds

end Readings

section Steps

variable {config : SerialConfig} {i : Nat} {p p' : Poll} {t : Tick} {events : List Event}

def readingIn (p : Poll) : Move → Option Timespec
  | .poll t => if reads p.slave p.position = true then some t.now else none
  | _ => none

/-- A step of the master is a move of the slave that reads the clock with it, or passes the slave by. -/
theorem master_step {step : MasterStep} (follows : Follows config i step.before p)
    (stepped : Bus.step step.before step.action = some (step.after, step.events)) :
    (Follows config i step.after p ∧ readingOf i step = none ∧ eventsOf i step.events = [] ∧
        (step.before.pollSlave = i → ∀ t, step.action = .poll t → step.before.position = .idle)) ∨
      ∃ p' move, Follows config i step.after p' ∧ Behind i step.before step.action move ∧
        slaveStep config p move = some (p', eventsOf i step.events) ∧
        readingOf i step = readingIn p move := by
  cases action : step.action with
  | poll t =>
    have unread (other : ¬(step.before.pollSlave = i ∧
        (step.before.slaves[i]?.any fun slave => reads slave step.before.position) = true)) :
        readingOf i step = none := by
      simp only [readingOf, action, if_neg other]
    rw [action] at stepped
    simp only [Bus.step] at stepped
    split at stepped
    next idle =>
      have none_read : readingOf i step = none := by
        apply unread
        intro both
        obtain ⟨_, read⟩ := both
        rw [idle, follows.slave] at read
        cases read
      obtain ⟨quiet, still | ⟨p', port, crcCount, timeoutCount, follows', called⟩⟩ :=
        select_follows follows idle stepped
      · exact Or.inl ⟨still, none_read, by rw [quiet]; rfl, fun _ _ _ => idle⟩
      · refine Or.inr ⟨p', .call port crcCount timeoutCount, follows', trivial, ?_, none_read⟩
        rw [called, quiet]
        rfl
    next busy =>
      rcases pollSelected_follows follows busy stepped with ⟨other, quiet, still⟩ | ⟨p', here, follows', polled⟩
      · exact Or.inl ⟨still, unread fun both => other both.1, quiet, fun here => absurd here other⟩
      · have position : p.position = step.before.position := by rw [follows.position, if_pos here]
        refine Or.inr ⟨p', .poll t, follows', ⟨rfl, here⟩, polled, ?_⟩
        simp only [readingOf, action, here, follows.slave, Option.any_some, true_and, readingIn, position]
  | message topic payload =>
    have none_read : readingOf i step = none := by simp only [readingOf, action]
    rw [action] at stepped
    rcases messageCallback_follows follows stepped with ⟨quiet, still⟩ | ⟨p', components, routed, follows', told⟩
    · refine Or.inl ⟨still, none_read, quiet, ?_⟩
      intro _ t impossible
      cases impossible
    · exact Or.inr ⟨p', .message components payload, follows', ⟨topic, rfl, routed⟩, told, none_read⟩

theorem tickled_now (here : p.position = .tickle) (stepped : pollStep p t = some (p', events))
    (goes_on : p'.position ≠ .idle) :
    t.now.before p.slave.nextAssign = false ∧ p'.slave.nextAssign = nextTickle t.now := by
  simp only [pollStep, here] at stepped
  split at stepped
  · cases stepped
    exact absurd rfl goes_on
  next due =>
    cases stepped
    exact ⟨by simpa using due, rfl⟩

theorem backedOff_now (here : p.position = .backoff) (stepped : pollStep p t = some (p', events))
    (missed : 0 < p.slave.retry) {nextPoll : Timespec} (set : p.slave.nextPoll = some nextPoll)
    (goes_on : p'.position ≠ .idle) : t.now.before nextPoll = false := by
  simp only [pollStep, here, backoff, if_pos missed, set] at stepped
  split at stepped
  · cases stepped
    exact absurd rfl goes_on
  next due => simpa using due

theorem missed_now {size : Int} (here : p.position = .failed size)
    (stepped : pollStep p t = some (p', events)) :
    p'.slave = (nak p.slave t.now).1 ∧ p'.position = .idle := by
  simp only [pollStep, here, failed, Poll.leave] at stepped
  cases stepped
  exact ⟨rfl, rfl⟩

end Steps

section Offline

variable {p p' : Poll} {t : Tick} {events : List Event} {last : Option Timespec}

/-- What an offline slave is sent follows the reading its next time was set from; the other way to a
transmission is taken online only. -/
def Fresh (p : Poll) (last : Option Timespec) : Prop :=
  match p.position with
  | .transmit _ _ => offline p.slave = true →
      ∃ now, last = some now ∧ p.slave.nextAssign = nextTickle now
  | .backoff => offline p.slave = false
  | .emptyTest => offline p.slave = false
  | .front => offline p.slave = false
  | _ => True

theorem fresh_poll (stepped : pollStep p t = some (p', events)) (fresh : Fresh p last) :
    Fresh p' ((readingIn p (.poll t)).or last) := by
  have timed := @tickled_now p p' t events
  cases pollStep_stepped stepped with
  | foundOnline here on => exact on
  | tickled here now due =>
    obtain ⟨_, set⟩ := timed here stepped nofun
    intro _
    refine ⟨t.now, ?_, set⟩
    simp [readingIn, here, reads]
  | backedOff here now due =>
    rw [Fresh, here] at fresh
    exact fresh
  | foundEmpty here empty =>
    rw [Fresh, here] at fresh
    intro off
    rw [fresh] at off
    cases off
  | foundMessage here some_left =>
    rw [Fresh, here] at fresh
    exact fresh
  | fronted here =>
    rw [Fresh, here] at fresh
    intro off
    rw [fresh] at off
    cases off
  | received sendmsg here t size port run =>
    by_cases positive : size > 0
    · rw [if_pos positive]
      trivial
    · rw [if_neg positive]
      trivial
  | accepted size sendmsg here addr willing =>
    cases sendmsg <;> trivial
  | _ => trivial

theorem nextTickle_normal {now : Timespec} (normal : now.Normal) : (nextTickle now).Normal := normal

theorem nextTickle_nanoseconds (now : Timespec) :
    (nextTickle now).nanoseconds = now.nanoseconds + 5000000000 := by
  simp only [nextTickle, Timespec.nanoseconds]
  omega

structure Rested (limit : Int) (p : Poll) (last : Option Timespec) : Prop where
  normal : p.slave.nextAssign.Normal
  late : limit ≤ p.slave.nextAssign.nanoseconds
  sending : match p.position with
    | .transmit _ _ => ∃ now, last = some now ∧ limit ≤ now.nanoseconds
    | .backoff => False
    | .emptyTest => False
    | .front => False
    | _ => True

theorem rested_poll {limit : Int} (stepped : pollStep p t = some (p', events)) (nowNormal : t.now.Normal)
    (off : offline p.slave = true) (rested : Rested limit p last) :
    Rested limit p' ((readingIn p (.poll t)).or last) := by
  obtain ⟨normal, late, sending⟩ := rested
  have timed := @tickled_now p p' t events
  cases pollStep_stepped stepped with
  | foundOnline here on =>
    rw [off] at on
    cases on
  | tickled here now due =>
    obtain ⟨due', set⟩ := timed here stepped nofun
    have reached := (Timespec.not_before_iff nowNormal normal).mp due'
    have set' : nextTickle now = nextTickle t.now := set
    refine ⟨?_, ?_, t.now, ?_, by omega⟩
    · rw [set']
      exact nextTickle_normal nowNormal
    · rw [set', nextTickle_nanoseconds]
      omega
    · simp [readingIn, here, reads]
  | backedOff here now due =>
    rw [here] at sending
    exact sending.elim
  | foundEmpty here empty =>
    rw [here] at sending
    exact sending.elim
  | foundMessage here some_left =>
    rw [here] at sending
    exact sending.elim
  | fronted here =>
    rw [here] at sending
    exact sending.elim
  | received sendmsg here t size port run =>
    refine ⟨normal, late, ?_⟩
    by_cases positive : size > 0
    · rw [if_pos positive]
      trivial
    · rw [if_neg positive]
      trivial
  | refused size sendmsg here addr unwilling =>
    obtain ⟨rxseq, noted⟩ := noteSeq_slave p.slave (inByte p.port 4 &&& 0x03)
    rw [noted]
    exact ⟨normal, late, trivial⟩
  | accepted size sendmsg here addr willing =>
    obtain ⟨rxseq, noted⟩ := noteSeq_slave p.slave (inByte p.port 4 &&& 0x03)
    rw [noted]
    refine ⟨normal, late, ?_⟩
    cases sendmsg <;> trivial
  | missed size here now =>
    rw [nak_offline off]
    exact ⟨normal, late, trivial⟩
  | _ => exact ⟨normal, late, trivial⟩

end Offline

section Online

variable {p p' : Poll} {t : Tick} {events : List Event} {last : Option Timespec}

theorem pollAfter_eq (now : Timespec) : pollAfter now = Timespec.carried now.sec (now.nsec + 10000000) := rfl

theorem pollAfter_normal {now : Timespec} (normal : now.Normal) : (pollAfter now).Normal := by
  obtain ⟨low, high⟩ := normal
  rw [pollAfter_eq, Timespec.carried_normal]
  omega

theorem pollAfter_nanoseconds (now : Timespec) :
    (pollAfter now).nanoseconds = now.nanoseconds + 10000000 := by
  rw [pollAfter_eq, Timespec.carried_nanoseconds, Timespec.nanoseconds]
  omega

theorem nak_online {slave : OsdpSlave} {now : Timespec} (on : offline (nak slave now).1 = false) :
    (nak slave now).1 = { slave with retry := slave.retry + 1, nextPoll := some (pollAfter now) } := by
  unfold nak at on ⊢
  by_cases off : offline slave = true
  · rw [if_pos off] at on
    rw [off] at on
    cases on
  · rw [if_neg off] at on ⊢
    dsimp only at on ⊢
    by_cases gone : offline { slave with retry := slave.retry + 1 } = true
    · rw [if_pos gone] at on
      rw [gone] at on
      cases on
    · rw [if_neg gone]

structure Waiting (nextPoll : Timespec) (p : Poll) (last : Option Timespec) : Prop where
  missed : 0 < p.slave.retry
  online : offline p.slave = false
  set : p.slave.nextPoll = some nextPoll
  sending : match p.position with
    | .idle => True
    | .offlineTest => True
    | .backoff => True
    | .emptyTest => ∃ now, last = some now ∧ nextPoll.nanoseconds ≤ now.nanoseconds
    | .front => ∃ now, last = some now ∧ nextPoll.nanoseconds ≤ now.nanoseconds
    | .transmit _ _ => ∃ now, last = some now ∧ nextPoll.nanoseconds ≤ now.nanoseconds
    | _ => False

theorem waiting_poll {nextPoll : Timespec} (stepped : pollStep p t = some (p', events))
    (nowNormal : t.now.Normal) (nextNormal : nextPoll.Normal)
    (unsent : ∀ seq payload sendmsg, .sent seq payload sendmsg ∉ events) (waiting : Waiting nextPoll p last) :
    Waiting nextPoll p' ((readingIn p (.poll t)).or last) := by
  obtain ⟨missed, online, set, sending⟩ := waiting
  have timed := @backedOff_now p p' t events
  cases pollStep_stepped stepped with
  | foundOffline here off =>
    rw [online] at off
    cases off
  | foundOnline here on => exact ⟨missed, online, set, trivial⟩
  | notYet here _ now _ _ early => exact ⟨missed, online, set, trivial⟩
  | backedOff here now due =>
    have due' := timed here stepped missed set nofun
    have reached := (Timespec.not_before_iff nowNormal nextNormal).mp due'
    refine ⟨missed, online, set, t.now, ?_, reached⟩
    simp [readingIn, here, reads, missed]
  | foundEmpty here empty =>
    rw [here] at sending
    have unread : readingIn p (.poll t) = none := by simp [readingIn, here, reads]
    rw [unread]
    exact ⟨missed, online, set, sending⟩
  | foundMessage here some_left =>
    rw [here] at sending
    have unread : readingIn p (.poll t) = none := by simp [readingIn, here, reads]
    rw [unread]
    exact ⟨missed, online, set, sending⟩
  | fronted here =>
    rw [here] at sending
    have unread : readingIn p (.poll t) = none := by simp [readingIn, here, reads]
    rw [unread]
    exact ⟨missed, online, set, sending⟩
  | flushFailed payload sendmsg here => exact ⟨missed, online, set, trivial⟩
  | transmitted payload sendmsg here t value port run => exact absurd List.mem_cons_self (unsent _ _ _)
  | transmitFailed payload sendmsg here t message port run => exact absurd List.mem_cons_self (unsent _ _ _)
  | overran payload sendmsg here t port run => exact absurd List.mem_cons_self (unsent _ _ _)
  | faulted here =>
    rcases here with ⟨here, _⟩ | ⟨here, _, unset⟩ | ⟨size, here, _⟩
    · rw [here] at sending
      exact sending.elim
    · rw [set] at unset
      cases unset
    · rw [here] at sending
      exact sending.elim
  | _ => simp [*] at sending

def Marked (i : Nat) (slave : OsdpSlave) (steps : List MasterStep) : Prop :=
  0 < slave.retry → offline slave = false →
    ∃ now, slave.nextPoll = some (pollAfter now) ∧ ∃ step ∈ steps, Misses i now step

theorem Marked.keep {i : Nat} {slave slave' : OsdpSlave} {steps : List MasterStep} (marked : Marked i slave steps)
    (retry : slave'.retry = slave.retry) (nextPoll : slave'.nextPoll = slave.nextPoll) (step : MasterStep) :
    Marked i slave' (steps ++ [step]) := by
  intro missed online
  have same : offline slave = offline slave' := by rw [offline, offline, retry]
  obtain ⟨now, set, step', member, misses⟩ := marked (retry ▸ missed) (same.trans online)
  exact ⟨now, nextPoll.trans set, step', List.mem_append_left _ member, misses⟩

theorem marked_poll {i : Nat} {steps : List MasterStep} {step : MasterStep}
    (stepped : pollStep p t = some (p', events)) (behind : step.action = .poll t ∧ step.before.pollSlave = i)
    (position : p.position = step.before.position) (marked : Marked i p.slave steps) :
    Marked i p'.slave (steps ++ [step]) := by
  have timed := @missed_now p p' t events
  cases pollStep_stepped stepped with
  | missed size here now =>
    obtain ⟨nak_eq, _⟩ := timed here stepped
    have nak_eq' : (nak p.slave now).1 = (nak p.slave t.now).1 := nak_eq
    intro _ online
    change offline (nak p.slave now).1 = false at online
    rw [nak_eq'] at online
    refine ⟨t.now, ?_, step, by simp, behind.2, ⟨size, position ▸ here⟩, t, behind.1, rfl⟩
    change (nak p.slave now).1.nextPoll = _
    rw [nak_eq', nak_online online]
  | refused size sendmsg here addr unwilling =>
    obtain ⟨rxseq, noted⟩ := noteSeq_slave p.slave (inByte p.port 4 &&& 0x03)
    rw [noted]
    exact marked.keep rfl rfl step
  | accepted size sendmsg here addr willing =>
    intro missed
    exact absurd missed (Int.lt_irrefl 0)
  | _ => exact marked.keep rfl rfl step

end Online

section Runs

variable {config : SerialConfig} {i : Nat} {master : Master} {p : Poll} {step : MasterStep}
  {steps : List MasterStep}

theorem lastReading_step {read : Option Timespec} (reading : readingOf i step = read) :
    lastReading i (steps ++ [step]) = read.or (lastReading i steps) := by
  rw [lastReading_snoc, reading]

theorem call_eq {p' : Poll} {port : Protocol} {crcCount timeoutCount : Nat} {events : List Event}
    (moved : slaveStep config p (.call port crcCount timeoutCount) = some (p', events)) :
    p' = ⟨p.slave, port, crcCount, timeoutCount, .offlineTest⟩ ∧ p.position = .idle := by
  simp only [slaveStep] at moved
  split at moved
  next ready =>
    simp only [Option.some.injEq, Prod.mk.injEq] at moved
    exact ⟨moved.1.symm, ready.1⟩
  · cases moved

structure SamePace (slave slave' : OsdpSlave) : Prop where
  retry : slave'.retry = slave.retry
  nextAssign : slave'.nextAssign = slave.nextAssign
  nextPoll : slave'.nextPoll = slave.nextPoll

theorem SamePace.offline {slave slave' : OsdpSlave} (same : SamePace slave slave') :
    offline slave' = offline slave := by
  rw [Slave.offline, Slave.offline, same.retry]

theorem message_eq {p' : Poll} {components : List Bytes} {payload : Bytes} {events : List Event}
    (moved : slaveStep config p (.message components payload) = some (p', events)) :
    ∃ slave, p' = { p with slave := slave } ∧ SamePace p.slave slave := by
  simp only [slaveStep, Option.some.injEq, Prod.mk.injEq] at moved
  obtain ⟨more, enabled, slave_eq⟩ := deliver_slave p.slave components payload
  exact ⟨_, moved.1.symm, by rw [slave_eq], by rw [slave_eq], by rw [slave_eq]⟩

/-- An invariant of a slave's state and the steps so far, from what the steps of its calls, their
beginnings and messages keep. -/
theorem followed_step {I : Poll → List MasterStep → Prop}
    (stepped : Bus.step step.before step.action = some (step.after, step.events))
    (still : readingOf i step = none → ∀ slave, SamePace p.slave slave →
      I { p with slave := slave } (steps ++ [step]))
    (called : readingOf i step = none → p.position = .idle → ∀ port crcCount timeoutCount,
      I ⟨p.slave, port, crcCount, timeoutCount, .offlineTest⟩ (steps ++ [step]))
    (polled : ∀ t p', step.action = .poll t → step.before.pollSlave = i →
      pollStep p t = some (p', eventsOf i step.events) → readingOf i step = readingIn p (.poll t) →
      I p' (steps ++ [step]))
    (follows : Follows config i step.before p) :
    ∃ p', Follows config i step.after p' ∧ I p' (steps ++ [step]) := by
  rcases master_step follows stepped with ⟨still', unread, _, _⟩ | ⟨p', move, follows', behind, moved, reading⟩
  · exact ⟨p, still', still unread p.slave ⟨rfl, rfl, rfl⟩⟩
  · refine ⟨p', follows', ?_⟩
    cases move with
    | call port crcCount timeoutCount =>
      obtain ⟨p'_eq, idle⟩ := call_eq moved
      rw [p'_eq]
      exact called reading idle port crcCount timeoutCount
    | poll t => exact polled t p' behind.1 behind.2 moved reading
    | message components payload =>
      obtain ⟨slave, p'_eq, same⟩ := message_eq moved
      rw [p'_eq]
      exact still reading slave same

theorem counted_poll {t : Tick} {p' : Poll} {events : List Event} (stepped : pollStep p t = some (p', events))
    (counted : 0 ≤ p.slave.retry) : 0 ≤ p'.slave.retry := by
  cases pollStep_stepped stepped with
  | refused size sendmsg here addr unwilling =>
    obtain ⟨rxseq, noted⟩ := noteSeq_slave p.slave (inByte p.port 4 &&& 0x03)
    rw [noted]
    exact counted
  | accepted size sendmsg here addr willing => exact le_refl 0
  | missed size here now =>
    change 0 ≤ (nak p.slave now).1.retry
    rw [OfflineDetection.nak_retry]
    split
    · exact counted
    · omega
  | _ => exact counted

structure Paced (i : Nat) (p : Poll) (steps : List MasterStep) : Prop where
  counted : 0 ≤ p.slave.retry
  fresh : Fresh p (lastReading i steps)
  marked : Marked i p.slave steps

theorem paced_step (stepped : Bus.step step.before step.action = some (step.after, step.events))
    (follows : Follows config i step.before p) (paced : Paced i p steps) :
    ∃ p', Follows config i step.after p' ∧ Paced i p' (steps ++ [step]) := by
  obtain ⟨counted, fresh, marked⟩ := paced
  apply followed_step stepped _ _ _ follows
  · intro unread slave same
    refine ⟨same.retry ▸ counted, ?_, marked.keep same.retry same.nextPoll step⟩
    rw [lastReading_step unread]
    simp only [Fresh] at fresh ⊢
    rw [same.offline, same.nextAssign]
    exact fresh
  · intro _ _ _ _ _
    exact ⟨counted, trivial, marked.keep rfl rfl step⟩
  · intro t p' action selected polled reading
    have position : p.position = step.before.position := by rw [follows.position, if_pos selected]
    refine ⟨counted_poll polled counted, ?_, marked_poll polled ⟨action, selected⟩ position marked⟩
    rw [lastReading_step reading]
    exact fresh_poll polled fresh

theorem misses_stepped {now : Timespec}
    (stepped : Bus.step step.before step.action = some (step.after, step.events)) (misses : Misses i now step)
    (follows : Follows config i step.before p) :
    ∃ p', Follows config i step.after p' ∧ p'.slave = (nak p.slave now).1 ∧ p'.position = .idle := by
  obtain ⟨selected, ⟨size, here⟩, t, action, now_eq⟩ := misses
  have position : p.position = .failed size := by rw [follows.position, if_pos selected, here]
  rcases master_step follows stepped with ⟨_, _, _, idle⟩ | ⟨p', move, follows', behind, moved, _⟩
  · have impossible := idle selected t action
    rw [here] at impossible
    cases impossible
  · refine ⟨p', follows', ?_⟩
    cases move with
    | call port crcCount timeoutCount =>
      have idle := (call_eq moved).2
      rw [position] at idle
      cases idle
    | message components payload =>
      obtain ⟨topic, told, _⟩ := behind
      rw [action] at told
      cases told
    | poll t' =>
      have same := behind.1
      rw [action] at same
      cases same
      rw [← now_eq]
      exact missed_now position moved

theorem rested_step {limit : Int} (stepped : Bus.step step.before step.action = some (step.after, step.events))
    (normal : ∀ t, step.action = .poll t → t.now.Normal) (off : offlineIn i step.before = true)
    (follows : Follows config i step.before p) (rested : Rested limit p (lastReading i steps)) :
    ∃ p', Follows config i step.after p' ∧ Rested limit p' (lastReading i (steps ++ [step])) := by
  have off' : offline p.slave = true := by
    rw [offlineIn, follows.slave] at off
    exact off
  apply followed_step (I := fun p steps => Rested limit p (lastReading i steps)) stepped _ _ _ follows
  · intro unread slave same
    rw [lastReading_step unread]
    exact ⟨by rw [same.nextAssign]; exact rested.normal, by rw [same.nextAssign]; exact rested.late,
      rested.sending⟩
  · intro _ _ _ _ _
    exact ⟨rested.normal, rested.late, trivial⟩
  · intro t p' action _ polled reading
    rw [lastReading_step reading]
    exact rested_poll polled (normal t action) off' rested

theorem waiting_step {nextPoll : Timespec} (nextNormal : nextPoll.Normal)
    (stepped : Bus.step step.before step.action = some (step.after, step.events))
    (normal : ∀ t, step.action = .poll t → t.now.Normal) (unsent : ¬Transmits i step)
    (follows : Follows config i step.before p) (waiting : Waiting nextPoll p (lastReading i steps)) :
    ∃ p', Follows config i step.after p' ∧ Waiting nextPoll p' (lastReading i (steps ++ [step])) := by
  apply followed_step (I := fun p steps => Waiting nextPoll p (lastReading i steps)) stepped _ _ _ follows
  · intro unread slave same
    rw [lastReading_step unread]
    exact ⟨by rw [same.retry]; exact waiting.missed, by rw [same.offline]; exact waiting.online,
      by rw [same.nextPoll]; exact waiting.set, waiting.sending⟩
  · intro _ _ _ _ _
    exact ⟨waiting.missed, waiting.online, waiting.set, trivial⟩
  · intro t p' action _ polled reading
    rw [lastReading_step reading]
    refine waiting_poll polled (normal t action) nextNormal ?_ waiting
    intro seq payload sendmsg member
    exact unsent ⟨seq, payload, sendmsg, mem_eventsOf.mp member⟩

theorem paced_path {texts : List Bytes} {text : Bytes} (configured : texts[i]? = some text)
    (path : Path (bus config texts) (bus config texts).start steps master) :
    ∃ p, Follows config i master p ∧ Paced i p steps := by
  have start : Follows config i (bus config texts).start (slaveSystem config text).start := by
    refine ⟨?_, (ite_self _).symm, fun busy => absurd rfl busy, rfl⟩
    simp [bus, slaveSystem, configured]
  have paced : Paced i (slaveSystem config text).start [] := by
    have above : (slaveSystem config text).start.slave.retry = OSDPSLAVE_RETRY_MAX + 1 := rfl
    refine ⟨by rw [above]; decide, trivial, ?_⟩
    intro _ online
    have off : offline (addSlave text) = true := rfl
    exact absurd (off.symm.trans online) (by decide)
  apply path.invariant (I := fun master steps => ∃ p, Follows config i master p ∧ Paced i p steps) []
    ⟨_, start, paced⟩
  intro earlier step _ holds stepped
  obtain ⟨p, follows, paced⟩ := holds
  exact paced_step stepped follows paced

theorem transmits_move {p' : Poll} {move : Move} {events : List Event} {seq : UInt8} {payload : Bytes}
    {sendmsg : Bool} (moved : slaveStep config p move = some (p', events))
    (sent : .sent seq payload sendmsg ∈ events) :
    p.position = .transmit payload sendmsg ∧ p'.slave = p.slave ∧
      (p'.position = .receive sendmsg ∨ p'.position = .idle ∨ p'.position = .fault) ∧
      readingIn p move = none := by
  cases move with
  | call port crcCount timeoutCount =>
    simp only [slaveStep] at moved
    split at moved
    · cases moved
      cases sent
    · cases moved
  | message components payload' =>
    simp only [slaveStep, Option.some.injEq, Prod.mk.injEq] at moved
    rw [← moved.2] at sent
    have unsent := forall_deliver (P := fun event => event ≠ .sent seq payload sendmsg)
      (fun _ => Event.noConfusion) (fun _ _ => Event.noConfusion) p.slave components payload' _ sent
    exact absurd rfl unsent
  | poll t =>
    have unread {payload' : Bytes} {sendmsg' : Bool} (here : p.position = .transmit payload' sendmsg') :
        readingIn p (.poll t) = none := by simp [readingIn, here, reads]
    cases pollStep_stepped moved with
    | transmitted payload' sendmsg' here t' value port run =>
      cases List.mem_singleton.mp sent
      exact ⟨here, rfl, Or.inl rfl, unread here⟩
    | transmitFailed payload' sendmsg' here t' message port run =>
      have same : Event.sent seq payload sendmsg = .sent p.slave.txseq payload' sendmsg' := by simpa using sent
      cases same
      exact ⟨here, rfl, Or.inr (Or.inl rfl), unread here⟩
    | overran payload' sendmsg' here t' port run =>
      cases List.mem_singleton.mp sent
      exact ⟨here, rfl, Or.inr (Or.inr rfl), unread here⟩
    | accepted size sendmsg' here addr willing =>
      have unsent := forall_published (P := fun event => event ≠ .sent seq payload sendmsg)
        (fun _ => Event.noConfusion) _ _ (List.mem_of_ne_of_mem Event.noConfusion sent)
      exact absurd rfl unsent
    | missed size here now =>
      rcases List.mem_append.mp sent with told | ended
      · have unsent := forall_published (P := fun event => event ≠ .sent seq payload sendmsg)
          (fun _ => Event.noConfusion) _ _ told
        exact absurd rfl unsent
      · cases List.mem_singleton.mp ended
    | _ => simp at sent

theorem transmits_stepped (stepped : Bus.step step.before step.action = some (step.after, step.events))
    (transmits : Transmits i step) (follows : Follows config i step.before p) :
    ∃ payload sendmsg p', p.position = .transmit payload sendmsg ∧ Follows config i step.after p' ∧
      p'.slave = p.slave ∧
      (p'.position = .receive sendmsg ∨ p'.position = .idle ∨ p'.position = .fault) ∧
      readingOf i step = none := by
  obtain ⟨seq, payload, sendmsg, sent⟩ := transmits
  have sent' := mem_eventsOf.mpr sent
  rcases master_step follows stepped with ⟨_, _, quiet, _⟩ | ⟨p', move, follows', _, moved, reading⟩
  · rw [quiet] at sent'
    cases sent'
  · obtain ⟨here, same, gone, unread⟩ := transmits_move moved sent'
    exact ⟨payload, sendmsg, p', here, follows', same, gone, reading.trans unread⟩

theorem mem_clocksOf {t : Tick} (member : step ∈ steps) (action : step.action = .poll t) :
    t.now ∈ clocksOf steps := by
  refine List.mem_filterMap.mpr ⟨step, member, ?_⟩
  simp only [action]

theorem lastReading_mem {now : Timespec} (reading : lastReading i steps = some now) : now ∈ clocksOf steps := by
  obtain ⟨step, member, read⟩ := List.exists_of_findSome?_eq_some reading
  have member' := List.mem_reverse.mp member
  simp only [readingOf] at read
  split at read
  next t action =>
    split at read
    · cases read
      exact mem_clocksOf member' action
    · cases read
  · cases read

theorem path_at {sys : System Master Action (Nat × Event)} {start master : Master} {before after : List MasterStep}
    (path : Path sys start (before ++ step :: after) master) :
    Path sys start before step.before ∧ sys.step step.before step.action = some (step.after, step.events) ∧
      Path sys step.after after master := by
  obtain ⟨middle, first, second⟩ := path.split
  cases second with
  | cons _ here stepped rest => exact ⟨here ▸ first, stepped, rest⟩

variable {texts : List Bytes} {text : Bytes} {before middle after : List MasterStep} {first second : MasterStep}

/-- Between two steps: what holds of the slave after the first and is kept up to the second says when the second,
a transmission, may have read the clock. -/
theorem next_transmission {J : Poll → Option Timespec → Prop} (limit : Int) {p' : Poll}
    (path : Path (bus config texts) first.after (middle ++ second :: after) master)
    (follows : Follows config i first.after p') (holds : J p' (lastReading i (before ++ [first])))
    (kept : ∀ (steps : List MasterStep) (step : MasterStep) (p : Poll), step ∈ middle →
      Bus.step step.before step.action = some (step.after, step.events) → Follows config i step.before p →
        J p (lastReading i steps) →
          ∃ p', Follows config i step.after p' ∧ J p' (lastReading i (steps ++ [step])))
    (sending : ∀ (p : Poll) (last : Option Timespec) (payload : Bytes) (sendmsg : Bool), J p last →
      p.position = .transmit payload sendmsg → ∃ now, last = some now ∧ limit ≤ now.nanoseconds)
    (transmits : Transmits i second) :
    ∃ later, lastReading i (before ++ first :: middle) = some later ∧ limit ≤ later.nanoseconds := by
  obtain ⟨segment, stepped, _⟩ := path_at path
  have all := segment.invariant (I := fun master steps => ∃ p, Follows config i master p ∧
      J p (lastReading i steps)) (before ++ [first]) ⟨p', follows, holds⟩ fun steps step member before stepped =>
    before.elim fun p both => kept steps step p member stepped both.1 both.2
  obtain ⟨q, follows', holds'⟩ := all
  obtain ⟨payload, sendmsg, _, here, _⟩ := transmits_stepped stepped transmits follows'
  rw [List.append_assoc, List.singleton_append] at holds'
  exact sending q _ payload sendmsg holds' here

theorem offline_apart (configured : texts[i]? = some text)
    (path : Path (bus config texts) (bus config texts).start
      (before ++ first :: (middle ++ second :: after)) master)
    (clocked : Clocked (before ++ first :: (middle ++ second :: after)))
    (transmits : Transmits i first) (again : Transmits i second)
    (off : ∀ step ∈ first :: middle, offlineIn i step.before = true) :
    ∃ earlier later, lastReading i before = some earlier ∧
      lastReading i (before ++ first :: middle) = some later ∧
      earlier.nanoseconds + 5000000000 ≤ later.nanoseconds := by
  obtain ⟨start, stepped, rest⟩ := path_at path
  obtain ⟨p, follows, paced⟩ := paced_path configured start
  obtain ⟨payload, sendmsg, p', here, follows', same, gone, unread⟩ := transmits_stepped stepped transmits follows
  have fresh := paced.fresh
  have off' : offline p.slave = true := by
    have off_first := off first List.mem_cons_self
    rw [offlineIn, follows.slave] at off_first
    exact off_first
  rw [Fresh, here] at fresh
  obtain ⟨earlier, reading, set⟩ := fresh off'
  have normal : earlier.Normal := by
    apply clocked.normal
    rw [clocksOf, List.filterMap_append]
    exact List.mem_append_left _ (lastReading_mem reading)
  have rested : Rested (earlier.nanoseconds + 5000000000) p' (lastReading i (before ++ [first])) := by
    refine ⟨?_, ?_, ?_⟩
    · rw [same, set]
      exact nextTickle_normal normal
    · rw [same, set, nextTickle_nanoseconds]
    · rcases gone with receiving | idle | faulted
      · rw [receiving]
        trivial
      · rw [idle]
        trivial
      · rw [faulted]
        trivial
  have next := next_transmission (J := Rested (earlier.nanoseconds + 5000000000)) (earlier.nanoseconds + 5000000000)
    rest follows' rested ?_ ?_ again
  · obtain ⟨later, reading', late⟩ := next
    exact ⟨earlier, later, reading, reading', late⟩
  · intro steps step q member stepped follows rested
    refine rested_step stepped ?_ (off step (List.mem_cons_of_mem _ member)) follows rested
    intro t action
    exact clocked.normal _ (mem_clocksOf (by simp [member]) action)
  · intro q last payload sendmsg rested here
    have sending := rested.sending
    rwa [here] at sending

theorem missed_apart {now : Timespec} (configured : texts[i]? = some text)
    (path : Path (bus config texts) (bus config texts).start
      (before ++ first :: (middle ++ second :: after)) master)
    (clocked : Clocked (before ++ first :: (middle ++ second :: after)))
    (misses : Misses i now first) (on : offlineIn i first.after = false)
    (unsent : ∀ step ∈ middle, ¬Transmits i step) (transmits : Transmits i second) :
    ∃ later, lastReading i (before ++ first :: middle) = some later ∧
      now.nanoseconds + 10000000 ≤ later.nanoseconds ∧
      ∀ t, second.action = .poll t → later.nanoseconds ≤ t.now.nanoseconds := by
  obtain ⟨start, stepped, rest⟩ := path_at path
  obtain ⟨p, follows, paced⟩ := paced_path configured start
  obtain ⟨p', follows', nak_eq, idle⟩ := misses_stepped stepped misses follows
  have online : offline (nak p.slave now).1 = false := by
    rw [offlineIn, follows'.slave, Option.any_some, nak_eq] at on
    exact on
  have normal : now.Normal := by
    obtain ⟨_, _, t, action, now_eq⟩ := misses
    rw [← now_eq]
    exact clocked.normal _ (mem_clocksOf (by simp) action)
  have waiting : Waiting (pollAfter now) p' (lastReading i (before ++ [first])) := by
    have counted := paced.counted
    rw [nak_online online] at nak_eq online
    refine ⟨?_, ?_, ?_, ?_⟩
    · rw [nak_eq]
      change 0 < p.slave.retry + 1
      omega
    · rw [nak_eq, online]
    · rw [nak_eq]
    · rw [idle]
      trivial
  have next := next_transmission (J := Waiting (pollAfter now)) (pollAfter now).nanoseconds rest follows' waiting ?_ ?_ transmits
  · obtain ⟨later, reading, late⟩ := next
    rw [pollAfter_nanoseconds] at late
    refine ⟨later, reading, late, ?_⟩
    intro t action
    have sorted := clocked.sorted
    rw [← List.cons_append, ← List.append_assoc, clocksOf, List.filterMap_append] at sorted
    exact (List.pairwise_append.mp sorted).2.2 later (lastReading_mem reading) t.now
      (mem_clocksOf List.mem_cons_self action)
  · intro steps step q member stepped follows waiting
    refine waiting_step (pollAfter_normal normal) stepped ?_ (unsent step member) follows waiting
    intro t action
    exact clocked.normal _ (mem_clocksOf (by simp [member]) action)
  · intro q last payload sendmsg waiting here
    have sending := waiting.sending
    rwa [here] at sending

theorem compared_set {slave : OsdpSlave} (configured : texts[i]? = some text)
    (path : Path (bus config texts) (bus config texts).start (before ++ step :: after) master)
    (selected : step.before.pollSlave = i) (here : step.before.position = .backoff)
    (there : step.before.slaves[i]? = some slave) (missed : 0 < slave.retry) :
    ∃ now, slave.nextPoll = some (pollAfter now) ∧ ∃ earlier ∈ before, Misses i now earlier := by
  obtain ⟨start, _, _⟩ := path_at path
  obtain ⟨p, follows, paced⟩ := paced_path configured start
  have slave_eq : p.slave = slave := Option.some.inj (follows.slave.symm.trans there)
  have position : p.position = .backoff := by rw [follows.position, if_pos selected, here]
  have online := paced.fresh
  rw [Fresh, position] at online
  rw [← slave_eq] at missed ⊢
  exact paced.marked missed online

/-- In every run with a clock that never goes back: two transmissions to a slave that is offline from
the one to the other follow readings at least 5 seconds apart; after a missed poll that leaves the slave
online, the next transmission to it follows a reading at least 10 ms after that of `nak`; and
`m_next_poll` is compared only where `nak` has set it. -/
theorem polls_paced (config : SerialConfig) (texts : List Bytes) (i : Nat) (text : Bytes)
    (configured : texts[i]? = some text) (master : Master) (steps : List MasterStep)
    (path : Path (bus config texts) (bus config texts).start steps master) (clocked : Clocked steps) :
    (∀ before first middle second after, steps = before ++ first :: (middle ++ second :: after) →
      Transmits i first → Transmits i second → (∀ step ∈ first :: middle, offlineIn i step.before = true) →
      ∃ earlier later, lastReading i before = some earlier ∧
        lastReading i (before ++ first :: middle) = some later ∧
        earlier.nanoseconds + 5000000000 ≤ later.nanoseconds) ∧
    (∀ before missed middle second after now, steps = before ++ missed :: (middle ++ second :: after) →
      Misses i now missed → offlineIn i missed.after = false → (∀ step ∈ middle, ¬Transmits i step) →
      Transmits i second →
      ∃ later, lastReading i (before ++ missed :: middle) = some later ∧
        now.nanoseconds + 10000000 ≤ later.nanoseconds ∧
        ∀ t, second.action = .poll t → later.nanoseconds ≤ t.now.nanoseconds) ∧
    (∀ before step after slave, steps = before ++ step :: after → step.before.pollSlave = i →
      step.before.position = .backoff → step.before.slaves[i]? = some slave → 0 < slave.retry →
      ∃ now, slave.nextPoll = some (pollAfter now) ∧ ∃ earlier ∈ before, Misses i now earlier) := by
  refine ⟨?_, ?_, ?_⟩
  · intro before first middle second after split transmits again off
    subst split
    exact offline_apart configured path clocked transmits again off
  · intro before missed middle second after now split misses on unsent transmits
    subst split
    exact missed_apart configured path clocked misses on unsent transmits
  · intro before step after slave split selected here there missed
    subst split
    exact compared_set configured path selected here there missed

def silence : List Action := polls 7 ⟨0, 0⟩ [.eagain ⟨1, 0⟩] ++ polls 7 ⟨5, 0⟩ [.eagain ⟨6, 0⟩]

def sends (step : MasterStep) : Bool := step.events.any fun tagged => match tagged with
  | (0, .sent _ _ _) => true
  | _ => false

theorem transmits_of_sends {step : MasterStep} (sent : sends step = true) : Transmits 0 step := by
  obtain ⟨⟨tag, event⟩, member, is_sent⟩ := List.any_eq_true.mp sent
  split at is_sent
  next seq payload sendmsg same =>
    cases same
    exact ⟨seq, payload, sendmsg, member⟩
  · cases is_sent

theorem silence_walked : ∃ before first middle second after master,
    Path (bus plainPort [ascii "5"]) (bus plainPort [ascii "5"]).start
      (before ++ first :: (middle ++ second :: after)) master ∧
    Clocked (before ++ first :: (middle ++ second :: after)) ∧ sends first = true ∧ sends second = true ∧
    ∀ step ∈ first :: middle, offlineIn 0 step.before = true := by
  have checked : (walk (bus plainPort [ascii "5"]) (bus plainPort [ascii "5"]).start silence).any
      (fun (reached : List MasterStep × Master) => reached.1[4]?.any sends && reached.1[11]?.any sends &&
        ((reached.1.drop 4).take 7).all (fun step => offlineIn 0 step.before) &&
        decide (∀ now ∈ clocksOf reached.1, now.Normal) &&
        decide ((clocksOf reached.1).Pairwise fun earlier later => earlier.nanoseconds ≤ later.nanoseconds)) =
      true := by
    decide +kernel
  obtain ⟨⟨steps, master⟩, walked, good⟩ := (Option.any_eq_true _ _).mp checked
  have path := path_of_walk walked
  simp only [Bool.and_eq_true, decide_eq_true_eq, List.all_eq_true, Option.any_eq_true] at good
  obtain ⟨⟨⟨⟨⟨first, at_first, sent⟩, second, at_second, again⟩, off⟩, normal⟩, sorted⟩ := good
  have cut {n : Nat} {step : MasterStep} (there : steps[n]? = some step) :
      steps.drop n = step :: steps.drop (n + 1) := by
    obtain ⟨inside, same⟩ := List.getElem?_eq_some_iff.mp there
    rw [List.drop_eq_getElem_cons inside, same]
  have rest : (steps.drop 5).drop 6 = second :: steps.drop 12 := by
    rw [List.drop_drop]
    exact cut at_second
  have split : steps = steps.take 4 ++ first :: ((steps.drop 5).take 6 ++ second :: steps.drop 12) := by
    rw [← rest, List.take_append_drop, ← cut at_first, List.take_append_drop]
  have all : (steps.drop 4).take 7 = first :: (steps.drop 5).take 6 := by
    rw [cut at_first, List.take_succ_cons]
  rw [all] at off
  rw [split] at path normal sorted
  exact ⟨_, first, _, second, _, master, path, ⟨normal, sorted⟩, sent, again, off⟩

theorem polls_paced_silence : ∃ before first middle second after earlier later master,
    Path (bus plainPort [ascii "5"]) (bus plainPort [ascii "5"]).start
      (before ++ first :: (middle ++ second :: after)) master ∧
    Transmits 0 first ∧ Transmits 0 second ∧ lastReading 0 before = some earlier ∧
    lastReading 0 (before ++ first :: middle) = some later ∧
    earlier.nanoseconds + 5000000000 ≤ later.nanoseconds := by
  obtain ⟨before, first, middle, second, after, master, path, clocked, sent, again, off⟩ := silence_walked
  obtain ⟨apart, _, _⟩ := polls_paced plainPort [ascii "5"] 0 (ascii "5") rfl master _ path clocked
  obtain ⟨earlier, later, reading, reading', late⟩ := apart before first middle second after rfl
    (transmits_of_sends sent) (transmits_of_sends again) off
  exact ⟨before, first, middle, second, after, earlier, later, master, path, transmits_of_sends sent,
    transmits_of_sends again, reading, reading', late⟩

end Runs

end OsdpMaster.Pacing
