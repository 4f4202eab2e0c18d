import OsdpMaster.BlobCount

/-!
What one statement of a blob operation leaves alone: the variables and what is in
progress of the other threads, and the bytes of all containers but the one it writes.
-/

namespace OsdpMaster.BlobFrame
open OsdpMaster.Blob OsdpMaster.Lib.RefCount

section Heap

def contentAt (heap : Heap) (c : Nat) : Option Bytes := (heap[c]?).map fun cell => cell.content

def SameContents (heap heap' : Heap) : Prop := heap'.length = heap.length ∧ contentAt heap' = contentAt heap

variable {heap heap' : Heap} {c : Nat}

theorem access_there {cell : Cell 32 Bytes} (found : access heap c = some cell) : heap[c]? = some cell := by
  unfold access at found
  split at found
  · cases found
  next there =>
    split at found
    · cases found
    · exact there.trans found

theorem sameContents_set {cell cell' : Cell 32 Bytes} (there : heap[c]? = some cell) (same : cell'.content = cell.content) :
    SameContents heap (heap.set c cell') := by
  refine ⟨List.length_set, ?_⟩
  funext d
  by_cases here : c = d
  · subst here
    rw [contentAt, contentAt, List.getElem?_set_self (List.getElem?_eq_some_iff.mp there).1, there]
    exact congrArg some same
  · rw [contentAt, contentAt, List.getElem?_set_ne here]

theorem sameContents_refAny {pointer : Option Nat} (found : refAny heap pointer = some heap') :
    SameContents heap heap' := by
  cases pointer with
  | none =>
    cases found
    exact ⟨rfl, rfl⟩
  | some c =>
    obtain ⟨cell, there, same⟩ := Option.map_eq_some_iff.mp found
    subst same
    exact sameContents_set (access_there there) rfl

theorem sameContents_unrefAny {pointer : Option Nat} (found : unrefAny heap pointer = some heap') :
    SameContents heap heap' := by
  cases pointer with
  | none =>
    cases found
    exact ⟨rfl, rfl⟩
  | some c =>
    obtain ⟨cell, there, same⟩ := Option.map_eq_some_iff.mp found
    subst same
    exact sameContents_set (access_there there) rfl

theorem contentAt_allocate (heap : Heap) (content : Bytes) (d : Nat) :
    contentAt (allocate heap content) d = if d = heap.length then some content else contentAt heap d := by
  rw [contentAt, allocate, List.getElem?_append]
  split
  next inside => rw [if_neg (by omega), contentAt]
  next outside =>
    split
    next here =>
      subst here
      simp
    next further =>
      rw [List.getElem?_eq_none (by simp; omega), contentAt, List.getElem?_eq_none (by omega)]

theorem contentAt_store {content : Bytes} (stored : store heap c content = some heap') :
    heap'.length = heap.length ∧ c < heap.length ∧
      ∀ d, contentAt heap' d = if d = c then some content else contentAt heap d := by
  obtain ⟨cell, there, same⟩ := Option.map_eq_some_iff.mp stored
  subst same
  have inside := (List.getElem?_eq_some_iff.mp (access_there there)).1
  refine ⟨List.length_set, inside, ?_⟩
  intro d
  split
  next here =>
    subst here
    rw [contentAt, List.getElem?_set_self inside]
    rfl
  next other => rw [contentAt, contentAt, List.getElem?_set_ne (Ne.symm other)]

end Heap

section Working

variable {s : State} {β : Type}

theorem withVar_working {v : Nat} {next : BlobVar → State} (working : (s.withVar v next).fault = false) :
    ∃ var, s.vars[v]? = some var ∧ var.life ≠ .dead ∧ s.withVar v next = next var := by
  unfold State.withVar at working ⊢
  split at working
  · cases working
  next var there =>
    split at working
    · cases working
    next alive => exact ⟨var, there, alive, if_neg alive⟩

theorem withSome_working {found : Option β} {next : β → State} (working : (s.withSome found next).fault = false) :
    ∃ result, found = some result ∧ s.withSome found next = next result := by
  unfold State.withSome at working ⊢
  split at working
  · cases working
  next result => exact ⟨result, rfl, rfl⟩

end Working

section Frame

def written (vars : List BlobVar) : Operation → Option Nat
  | .update target _ => pointsTo vars target
  | _ => none

/-- What a statement of a thread leaves alone: all but the variable and the container it writes. -/
structure Keeps (s s' : State) (thread : Nat) (target container : Option Nat) : Prop where
  threads : ∀ other, other ≠ thread → s'.threads[other]? = s.threads[other]?
  vars : ∀ v, v < s.vars.length → target ≠ some v → s'.vars[v]? = s.vars[v]?
  contents : ∀ c, c < s.heap.length → container ≠ some c → contentAt s'.heap c = contentAt s.heap c
  within : s'.overrun = s.overrun

variable {s s' : State} {thread v : Nat} {target container : Option Nat}

theorem withVar_rule {P : State → Prop} {next : BlobVar → State} (fails : P s.fail)
    (goes : ∀ var, s.vars[v]? = some var → P (next var)) : P (s.withVar v next) := by
  unfold State.withVar
  split
  · exact fails
  next var there =>
    split
    · exact fails
    · exact goes var there

theorem withSome_rule {P : State → Prop} {β : Type} {found : Option β} {next : β → State} (fails : P s.fail)
    (goes : ∀ result, found = some result → P (next result)) : P (s.withSome found next) := by
  cases found with
  | none => exact fails
  | some result => exact goes result rfl

theorem keeps_fail : Keeps s s.fail thread target container := ⟨fun _ _ => rfl, fun _ _ _ => rfl, fun _ _ _ => rfl, rfl⟩

theorem keeps_withVar {next : BlobVar → State}
    (keeps : ∀ var, s.vars[v]? = some var → Keeps s (next var) thread target container) :
    Keeps s (s.withVar v next) thread target container :=
  withVar_rule (P := fun after => Keeps s after thread target container) keeps_fail keeps

theorem keeps_withSome {β : Type} {found : Option β} {next : β → State}
    (keeps : ∀ result, found = some result → Keeps s (next result) thread target container) :
    Keeps s (s.withSome found next) thread target container :=
  withSome_rule (P := fun after => Keeps s after thread target container) keeps_fail keeps

theorem threads_set (slot : Option Running) :
    ∀ other, other ≠ thread → (s.threads.set thread slot)[other]? = s.threads[other]? :=
  fun _ different => List.getElem?_set_ne (Ne.symm different)

theorem vars_append (var : BlobVar) :
    ∀ v, v < s.vars.length → target ≠ some v → (s.vars ++ [var])[v]? = s.vars[v]? :=
  fun _ inside _ => List.getElem?_append_left inside

theorem vars_set (var : BlobVar) :
    ∀ w, w < s.vars.length → some v ≠ some w → (s.vars.set v var)[w]? = s.vars[w]? :=
  fun _ _ other => List.getElem?_set_ne fun same => other (congrArg some same)

theorem contents_allocate (content : Bytes) :
    ∀ c, c < s.heap.length → container ≠ some c → contentAt (allocate s.heap content) c = contentAt s.heap c :=
  fun c inside _ => by rw [contentAt_allocate, if_neg (Nat.ne_of_lt inside)]

theorem contents_same {heap : Heap} (same : SameContents s.heap heap) :
    ∀ c, c < s.heap.length → container ≠ some c → contentAt heap c = contentAt s.heap c :=
  fun c _ _ => congrFun same.2 c

theorem contents_store {heap : Heap} {made : Nat} {content : Bytes} (stored : store s.heap made content = some heap) :
    ∀ c, c < s.heap.length → some made ≠ some c → contentAt heap c = contentAt s.heap c :=
  fun c _ other => by rw [(contentAt_store stored).2.2, if_neg fun same => other (congrArg some same.symm)]

theorem start_keeps (s : State) (thread : Nat) (operation : Operation) :
    Keeps s (start s thread operation) thread operation.target (written s.vars operation) := by
  cases operation with
  | construct owner content =>
    cases content with
    | none => exact ⟨fun _ _ => rfl, vars_append _, fun _ _ _ => rfl, rfl⟩
    | some content => exact ⟨fun _ _ => rfl, vars_append _, contents_allocate content, rfl⟩
  | copy owner source =>
    refine keeps_withVar fun origin _ => keeps_withSome fun heap taken => ?_
    exact ⟨threads_set _, fun _ _ _ => rfl, contents_same (sameContents_refAny taken), rfl⟩
  | assign target source =>
    refine keeps_withVar fun origin _ => keeps_withSome fun heap taken => ?_
    exact ⟨threads_set _, fun _ _ _ => rfl, contents_same (sameContents_refAny taken), rfl⟩
  | clear target =>
    refine keeps_withVar fun var _ => keeps_withSome fun heap released => ?_
    exact ⟨threads_set _, vars_set _, contents_same (sameContents_unrefAny released), rfl⟩
  | update target content =>
    refine keeps_withVar fun var there => ?_
    cases points : var.container with
    | none => exact ⟨fun _ _ => rfl, vars_set _, contents_allocate content, rfl⟩
    | some c =>
      have same : written s.vars (.update target content) = some c := by
        rw [written, pointsTo, there, Option.bind_some, points]
      refine keeps_withSome fun heap stored => ?_
      exact ⟨fun _ _ => rfl, fun _ _ _ => rfl, same ▸ contents_store stored, rfl⟩
  | clone owner source =>
    refine keeps_withVar fun origin _ => ?_
    cases origin.container with
    | none => exact ⟨threads_set _, fun _ _ _ => rfl, fun _ _ _ => rfl, rfl⟩
    | some c =>
      refine keeps_withSome fun cell _ => ?_
      exact ⟨threads_set _, fun _ _ _ => rfl, contents_allocate _, rfl⟩
  | destroy target =>
    refine keeps_withVar fun var _ => keeps_withSome fun heap released => ?_
    exact ⟨fun _ _ => rfl, vars_set _, contents_same (sameContents_unrefAny released), rfl⟩

def filled : Running → Option Nat
  | .cloning _ _ made => made
  | _ => none

/-- The vector of the clone that a thread has in progress has the length that its source has. -/
def MatchedAt (s : State) (thread : Nat) : Prop :=
  ∀ owner source m c : Nat, s.threads[thread]? = some (some (.cloning owner source (some m))) →
    pointsTo s.vars source = some c → (contentAt s.heap m).map List.length = (contentAt s.heap c).map List.length

def Matched (s : State) : Prop := ∀ thread, MatchedAt s thread

theorem content_access {c : Nat} {cell : Cell 32 Bytes} (found : access s.heap c = some cell) :
    contentAt s.heap c = some cell.content := by
  rw [contentAt, access_there found]
  rfl

theorem Matched.lengths (matched : Matched s) {owner source m c : Nat} {cell copy : Cell 32 Bytes}
    (busy : s.threads[thread]? = some (some (.cloning owner source (some m)))) (points : pointsTo s.vars source = some c)
    (found : access s.heap c = some cell) (made : access s.heap m = some copy) :
    copy.content.length = cell.content.length := by
  have same := matched thread owner source m c busy points
  rw [content_access found, content_access made] at same
  exact Option.some.inj same

theorem resume_keeps (matched : Matched s) {running : Running} (busy : s.threads[thread]? = some (some running)) :
    Keeps s (resume s thread running) thread running.target (filled running) := by
  cases running with
  | copying owner source taken =>
    exact keeps_withVar fun origin _ => ⟨threads_set _, vars_append _, fun _ _ _ => rfl, rfl⟩
  | unreffing target source taken =>
    refine keeps_withVar fun var _ => keeps_withSome fun heap released => ?_
    exact ⟨threads_set _, vars_set _, contents_same (sameContents_unrefAny released), rfl⟩
  | storing target source taken =>
    refine keeps_withVar fun var _ => keeps_withVar fun origin _ => ?_
    exact ⟨threads_set _, vars_set _, fun _ _ _ => rfl, rfl⟩
  | clearing target => exact keeps_withVar fun var _ => ⟨threads_set _, vars_set _, fun _ _ _ => rfl, rfl⟩
  | cloning owner source made =>
    cases made with
    | none => exact ⟨threads_set _, vars_append _, fun _ _ _ => rfl, rfl⟩
    | some made =>
      refine keeps_withVar fun origin there => keeps_withSome fun cell found => keeps_withSome fun copy made_found => ?_
      obtain ⟨c, points, found⟩ := Option.bind_eq_some_iff.mp found
      have lengths := matched.lengths busy (by rw [pointsTo, there, Option.bind_some, points]) found made_found
      rw [if_neg (by omega)]
      exact keeps_withSome fun heap stored => ⟨threads_set _, vars_append _, contents_store stored, rfl⟩

end Frame

end OsdpMaster.BlobFrame
