import OsdpMaster.Lib.RefCount
import OsdpMaster.Lib.Trace
import OsdpMaster.OsdpDef

/-!
The blobs of `blob.cpp`: variables that share `blob_data` objects, and threads
that construct, copy, assign, clear, update, clone and destroy them. The calls of
`ref` and `unref` are steps of their own, between which the other threads may run.
-/

namespace OsdpMaster.Blob
open OsdpMaster.Lib.RefCount OsdpMaster.Lib.Trace

/-- All `blob_data` there ever were. `m_refcount` is an `int`. -/
abbrev Heap := CellHeap 32 Bytes

def ref (heap : Heap) (container : Nat) : Option Heap := increment heap container

/-- `blob_data::unref`, with the `delete this` of the thread that takes the count to zero. -/
def unref (heap : Heap) (container : Nat) : Option Heap := decrement heap container

/-- `if(m_container) m_container->ref();` -/
def refAny (heap : Heap) : Option Nat → Option Heap
  | none => some heap
  | some container => ref heap container

def unrefAny (heap : Heap) : Option Nat → Option Heap
  | none => some heap
  | some container => unref heap container

/-- While an assignment or `clear` has given up the reference and not yet written `m_container`, the
variable is `released`. -/
inductive Life
  | live
  | released
  | dead
  deriving DecidableEq

/-- A variable of the class `blob`. `owner` is the thread that may change it. -/
structure BlobVar where
  owner : Nat
  container : Option Nat
  life : Life
  deriving DecidableEq

def ofNothing : Option Bytes := none

/-- `blob(const void *from, size_t len)`, and the constructors from vectors. -/
def ofData (data : Bytes) : Option Bytes := some data

/-- `blob(const std::string &from)`, with the zero at the end of `c_str()`. -/
def ofString (text : Bytes) : Option Bytes := some (text ++ [0])

def ofCString : Option Bytes → Option Bytes
  | none => none
  | some text => some (text.takeWhile (fun byte => byte ≠ 0) ++ [0])

/-- What a thread can begin. The content of `update` is what its caller writes. -/
inductive Operation
  | construct (owner : Nat) (content : Option Bytes)
  | copy (owner source : Nat)
  | assign (target source : Nat)
  | clear (target : Nat)
  | update (target : Nat) (content : Bytes)
  | clone (owner source : Nat)
  | destroy (target : Nat)
  deriving DecidableEq

/-- An operation in progress, by the statement it has come to. `taken` is the reference it has taken; no
statement reads it. -/
inductive Running
  /-- The copy constructor: `m_container = from.m_container;` -/
  | copying (owner source : Nat) (taken : Option Nat)
  /-- The assignment: `if(m_container) m_container->unref();` -/
  | unreffing (target source : Nat) (taken : Option Nat)
  /-- The assignment: `m_container = from.m_container;` -/
  | storing (target source : Nat) (taken : Option Nat)
  /-- `clear`: `m_container = NULL;` -/
  | clearing (target : Nat)
  /-- `clone`: the `memcpy` into the container made for the local `b`. -/
  | cloning (owner source : Nat) (made : Option Nat)
  deriving DecidableEq

/-- `threads` holds what each thread has in progress. A fault is an access to a deleted `blob_data` or to a
destroyed variable; an overrun, a `memcpy` past the end of a vector. -/
structure State where
  heap : Heap
  vars : List BlobVar
  threads : List (Option Running)
  fault : Bool
  overrun : Bool
  deriving DecidableEq

def State.fail (s : State) : State := { s with fault := true }

def State.withVar (s : State) (v : Nat) (next : BlobVar → State) : State :=
  match s.vars[v]? with
  | none => s.fail
  | some var => if var.life = .dead then s.fail else next var

def State.withSome {β : Type} (s : State) (found : Option β) (next : β → State) : State :=
  match found with
  | none => s.fail
  | some result => next result

/-- The first statement of an operation. -/
def start (s : State) (thread : Nat) : Operation → State
  | .construct owner none => { s with vars := s.vars ++ [⟨owner, none, .live⟩] }
  | .construct owner (some content) =>
    { s with
      heap := allocate s.heap content
      vars := s.vars ++ [⟨owner, some s.heap.length, .live⟩] }
  | .copy owner source =>
    s.withVar source fun origin => s.withSome (refAny s.heap origin.container) fun heap =>
      { s with
        heap := heap
        threads := s.threads.set thread (some (.copying owner source origin.container)) }
  | .assign target source =>
    s.withVar source fun origin => s.withSome (refAny s.heap origin.container) fun heap =>
      { s with
        heap := heap
        threads := s.threads.set thread (some (.unreffing target source origin.container)) }
  | .clear target =>
    s.withVar target fun var => s.withSome (unrefAny s.heap var.container) fun heap =>
      { s with
        heap := heap
        vars := s.vars.set target { var with life := .released }
        threads := s.threads.set thread (some (.clearing target)) }
  | .update target content =>
    s.withVar target fun var =>
      match var.container with
      | none =>
        { s with
          heap := allocate s.heap content
          vars := s.vars.set target { var with container := some s.heap.length } }
      | some container => s.withSome (store s.heap container content) fun heap => { s with heap := heap }
  | .clone owner source =>
    s.withVar source fun origin =>
      match origin.container with
      | none => { s with threads := s.threads.set thread (some (.cloning owner source none)) }
      | some container =>
        -- `d.resize(size())` on the container that `b.update()` makes.
        s.withSome (access s.heap container) fun cell =>
          { s with
            heap := allocate s.heap (List.replicate cell.content.length 0)
            threads := s.threads.set thread (some (.cloning owner source (some s.heap.length))) }
  | .destroy target =>
    s.withVar target fun var => s.withSome (unrefAny s.heap var.container) fun heap =>
      { s with
        heap := heap
        vars := s.vars.set target { var with life := .dead } }

def resume (s : State) (thread : Nat) : Running → State
  | .copying owner source _ =>
    s.withVar source fun origin =>
      { s with
        vars := s.vars ++ [⟨owner, origin.container, .live⟩]
        threads := s.threads.set thread none }
  | .unreffing target source taken =>
    s.withVar target fun var => s.withSome (unrefAny s.heap var.container) fun heap =>
      { s with
        heap := heap
        vars := s.vars.set target { var with life := .released }
        threads := s.threads.set thread (some (.storing target source taken)) }
  | .storing target source _ =>
    s.withVar target fun var => s.withVar source fun origin =>
      { s with
        vars := s.vars.set target { var with container := origin.container, life := .live }
        threads := s.threads.set thread none }
  | .clearing target =>
    s.withVar target fun var =>
      { s with
        vars := s.vars.set target { var with container := none, life := .live }
        threads := s.threads.set thread none }
  | .cloning owner _ none =>
    { s with
      vars := s.vars ++ [⟨owner, none, .live⟩]
      threads := s.threads.set thread none }
  | .cloning owner source (some made) =>
    s.withVar source fun origin => s.withSome (origin.container.bind (access s.heap)) fun cell =>
      s.withSome (access s.heap made) fun copy =>
        -- `memcpy` takes `size()` as it is now; the vector was resized by the statement before.
        if copy.content.length < cell.content.length then { s with overrun := true }
        else
          s.withSome (store s.heap made (cell.content ++ copy.content.drop cell.content.length)) fun heap =>
            { s with
              heap := heap
              vars := s.vars ++ [⟨owner, some made, .live⟩]
              threads := s.threads.set thread none }

inductive Action
  | start (thread : Nat) (operation : Operation)
  | resume (thread : Nat)
  deriving DecidableEq

/-- A thread begins an operation when it has none in progress, and goes on with the one it has. -/
def step (s : State) : Action → Option (State × List Empty)
  | .start thread operation =>
    if s.fault = false ∧ s.overrun = false ∧ s.threads[thread]? = some none then some (start s thread operation, [])
    else none
  | .resume thread =>
    match s.threads[thread]? with
    | some (some running) =>
      if s.fault = false ∧ s.overrun = false then some (resume s thread running, []) else none
    | _ => none

def blobs (count : Nat) : System State Action Empty where
  start := ⟨[], [], List.replicate count none, false, false⟩
  startup := []
  step := step

def Running.source : Running → Option Nat
  | .copying _ source _ => some source
  | .unreffing _ source _ => some source
  | .storing _ source _ => some source
  | .clearing _ => none
  | .cloning _ source _ => some source

def Running.target : Running → Option Nat
  | .copying _ _ _ => none
  | .unreffing target _ _ => some target
  | .storing target _ _ => some target
  | .clearing target => some target
  | .cloning _ _ _ => none

def Operation.source : Operation → Option Nat
  | .construct _ _ => none
  | .copy _ source => some source
  | .assign _ source => some source
  | .clear _ => none
  | .update _ _ => none
  | .clone _ source => some source
  | .destroy _ => none

def Operation.target : Operation → Option Nat
  | .construct _ _ => none
  | .copy _ _ => none
  | .assign target _ => some target
  | .clear target => some target
  | .update target _ => some target
  | .clone _ _ => none
  | .destroy target => some target

/-- "Anchored": a variable is changed by its own thread only, and not while it is copied from; it is copied
from while it is alive and not being changed. -/
structure Anchored (s : State) (thread : Nat) (operation : Operation) : Prop where
  owned : ∀ v ∈ operation.target, ∃ var ∈ s.vars[v]?, var.life ≠ .dead ∧ var.owner = thread
  unread : ∀ v ∈ operation.target, ∀ slot ∈ s.threads, ∀ running ∈ slot, running.source ≠ some v
  alive : ∀ v ∈ operation.source, ∃ var ∈ s.vars[v]?, var.life ≠ .dead
  unchanged : ∀ v ∈ operation.source, ∀ slot ∈ s.threads, ∀ running ∈ slot, running.target ≠ some v

def BlobVar.holds (container : Nat) (var : BlobVar) : Bool :=
  var.life = .live && var.container = some container

/-- The reference an operation in progress has taken, for its own blob or for the one it assigns. -/
def Running.taken : Running → Option Nat
  | .copying _ _ taken => taken
  | .unreffing _ _ taken => taken
  | .storing _ _ taken => taken
  | .clearing _ => none
  | .cloning _ _ made => made

def takes (container : Nat) (slot : Option Running) : Bool := slot.any (fun running => running.taken = some container)

/-- The live variables that hold the container, and the references that operations in progress have taken. A
reference that an assignment has not yet released is that of its variable. -/
def references (s : State) (container : Nat) : Nat :=
  s.vars.countP (BlobVar.holds container) + s.threads.countP (takes container)

def Few (s : State) : Prop := ∀ container, container < s.heap.length → references s container < 2147483648

/-- The rules for the program: operations begin anchored, and references stay few. -/
structure Disciplined (s : State) (history : List Empty) (action : Action) : Prop where
  anchored : ∀ thread operation, action = .start thread operation → Anchored s thread operation
  few : ∀ reached ∈ step s action, Few reached.1

def pointsTo (vars : List BlobVar) (v : Nat) : Option Nat := (vars[v]?).bind BlobVar.container

/-- The container whose content an operation in progress copies. -/
def Running.inspects (vars : List BlobVar) : Running → Option Nat
  | .cloning _ source _ => pointsTo vars source
  | _ => none

def Action.updates : Action → Option Nat
  | .start _ (.update target _) => some target
  | _ => none

/-- "You can only change a blob's contents if you know no other thread may be inspecting it." -/
structure Careful (s : State) (history : List Empty) (action : Action) : Prop extends Disciplined s history action where
  uninspected : ∀ target ∈ action.updates, ∀ container ∈ pointsTo s.vars target, ∀ slot ∈ s.threads, ∀ running ∈ slot,
    running.inspects s.vars ≠ some container

instance (s : State) (thread : Nat) (operation : Operation) : Decidable (Anchored s thread operation) :=
  decidable_of_iff
    ((∀ v ∈ operation.target, ∃ var ∈ s.vars[v]?, var.life ≠ .dead ∧ var.owner = thread) ∧
      (∀ v ∈ operation.target, ∀ slot ∈ s.threads, ∀ running ∈ slot, Running.source running ≠ some v) ∧
      (∀ v ∈ operation.source, ∃ var ∈ s.vars[v]?, var.life ≠ .dead) ∧
      ∀ v ∈ operation.source, ∀ slot ∈ s.threads, ∀ running ∈ slot, Running.target running ≠ some v)
    ⟨fun ⟨owned, unread, alive, unchanged⟩ => ⟨owned, unread, alive, unchanged⟩,
      fun anchored => ⟨anchored.owned, anchored.unread, anchored.alive, anchored.unchanged⟩⟩

instance (s : State) : Decidable (Few s) :=
  inferInstanceAs (Decidable (∀ container, container < s.heap.length → references s container < 2147483648))

instance (s : State) (history : List Empty) (action : Action) : Decidable (Disciplined s history action) :=
  match action with
  | .start thread operation =>
    decidable_of_iff (Anchored s thread operation ∧ ∀ reached ∈ step s (.start thread operation), Few reached.1)
      ⟨fun ⟨anchored, few⟩ => ⟨fun _ _ same => by cases same; exact anchored, few⟩,
        fun disciplined => ⟨disciplined.anchored _ _ rfl, disciplined.few⟩⟩
  | .resume thread =>
    decidable_of_iff (∀ reached ∈ step s (.resume thread), Few reached.1)
      ⟨fun few => ⟨fun _ _ same => (nomatch same), few⟩, fun disciplined => disciplined.few⟩

instance (s : State) (history : List Empty) (action : Action) : Decidable (Careful s history action) :=
  decidable_of_iff
    (Disciplined s history action ∧ ∀ target ∈ action.updates, ∀ container ∈ pointsTo s.vars target,
      ∀ slot ∈ s.threads, ∀ running ∈ slot, Running.inspects s.vars running ≠ some container)
    ⟨fun ⟨disciplined, uninspected⟩ => ⟨disciplined, uninspected⟩,
      fun careful => ⟨careful.toDisciplined, careful.uninspected⟩⟩

end OsdpMaster.Blob
