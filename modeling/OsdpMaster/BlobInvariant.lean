import OsdpMaster.Blob

/-!
The invariant of the runs of the blob operations: the heap keeps the account of the
references, and each operation in progress finds its variables as it left them.
What one thread may do without breaking it is said once for each kind of
statement: taking a reference, giving one up, writing the pointer.
-/

namespace OsdpMaster.BlobInvariant
open OsdpMaster.Blob OsdpMaster.Lib.RefCount OsdpMaster.Lib.Trace

/-- What an operation in progress relies on: its source is alive and still points to what was taken, its
target is the thread's own. -/
def Fits (vars : List BlobVar) (thread : Nat) : Running → Prop
  | .copying _ source taken =>
    ∃ origin, vars[source]? = some origin ∧ origin.life = .live ∧ origin.container = taken
  | .unreffing target source taken =>
    (∃ origin, vars[source]? = some origin ∧ origin.life = .live ∧ origin.container = taken) ∧
      ∃ var, vars[target]? = some var ∧ var.life = .live ∧ var.owner = thread
  | .storing target source taken =>
    (∃ origin, vars[source]? = some origin ∧ origin.life ≠ .dead ∧ origin.container = taken) ∧
      ∃ var, vars[target]? = some var ∧ var.life = .released ∧ var.owner = thread
  | .clearing target => ∃ var, vars[target]? = some var ∧ var.life = .released ∧ var.owner = thread
  | .cloning _ source made =>
    ∃ origin, vars[source]? = some origin ∧ origin.life = .live ∧ (made = none ↔ origin.container = none)

/-- The invariant of the runs. -/
structure Sound (s : State) : Prop where
  working : s.fault = false
  few : Few s
  accounts : Accounts s.heap (references s)
  fits : ∀ (thread : Nat) (running : Running), s.threads[thread]? = some (some running) → Fits s.vars thread running
  /-- What one thread copies from, no other changes. -/
  exclusive : ∀ (thread : Nat) (running : Running), s.threads[thread]? = some (some running) →
    ∀ (other : Nat) (changing : Running), s.threads[other]? = some (some changing) → thread ≠ other →
      ∀ v, running.source = some v → changing.target ≠ some v
  /-- A variable without its reference is being changed by its owner. -/
  given : ∀ (v : Nat) (var : BlobVar), s.vars[v]? = some var → var.life = .released →
    ∃ running : Running, s.threads[var.owner]? = some (some running) ∧ running.target = some v

section Uses

variable {s : State} {v : Nat} {var : BlobVar}

theorem withVar_eq (there : s.vars[v]? = some var) (alive : var.life ≠ .dead) (next : BlobVar → State) :
    s.withVar v next = next var := by
  rw [State.withVar, there]
  exact if_neg alive

theorem not_dead (live : var.life = .live) : var.life ≠ .dead := by
  rw [live]
  exact fun other => Life.noConfusion other

theorem holds_live (live : var.life = .live) (c : Nat) : (var.holds c).toNat = one var.container c := by
  rw [BlobVar.holds, live, one]
  by_cases same : var.container = some c <;> simp [same]

theorem holds_other (other : var.life ≠ .live) (c : Nat) : (var.holds c).toNat = 0 := by
  simp [BlobVar.holds, other]

theorem takes_some (running : Running) (c : Nat) : (takes c (some running)).toNat = one running.taken c := by
  rw [takes, one]
  by_cases same : running.taken = some c <;> simp [same]

@[simp] theorem takes_none (c : Nat) : (takes c none).toNat = 0 := rfl

theorem references_pos {c : Nat} (there : s.vars[v]? = some var) (live : var.life = .live)
    (points : var.container = some c) : 0 < references s c := by
  have held : 0 < s.vars.countP (BlobVar.holds c) :=
    List.countP_pos_iff.mpr ⟨var, List.mem_of_getElem? there, by simp [BlobVar.holds, live, points]⟩
  exact Nat.lt_of_lt_of_le held (Nat.le_add_right _ _)

theorem references_taken {thread : Nat} {running : Running} {c : Nat}
    (there : s.threads[thread]? = some (some running)) (taken : running.taken = some c) : 0 < references s c := by
  have held : 0 < s.threads.countP (takes c) :=
    List.countP_pos_iff.mpr ⟨some running, List.mem_of_getElem? there, by simp [takes, taken]⟩
  exact Nat.lt_of_lt_of_le held (Nat.le_add_left _ _)

end Uses

section Pointers

variable {heap : Heap} {refs refs' : Nat → Nat} {pointer : Option Nat}

theorem accounts_refAny (accounts : Accounts heap refs) (held : ∀ c, pointer = some c → 0 < refs c)
    (split : ∀ c, refs' c = refs c + one pointer c) :
    ∃ heap', refAny heap pointer = some heap' ∧ Accounts heap' refs' := by
  cases pointer with
  | none =>
    have same : refs' = refs := funext split
    exact ⟨heap, rfl, same ▸ accounts⟩
  | some c => exact accounts.increment (held c rfl) split

theorem accounts_unrefAny (accounts : Accounts heap refs) (held : ∀ c, pointer = some c → 0 < refs c)
    (few : ∀ c, c < heap.length → refs c < 2147483648) (split : ∀ c, refs c = refs' c + one pointer c) :
    ∃ heap', unrefAny heap pointer = some heap' ∧ Accounts heap' refs' := by
  cases pointer with
  | none =>
    have same : refs = refs' := funext split
    exact ⟨heap, rfl, same ▸ accounts⟩
  | some c =>
    apply accounts.decrement (held c rfl) _ split
    have inside : c < heap.length := by
      by_contra out
      have none_there := accounts.outside c (Nat.le_of_not_lt out)
      have one_there := held c rfl
      omega
    have small := few c inside
    rw [BitVec.toNat_ofNat]
    exact Nat.mod_eq_of_lt (by omega)

end Pointers

theorem Fits.congr {vars vars' : List BlobVar} {thread : Nat} {running : Running} (fits : Fits vars thread running)
    (same : ∀ v, running.source = some v ∨ running.target = some v → vars'[v]? = vars[v]?) :
    Fits vars' thread running := by
  cases running with
  | copying owner source taken =>
    simp only [Fits, same source (Or.inl rfl)]
    exact fits
  | unreffing target source taken =>
    simp only [Fits, same source (Or.inl rfl), same target (Or.inr rfl)]
    exact fits
  | storing target source taken =>
    simp only [Fits, same source (Or.inl rfl), same target (Or.inr rfl)]
    exact fits
  | clearing target =>
    simp only [Fits, same target (Or.inr rfl)]
    exact fits
  | cloning owner source made =>
    simp only [Fits, same source (Or.inl rfl)]
    exact fits

theorem Fits.inside {vars : List BlobVar} {thread : Nat} {running : Running} (fits : Fits vars thread running)
    {v : Nat} (uses : running.source = some v ∨ running.target = some v) : v < vars.length := by
  have found : ∀ {w : Nat} {var : BlobVar}, vars[w]? = some var → w < vars.length := by
    intro w var there
    exact (List.getElem?_eq_some_iff.mp there).1
  cases running with
  | copying owner source taken =>
    obtain ⟨origin, there, _⟩ := fits
    simp only [Running.source, Running.target, Option.some.injEq, reduceCtorEq, or_false] at uses
    exact uses ▸ found there
  | unreffing target source taken =>
    obtain ⟨⟨origin, there, _⟩, var, here, _⟩ := fits
    simp only [Running.source, Running.target, Option.some.injEq] at uses
    rcases uses with same | same
    · exact same ▸ found there
    · exact same ▸ found here
  | storing target source taken =>
    obtain ⟨⟨origin, there, _⟩, var, here, _⟩ := fits
    simp only [Running.source, Running.target, Option.some.injEq] at uses
    rcases uses with same | same
    · exact same ▸ found there
    · exact same ▸ found here
  | clearing target =>
    obtain ⟨var, here, _⟩ := fits
    simp only [Running.source, Running.target, Option.some.injEq, reduceCtorEq, false_or] at uses
    exact uses ▸ found here
  | cloning owner source made =>
    obtain ⟨origin, there, _⟩ := fits
    simp only [Running.source, Running.target, Option.some.injEq, reduceCtorEq, or_false] at uses
    exact uses ▸ found there

section Move

variable {s : State} {thread : Nat} {before after : Option Running} {heap : Heap} {vars : List BlobVar}

def moved (s : State) (thread : Nat) (heap : Heap) (vars : List BlobVar) (after : Option Running) : State :=
  ⟨heap, vars, s.threads.set thread after, s.fault, s.overrun⟩

def Apart (s : State) (thread : Nat) (vars : List BlobVar) : Prop :=
  ∀ (other : Nat) (running : Running), other ≠ thread → s.threads[other]? = some (some running) →
    ∀ v, running.source = some v ∨ running.target = some v → vars[v]? = s.vars[v]?

def Peaceful (s : State) (thread : Nat) (running : Running) : Prop :=
  ∀ (other : Nat) (foreign : Running), other ≠ thread → s.threads[other]? = some (some foreign) →
    (∀ v, running.source = some v → foreign.target ≠ some v) ∧
      ∀ v, running.target = some v → foreign.source ≠ some v

/-- The move of one thread keeps the invariant if it keeps the account, leaves the others alone, and its own
operation is in order. -/
theorem Sound.move (sound : Sound s) (slot : s.threads[thread]? = some before)
    (few : Few (moved s thread heap vars after))
    (accounts : Accounts heap (references (moved s thread heap vars after))) (apart : Apart s thread vars)
    (own : ∀ running, after = some running → Fits vars thread running ∧ Peaceful s thread running)
    (given : ∀ (v : Nat) (var : BlobVar), vars[v]? = some var → var.life = .released →
      var.owner ≠ thread ∧ s.vars[v]? = some var ∨
        var.owner = thread ∧ ∃ running : Running, after = some running ∧ running.target = some v) :
    Sound (moved s thread heap vars after) := by
  have inside : thread < s.threads.length := (List.getElem?_eq_some_iff.mp slot).1
  have mine : (s.threads.set thread after)[thread]? = some after := List.getElem?_set_self inside
  have theirs : ∀ {other : Nat}, other ≠ thread → (s.threads.set thread after)[other]? = s.threads[other]? :=
    fun different => List.getElem?_set_ne (Ne.symm different)
  exact {
    working := sound.working
    few := few
    accounts := accounts
    fits := by
      intro other running there
      change (s.threads.set thread after)[other]? = _ at there
      by_cases same : other = thread
      · subst same
        exact (own running (Option.some.inj (mine.symm.trans there))).1
      · rw [theirs same] at there
        exact (sound.fits other running there).congr (apart other running same there)
    exclusive := by
      intro reader running reads writer changing writes different v source
      change (s.threads.set thread after)[reader]? = _ at reads
      change (s.threads.set thread after)[writer]? = _ at writes
      by_cases reader_here : reader = thread
      · subst reader_here
        have foreign : writer ≠ reader := Ne.symm different
        rw [theirs foreign] at writes
        have peaceful := (own running (Option.some.inj (mine.symm.trans reads))).2
        exact (peaceful writer changing foreign writes).1 v source
      · rw [theirs reader_here] at reads
        by_cases writer_here : writer = thread
        · subst writer_here
          have peaceful := (own changing (Option.some.inj (mine.symm.trans writes))).2
          exact fun target => (peaceful reader running reader_here reads).2 v target source
        · rw [theirs writer_here] at writes
          exact sound.exclusive reader running reads writer changing writes different v source
    given := by
      intro v var there released
      rcases given v var there released with ⟨foreign, unchanged⟩ | ⟨own_var, running, now, target⟩
      · obtain ⟨running, busy, target⟩ := sound.given v var unchanged released
        exact ⟨running, (theirs foreign).trans busy, target⟩
      · exact ⟨running, by rw [own_var, ← now]; exact mine, target⟩ }

theorem references_moved (slot : s.threads[thread]? = some before) (c : Nat) :
    references (moved s thread heap vars after) c + s.vars.countP (BlobVar.holds c) + (takes c before).toNat =
      references s c + vars.countP (BlobVar.holds c) + (takes c after).toNat := by
  have threads := countP_set slot after (p := takes c)
  simp only [references, moved]
  omega

theorem Sound.foreign (sound : Sound s) (slot : s.threads[thread]? = some before) {v : Nat} {var : BlobVar}
    (there : s.vars[v]? = some var) (released : var.life = .released)
    (idle : ∀ running : Running, before = some running → running.target ≠ some v) : var.owner ≠ thread := by
  intro mine
  obtain ⟨running, busy, target⟩ := sound.given v var there released
  rw [mine, slot] at busy
  exact idle running (Option.some.inj busy) target

theorem Sound.target_owner (sound : Sound s) {running : Running} (busy : s.threads[thread]? = some (some running))
    {v : Nat} (target : running.target = some v) {var : BlobVar} (there : s.vars[v]? = some var) :
    var.owner = thread := by
  have fits := sound.fits thread running busy
  cases running with
  | copying owner source taken => cases target
  | cloning owner source made => cases target
  | unreffing target' source taken =>
    cases target
    obtain ⟨_, found, here, _, own⟩ := fits
    cases here.symm.trans there
    exact own
  | storing target' source taken =>
    cases target
    obtain ⟨_, found, here, _, own⟩ := fits
    cases here.symm.trans there
    exact own
  | clearing target' =>
    cases target
    obtain ⟨found, here, _, own⟩ := fits
    cases here.symm.trans there
    exact own

theorem Sound.apart_append (sound : Sound s) (var : BlobVar) : Apart s thread (s.vars ++ [var]) := by
  intro other running _ busy v uses
  exact List.getElem?_append_left ((sound.fits other running busy).inside uses)

theorem Sound.apart_set (sound : Sound s) {v : Nat} {var : BlobVar} (there : s.vars[v]? = some var)
    (own : var.owner = thread)
    (unread : ∀ (other : Nat) (running : Running), other ≠ thread → s.threads[other]? = some (some running) →
      running.source ≠ some v) (var' : BlobVar) : Apart s thread (s.vars.set v var') := by
  intro other running foreign busy w uses
  apply List.getElem?_set_ne
  intro same
  subst same
  rcases uses with source | target
  · exact unread other running foreign busy source
  · exact foreign ((sound.target_owner busy target there).symm.trans own)

theorem Sound.append (sound : Sound s) (slot : s.threads[thread]? = some before)
    (reading : ∀ running : Running, before = some running → running.target = none) {owner : Nat}
    {container : Option Nat}
    (accounts : Accounts heap (references (moved s thread heap (s.vars ++ [⟨owner, container, .live⟩]) none)))
    (few : Few (moved s thread heap (s.vars ++ [⟨owner, container, .live⟩]) none)) :
    Sound (moved s thread heap (s.vars ++ [⟨owner, container, .live⟩]) none) := by
  apply sound.move slot few accounts (sound.apart_append _)
  · intro running busy
    cases busy
  · intro v var there released
    left
    rcases Nat.lt_or_ge v s.vars.length with old | new
    · rw [List.getElem?_append_left old] at there
      refine ⟨sound.foreign slot there released ?_, there⟩
      intro running busy target
      rw [reading running busy] at target
      cases target
    · rw [List.getElem?_append_right new, List.getElem?_singleton] at there
      split at there
      · cases there
        cases released
      · cases there

theorem Sound.given_set (sound : Sound s) (slot : s.threads[thread]? = some before) {v : Nat} {var : BlobVar}
    (there : s.vars[v]? = some var) (var' : BlobVar) (own : var'.owner = thread)
    (working : ∀ running : Running, before = some running → running.target = none ∨ running.target = some v)
    (released : var'.life = .released → ∃ running : Running, after = some running ∧ running.target = some v) :
    ∀ (w : Nat) (found : BlobVar), (s.vars.set v var')[w]? = some found → found.life = .released →
      found.owner ≠ thread ∧ s.vars[w]? = some found ∨
        found.owner = thread ∧ ∃ running : Running, after = some running ∧ running.target = some w := by
  intro w found here gone
  by_cases same : w = v
  · subst same
    rw [List.getElem?_set_self (List.getElem?_eq_some_iff.mp there).1] at here
    cases here
    exact Or.inr ⟨own, released gone⟩
  · rw [List.getElem?_set_ne (Ne.symm same)] at here
    refine Or.inl ⟨sound.foreign slot here gone ?_, here⟩
    intro running busy target
    rcases working running busy with none_there | here
    · rw [none_there] at target
      cases target
    · rw [here] at target
      exact same (Option.some.inj target).symm

end Move

section Steps

variable {s : State} {thread : Nat} {before : Option Running}

theorem Sound.stay (sound : Sound s) (idle : s.threads[thread]? = some none) {heap : Heap} {after : Option Running}
    (accounts : Accounts heap (references (moved s thread heap s.vars after)))
    (own : ∀ running, after = some running → Fits s.vars thread running ∧ Peaceful s thread running)
    (few : Few (moved s thread heap s.vars after)) : Sound (moved s thread heap s.vars after) := by
  apply sound.move idle few accounts _ own
  · intro v var here released
    exact Or.inl ⟨sound.foreign idle here released (fun _ busy => nomatch busy), here⟩
  · intro other running _ _ v _
    rfl

/-- The statement `ref()`: the reference goes to the operation. -/
theorem Sound.take (sound : Sound s) (idle : s.threads[thread]? = some none) {source : Nat} {origin : BlobVar}
    (there : s.vars[source]? = some origin) (live : origin.life = .live) {running : Running}
    (taken : running.taken = origin.container) (fits : Fits s.vars thread running)
    (peaceful : Peaceful s thread running) :
    ∃ heap, refAny s.heap origin.container = some heap ∧
      (Few (moved s thread heap s.vars (some running)) → Sound (moved s thread heap s.vars (some running))) := by
  have split : ∀ heap c, references (moved s thread heap s.vars (some running)) c =
      references s c + one origin.container c := by
    intro heap c
    have count := @references_moved s thread none (some running) heap s.vars idle c
    rw [takes_none, takes_some, taken] at count
    omega
  obtain ⟨heap, found, accounts⟩ := accounts_refAny sound.accounts
    (fun c points => references_pos there live points) (split s.heap)
  refine ⟨heap, found, sound.stay idle accounts ?_⟩
  intro now same
  cases same
  exact ⟨fits, peaceful⟩

/-- The statement `unref()`: the variable gives up its reference. -/
theorem Sound.release (sound : Sound s) (slot : s.threads[thread]? = some before) {v : Nat} {var : BlobVar}
    (there : s.vars[v]? = some var) (live : var.life = .live) (own : var.owner = thread) {life : Life}
    (gone : life ≠ .live) {after : Option Running}
    (unread : ∀ (other : Nat) (running : Running), other ≠ thread → s.threads[other]? = some (some running) →
      running.source ≠ some v)
    (working : ∀ running : Running, before = some running → running.target = none ∨ running.target = some v)
    (taken : ∀ c, (takes c before).toNat = (takes c after).toNat)
    (order : ∀ running, after = some running →
      Fits (s.vars.set v { var with life := life }) thread running ∧ Peaceful s thread running)
    (released : life = .released → ∃ running : Running, after = some running ∧ running.target = some v) :
    ∃ heap, unrefAny s.heap var.container = some heap ∧
      (Few (moved s thread heap (s.vars.set v { var with life := life }) after) →
        Sound (moved s thread heap (s.vars.set v { var with life := life }) after)) := by
  have split : ∀ heap c, references s c =
      references (moved s thread heap (s.vars.set v { var with life := life }) after) c + one var.container c := by
    intro heap c
    have count := @references_moved s thread before after heap (s.vars.set v { var with life := life }) slot c
    have vars := countP_set there { var with life := life } (p := BlobVar.holds c)
    rw [holds_live live, holds_other gone] at vars
    have same := taken c
    omega
  obtain ⟨heap, found, accounts⟩ := accounts_unrefAny sound.accounts
    (fun c points => references_pos there live points) sound.few (split s.heap)
  refine ⟨heap, found, ?_⟩
  intro few
  exact sound.move slot few accounts (sound.apart_set there own unread _) order
    (sound.given_set slot there _ own working released)

/-- The statement that writes `m_container`: the variable gets the reference of the operation. -/
theorem Sound.write (sound : Sound s) {running : Running} (busy : s.threads[thread]? = some (some running)) {v : Nat}
    {var : BlobVar} (target : running.target = some v) (there : s.vars[v]? = some var)
    (released : var.life = .released) {container : Option Nat} (taken : running.taken = container)
    (few : Few (moved s thread s.heap (s.vars.set v { var with container := container, life := .live }) none)) :
    Sound (moved s thread s.heap (s.vars.set v { var with container := container, life := .live }) none) := by
  have own := sound.target_owner busy target there
  have same : references (moved s thread s.heap
      (s.vars.set v { var with container := container, life := .live }) none) = references s := by
    funext c
    have count := @references_moved s thread (some running) none s.heap
      (s.vars.set v { var with container := container, life := .live }) busy c
    have vars := countP_set there { var with container := container, life := .live } (p := BlobVar.holds c)
    rw [holds_other (by rw [released]; exact fun other => Life.noConfusion other), holds_live rfl] at vars
    rw [takes_none, takes_some, taken] at count
    simp only at vars
    omega
  apply sound.move busy few (same ▸ sound.accounts)
  · apply sound.apart_set there own
    intro other foreign different there' source
    exact sound.exclusive other foreign there' thread running busy different v source target
  · intro now none_left
    cases none_left
  · apply sound.given_set busy there { var with container := container, life := .live } own
    · intro now here
      cases here
      exact Or.inr target
    · intro other
      cases other

theorem Sound.finish (sound : Sound s) {running : Running} (busy : s.threads[thread]? = some (some running))
    (reading : running.target = none) {heap : Heap} (accounts : Accounts heap (references s)) {owner : Nat}
    (few : Few (moved s thread heap (s.vars ++ [⟨owner, running.taken, .live⟩]) none)) :
    Sound (moved s thread heap (s.vars ++ [⟨owner, running.taken, .live⟩]) none) := by
  have same : references (moved s thread heap (s.vars ++ [⟨owner, running.taken, .live⟩]) none) = references s := by
    funext c
    have count := @references_moved s thread (some running) none heap (s.vars ++ [⟨owner, running.taken, .live⟩]) busy c
    rw [countP_snoc, holds_live rfl, takes_none, takes_some] at count
    simp only at count
    omega
  apply sound.append busy _ (same ▸ accounts) few
  intro now here
  cases here
  exact reading

end Steps

section Rules

variable {s : State} {thread : Nat}

theorem Sound.readable (sound : Sound s) {source : Nat} (alive : ∃ var ∈ s.vars[source]?, var.life ≠ .dead)
    (unchanged : ∀ slot ∈ s.threads, ∀ running ∈ slot, Running.target running ≠ some source) :
    ∃ origin, s.vars[source]? = some origin ∧ origin.life = .live := by
  obtain ⟨origin, there, living⟩ := alive
  refine ⟨origin, there, ?_⟩
  cases life : origin.life with
  | live => rfl
  | dead => exact absurd life living
  | released =>
    obtain ⟨running, busy, target⟩ := sound.given source origin there life
    exact absurd target (unchanged _ (List.mem_of_getElem? busy) running rfl)

theorem Sound.writable (sound : Sound s) (idle : s.threads[thread]? = some none) {target : Nat}
    (owned : ∃ var ∈ s.vars[target]?, var.life ≠ .dead ∧ var.owner = thread) :
    ∃ var, s.vars[target]? = some var ∧ var.life = .live ∧ var.owner = thread := by
  obtain ⟨var, there, living, own⟩ := owned
  refine ⟨var, there, ?_, own⟩
  cases life : var.life with
  | live => rfl
  | dead => exact absurd life living
  | released => exact absurd own (sound.foreign idle there life (fun _ busy => nomatch busy))

theorem anchored_peaceful {operation : Operation} (anchored : Anchored s thread operation) {running : Running}
    (source : running.source = operation.source) (target : running.target = operation.target) :
    Peaceful s thread running := by
  intro other foreign _ busy
  have member := List.mem_of_getElem? busy
  constructor
  · intro v reads
    exact anchored.unchanged v (source ▸ reads) _ member foreign rfl
  · intro v writes
    exact anchored.unread v (target ▸ writes) _ member foreign rfl

theorem anchored_unread {operation : Operation} (anchored : Anchored s thread operation) {v : Nat}
    (target : operation.target = some v) (other : Nat) (running : Running) (_ : other ≠ thread)
    (busy : s.threads[other]? = some (some running)) : running.source ≠ some v :=
  anchored.unread v target _ (List.mem_of_getElem? busy) running rfl

theorem moved_idle (idle : s.threads[thread]? = some none) (heap : Heap) (vars : List BlobVar) :
    moved s thread heap vars none = ⟨heap, vars, s.threads, s.fault, s.overrun⟩ := by
  obtain ⟨inside, same⟩ := List.getElem?_eq_some_iff.mp idle
  rw [moved, ← same, List.set_getElem_self]

end Rules

end OsdpMaster.BlobInvariant
