import OsdpMaster.BlobInvariant

/-!
The reference counts of blobs. Between any two steps of any threads that keep to
the rules, each `m_refcount` is the number of live variables and operations in
progress that hold the container, and exactly the containers without any are
deleted.
-/

namespace OsdpMaster.BlobCount
open OsdpMaster.Blob OsdpMaster.BlobInvariant OsdpMaster.Lib.RefCount OsdpMaster.Lib.Trace

section Start

variable {s : State} {thread : Nat}

theorem start_construct (sound : Sound s) (idle : s.threads[thread]? = some none) (owner : Nat)
    (content : Option Bytes) (few : Few (start s thread (.construct owner content))) :
    Sound (start s thread (.construct owner content)) := by
  cases content with
  | none =>
    have state : start s thread (.construct owner none) =
        moved s thread s.heap (s.vars ++ [⟨owner, none, .live⟩]) none := (moved_idle idle _ _).symm
    rw [state] at few ⊢
    have same : references (moved s thread s.heap (s.vars ++ [⟨owner, none, .live⟩]) none) = references s := by
      funext c
      have count := @references_moved s thread none none s.heap (s.vars ++ [⟨owner, none, .live⟩]) idle c
      rw [countP_snoc, holds_live rfl, one_none] at count
      omega
    exact sound.append idle (fun _ busy => nomatch busy) (same ▸ sound.accounts) few
  | some content =>
    have state : start s thread (.construct owner (some content)) = moved s thread (allocate s.heap content)
        (s.vars ++ [⟨owner, some s.heap.length, .live⟩]) none := (moved_idle idle _ _).symm
    rw [state] at few ⊢
    refine sound.append idle (fun _ busy => nomatch busy) (sound.accounts.allocate content ?_) few
    intro c
    have count := @references_moved s thread none none (allocate s.heap content)
      (s.vars ++ [⟨owner, some s.heap.length, .live⟩]) idle c
    rw [countP_snoc, holds_live rfl] at count
    simp only at count
    omega

theorem start_copy (sound : Sound s) (idle : s.threads[thread]? = some none) {owner source : Nat}
    (anchored : Anchored s thread (.copy owner source)) (few : Few (start s thread (.copy owner source))) :
    Sound (start s thread (.copy owner source)) := by
  obtain ⟨origin, there, live⟩ := sound.readable (anchored.alive source rfl) (anchored.unchanged source rfl)
  obtain ⟨heap, found, kept⟩ := @Sound.take s thread sound idle source origin there live
    (.copying owner source origin.container) rfl ⟨origin, there, live, rfl⟩ (anchored_peaceful anchored rfl rfl)
  have state : start s thread (.copy owner source) =
      moved s thread heap s.vars (some (.copying owner source origin.container)) := by
    simp only [start, withVar_eq there (not_dead live), found]
    rfl
  rw [state] at few ⊢
  exact kept few

theorem start_assign (sound : Sound s) (idle : s.threads[thread]? = some none) {target source : Nat}
    (anchored : Anchored s thread (.assign target source)) (few : Few (start s thread (.assign target source))) :
    Sound (start s thread (.assign target source)) := by
  obtain ⟨origin, there, live⟩ := sound.readable (anchored.alive source rfl) (anchored.unchanged source rfl)
  obtain ⟨heap, found, kept⟩ := @Sound.take s thread sound idle source origin there live
    (.unreffing target source origin.container) rfl
    ⟨⟨origin, there, live, rfl⟩, sound.writable idle (anchored.owned target rfl)⟩
    (anchored_peaceful anchored rfl rfl)
  have state : start s thread (.assign target source) =
      moved s thread heap s.vars (some (.unreffing target source origin.container)) := by
    simp only [start, withVar_eq there (not_dead live), found]
    rfl
  rw [state] at few ⊢
  exact kept few

theorem start_clear (sound : Sound s) (idle : s.threads[thread]? = some none) {target : Nat}
    (anchored : Anchored s thread (.clear target)) (few : Few (start s thread (.clear target))) :
    Sound (start s thread (.clear target)) := by
  obtain ⟨var, there, live, own⟩ := sound.writable idle (anchored.owned target rfl)
  have inside := (List.getElem?_eq_some_iff.mp there).1
  obtain ⟨heap, found, kept⟩ := @Sound.release s thread none sound idle target var there live own .released
    (fun other => Life.noConfusion other) (some (.clearing target)) (anchored_unread anchored rfl)
    (fun _ busy => nomatch busy) (fun _ => rfl)
    (by
      intro running now
      cases now
      exact ⟨⟨_, List.getElem?_set_self inside, rfl, own⟩, anchored_peaceful anchored rfl rfl⟩)
    (fun _ => ⟨_, rfl, rfl⟩)
  have state : start s thread (.clear target) =
      moved s thread heap (s.vars.set target { var with life := .released }) (some (.clearing target)) := by
    simp only [start, withVar_eq there (not_dead live), found]
    rfl
  rw [state] at few ⊢
  exact kept few

theorem start_destroy (sound : Sound s) (idle : s.threads[thread]? = some none) {target : Nat}
    (anchored : Anchored s thread (.destroy target)) (few : Few (start s thread (.destroy target))) :
    Sound (start s thread (.destroy target)) := by
  obtain ⟨var, there, live, own⟩ := sound.writable idle (anchored.owned target rfl)
  obtain ⟨heap, found, kept⟩ := @Sound.release s thread none sound idle target var there live own .dead
    (fun other => Life.noConfusion other) none (anchored_unread anchored rfl)
    (fun _ busy => nomatch busy) (fun _ => rfl) (fun _ now => nomatch now)
    (fun other => Life.noConfusion other)
  have state : start s thread (.destroy target) =
      moved s thread heap (s.vars.set target { var with life := .dead }) none := by
    simp only [start, withVar_eq there (not_dead live), found]
    exact (moved_idle idle _ _).symm
  rw [state] at few ⊢
  exact kept few

theorem start_update (sound : Sound s) (idle : s.threads[thread]? = some none) {target : Nat} {content : Bytes}
    (anchored : Anchored s thread (.update target content)) (few : Few (start s thread (.update target content))) :
    Sound (start s thread (.update target content)) := by
  obtain ⟨var, there, live, own⟩ := sound.writable idle (anchored.owned target rfl)
  cases points : var.container with
  | none =>
    have state : start s thread (.update target content) = moved s thread (allocate s.heap content)
        (s.vars.set target { var with container := some s.heap.length }) none := by
      simp only [start, withVar_eq there (not_dead live), points]
      exact (moved_idle idle _ _).symm
    rw [state] at few ⊢
    apply sound.move idle few
    · apply sound.accounts.allocate
      intro c
      have count := @references_moved s thread none none (allocate s.heap content)
        (s.vars.set target { var with container := some s.heap.length }) idle c
      have vars := countP_set there { var with container := some s.heap.length } (p := BlobVar.holds c)
      rw [holds_live live, @holds_live { var with container := some s.heap.length } live, points, one_none] at vars
      simp only at vars
      omega
    · exact sound.apart_set there own (anchored_unread anchored rfl) _
    · exact fun _ now => nomatch now
    · apply sound.given_set idle there { var with container := some s.heap.length } own
      · exact fun _ busy => nomatch busy
      · intro released
        rw [live] at released
        cases released
  | some container =>
    obtain ⟨heap, found, accounts⟩ := sound.accounts.store (references_pos there live points) content
    have state : start s thread (.update target content) = moved s thread heap s.vars none := by
      simp only [start, withVar_eq there (not_dead live), points, found]
      exact (moved_idle idle _ _).symm
    have same : references (moved s thread heap s.vars none) = references s := by
      funext c
      have count := @references_moved s thread none none heap s.vars idle c
      omega
    rw [state] at few ⊢
    exact sound.stay idle (same ▸ accounts) (fun _ now => nomatch now) few

theorem start_clone (sound : Sound s) (idle : s.threads[thread]? = some none) {owner source : Nat}
    (anchored : Anchored s thread (.clone owner source)) (few : Few (start s thread (.clone owner source))) :
    Sound (start s thread (.clone owner source)) := by
  obtain ⟨origin, there, live⟩ := sound.readable (anchored.alive source rfl) (anchored.unchanged source rfl)
  have begun : ∀ (heap : Heap) (made : Option Nat), (made = none ↔ origin.container = none) →
      Accounts heap (references (moved s thread heap s.vars (some (.cloning owner source made)))) →
      Few (moved s thread heap s.vars (some (.cloning owner source made))) →
      Sound (moved s thread heap s.vars (some (.cloning owner source made))) := by
    intro heap made both accounts
    apply sound.stay idle accounts
    intro running now
    cases now
    exact ⟨⟨origin, there, live, both⟩, anchored_peaceful anchored rfl rfl⟩
  cases points : origin.container with
  | none =>
    have state : start s thread (.clone owner source) =
        moved s thread s.heap s.vars (some (.cloning owner source none)) := by
      simp only [start, withVar_eq there (not_dead live), points]
      rfl
    have same : references (moved s thread s.heap s.vars (some (.cloning owner source none))) = references s := by
      funext c
      have count := @references_moved s thread none (some (.cloning owner source none)) s.heap s.vars idle c
      rw [takes_none, takes_some] at count
      simp only [Running.taken, one_none] at count
      omega
    rw [state] at few ⊢
    exact begun s.heap none (iff_of_true rfl points) (same ▸ sound.accounts) few
  | some container =>
    obtain ⟨cell, found, _⟩ := sound.accounts.access (references_pos there live points)
    have state : start s thread (.clone owner source) =
        moved s thread (allocate s.heap (List.replicate cell.content.length 0)) s.vars
          (some (.cloning owner source (some s.heap.length))) := by
      simp only [start, withVar_eq there (not_dead live), points, found]
      rfl
    rw [state] at few ⊢
    refine begun _ _ (by simp [points]) (sound.accounts.allocate _ ?_) few
    intro c
    have count := @references_moved s thread none (some (.cloning owner source (some s.heap.length)))
      (allocate s.heap (List.replicate cell.content.length 0)) s.vars idle c
    rw [takes_none, takes_some] at count
    simp only [Running.taken] at count
    omega

/-- Every operation that begins anchored keeps the invariant. -/
theorem start_sound (sound : Sound s) (idle : s.threads[thread]? = some none) {operation : Operation}
    (anchored : Anchored s thread operation) (few : Few (start s thread operation)) :
    Sound (start s thread operation) := by
  cases operation with
  | construct owner content => exact start_construct sound idle owner content few
  | copy owner source => exact start_copy sound idle anchored few
  | assign target source => exact start_assign sound idle anchored few
  | clear target => exact start_clear sound idle anchored few
  | update target content => exact start_update sound idle anchored few
  | clone owner source => exact start_clone sound idle anchored few
  | destroy target => exact start_destroy sound idle anchored few

end Start

section Resume

variable {s : State} {thread : Nat}

theorem resume_copying (sound : Sound s) {owner source : Nat} {taken : Option Nat}
    (busy : s.threads[thread]? = some (some (.copying owner source taken)))
    (few : Few (resume s thread (.copying owner source taken))) :
    Sound (resume s thread (.copying owner source taken)) := by
  obtain ⟨origin, there, live, points⟩ := sound.fits thread _ busy
  have state : resume s thread (.copying owner source taken) =
      moved s thread s.heap (s.vars ++ [⟨owner, taken, .live⟩]) none := by
    simp only [resume, withVar_eq there (not_dead live), points]
    rfl
  rw [state] at few ⊢
  exact sound.finish busy rfl sound.accounts few

theorem resume_cloning (sound : Sound s) {owner source : Nat} {made : Option Nat}
    (busy : s.threads[thread]? = some (some (.cloning owner source made)))
    (few : Few (resume s thread (.cloning owner source made))) :
    Sound (resume s thread (.cloning owner source made)) := by
  obtain ⟨origin, there, live, both⟩ := sound.fits thread _ busy
  cases made with
  | none => exact sound.finish busy rfl sound.accounts few
  | some made =>
    cases points : origin.container with
    | none => exact absurd (both.mpr points) (Option.some_ne_none made)
    | some container =>
      obtain ⟨cell, found, _⟩ := sound.accounts.access (references_pos there live points)
      obtain ⟨copy, made_found, _⟩ := sound.accounts.access (references_taken busy rfl)
      by_cases longer : copy.content.length < cell.content.length
      · have state : resume s thread (.cloning owner source (some made)) = { s with overrun := true } := by
          simp only [resume, withVar_eq there (not_dead live), points, Option.bind_some, found, State.withSome,
            made_found, if_pos longer]
        rw [state]
        exact { sound with }
      · obtain ⟨heap, stored, accounts⟩ := sound.accounts.store (references_taken busy rfl)
          (cell.content ++ copy.content.drop cell.content.length)
        have state : resume s thread (.cloning owner source (some made)) =
            moved s thread heap (s.vars ++ [⟨owner, some made, .live⟩]) none := by
          simp only [resume, withVar_eq there (not_dead live), points, Option.bind_some, found, State.withSome,
            made_found, if_neg longer, stored]
          rfl
        rw [state] at few ⊢
        exact sound.finish busy rfl accounts few

theorem resume_unreffing (sound : Sound s) {target source : Nat} {taken : Option Nat}
    (busy : s.threads[thread]? = some (some (.unreffing target source taken)))
    (few : Few (resume s thread (.unreffing target source taken))) :
    Sound (resume s thread (.unreffing target source taken)) := by
  obtain ⟨⟨origin, from_there, origin_live, points⟩, var, there, live, own⟩ := sound.fits thread _ busy
  have inside := (List.getElem?_eq_some_iff.mp there).1
  have peaceful : Peaceful s thread (.storing target source taken) := by
    intro other foreign different there'
    constructor
    · intro v reads
      exact sound.exclusive thread _ busy other foreign there' (Ne.symm different) v reads
    · intro v writes reads
      exact sound.exclusive other foreign there' thread _ busy different v reads writes
  obtain ⟨heap, found, kept⟩ := @Sound.release s thread _ sound busy target var there live own .released
    (fun other => Life.noConfusion other) (some (.storing target source taken))
    (fun other running different there' reads => (peaceful other running different there').2 target rfl reads)
    (fun running now => by cases now; exact Or.inr rfl) (fun _ => rfl)
    (by
      intro running now
      cases now
      refine ⟨⟨?_, _, List.getElem?_set_self inside, rfl, own⟩, peaceful⟩
      -- In a self-assignment the source is the target, which keeps its pointer.
      by_cases same : source = target
      · subst same
        cases from_there.symm.trans there
        exact ⟨_, List.getElem?_set_self inside, fun other => Life.noConfusion other, points⟩
      · exact ⟨origin, by rw [List.getElem?_set_ne (Ne.symm same), from_there],
          not_dead origin_live, points⟩)
    (fun _ => ⟨_, rfl, rfl⟩)
  have state : resume s thread (.unreffing target source taken) = moved s thread heap
      (s.vars.set target { var with life := .released }) (some (.storing target source taken)) := by
    simp only [resume, withVar_eq there (not_dead live), found]
    rfl
  rw [state] at few ⊢
  exact kept few

theorem resume_storing (sound : Sound s) {target source : Nat} {taken : Option Nat}
    (busy : s.threads[thread]? = some (some (.storing target source taken)))
    (few : Few (resume s thread (.storing target source taken))) :
    Sound (resume s thread (.storing target source taken)) := by
  obtain ⟨⟨origin, from_there, alive, points⟩, var, there, released, own⟩ := sound.fits thread _ busy
  have living : var.life ≠ .dead := by rw [released]; exact fun other => Life.noConfusion other
  have state : resume s thread (.storing target source taken) =
      moved s thread s.heap (s.vars.set target { var with container := taken, life := .live }) none := by
    simp only [resume, withVar_eq there living, withVar_eq from_there alive, points]
    rfl
  rw [state] at few ⊢
  exact sound.write busy rfl there released rfl few

theorem resume_clearing (sound : Sound s) {target : Nat}
    (busy : s.threads[thread]? = some (some (.clearing target)))
    (few : Few (resume s thread (.clearing target))) : Sound (resume s thread (.clearing target)) := by
  obtain ⟨var, there, released, own⟩ := sound.fits thread _ busy
  have living : var.life ≠ .dead := by rw [released]; exact fun other => Life.noConfusion other
  have state : resume s thread (.clearing target) =
      moved s thread s.heap (s.vars.set target { var with container := none, life := .live }) none := by
    simp only [resume, withVar_eq there living]
    rfl
  rw [state] at few ⊢
  exact sound.write busy rfl there released rfl few

/-- Every operation in progress keeps the invariant with its next statement. -/
theorem resume_sound (sound : Sound s) {running : Running} (busy : s.threads[thread]? = some (some running))
    (few : Few (resume s thread running)) : Sound (resume s thread running) := by
  cases running with
  | copying owner source taken => exact resume_copying sound busy few
  | unreffing target source taken => exact resume_unreffing sound busy few
  | storing target source taken => exact resume_storing sound busy few
  | clearing target => exact resume_clearing sound busy few
  | cloning owner source made => exact resume_cloning sound busy few

end Resume

theorem step_sound {s s' : State} {history events : List Empty} {action : Action} (sound : Sound s)
    (disciplined : Disciplined s history action) (stepped : step s action = some (s', events)) : Sound s' := by
  have few : Few s' := disciplined.few (s', events) stepped
  cases action with
  | start thread operation =>
    simp only [step] at stepped
    split at stepped
    next ready =>
      cases stepped
      exact start_sound sound ready.2.2 (disciplined.anchored thread operation rfl) few
    · cases stepped
  | resume thread =>
    simp only [step] at stepped
    split at stepped
    next running busy =>
      split at stepped
      · cases stepped
        exact resume_sound sound busy few
      · cases stepped
    · cases stepped

theorem blobs_sound (count : Nat) : Sound (blobs count).start := by
  have idle : ∀ (thread : Nat) (running : Running),
      (List.replicate count (none : Option Running))[thread]? ≠ some (some running) := by
    intro thread running busy
    exact Option.noConfusion rfl (heq_of_eq (List.eq_of_mem_replicate (List.mem_of_getElem? busy)))
  have unreferenced : references (blobs count).start = fun _ => 0 := by
    funext c
    show 0 + (List.replicate count none).countP (takes c) = 0
    rw [Nat.zero_add, List.countP_eq_zero]
    intro slot member
    rw [List.eq_of_mem_replicate member]
    exact Bool.false_ne_true
  exact {
    working := rfl
    few := fun container inside => absurd inside (Nat.not_lt_zero container)
    accounts := unreferenced ▸ accounts_nil
    fits := fun thread running busy => absurd busy (idle thread running)
    exclusive := fun thread running busy => absurd busy (idle thread running)
    given := by
      intro v var there
      cases there }

theorem run_sound {count : Nat} {s : State} {history : List Empty} (run : Run (blobs count) Disciplined s history) :
    Sound s := by
  apply run.invariant (I := fun s _ => Sound s) (blobs_sound count)
  intro s history action s' events _ sound disciplined stepped
  exact step_sound sound disciplined stepped

theorem toInt_ofNat {n : Nat} (small : n < 2147483648) : (BitVec.ofNat 32 n).toInt = n := by
  have value : (BitVec.ofNat 32 n).toNat = n := by
    rw [BitVec.toNat_ofNat]
    exact Nat.mod_eq_of_lt (by omega)
  rw [BitVec.toInt_eq_toNat_of_lt (by omega), value]

/-- Whatever the threads do by the rules: nothing deleted is used, each `m_refcount` is the number of
references, and a container is deleted when this is zero; so none is left when all blobs are destroyed. -/
theorem blob_counts (count : Nat) (s : State) (history : List Empty)
    (run : Run (blobs count) Disciplined s history) :
    s.fault = false ∧
      (∀ (container : Nat) (data : Cell 32 Bytes), s.heap[container]? = some data →
        data.count.toInt = (references s container : Int) ∧ (data.deleted = true ↔ references s container = 0)) ∧
      ((∀ var ∈ s.vars, var.life = .dead) → (∀ slot ∈ s.threads, slot = none) →
        ∀ data ∈ s.heap, data.deleted = true) := by
  have sound := run_sound run
  refine ⟨sound.working, ?_, ?_⟩
  · intro container data there
    obtain ⟨counter, deleted⟩ := sound.accounts.counted container data there
    have inside := (List.getElem?_eq_some_iff.mp there).1
    exact ⟨by rw [counter, toInt_ofNat (sound.few container inside)], deleted⟩
  · intro destroyed idle data member
    obtain ⟨container, there⟩ := List.mem_iff_getElem?.mp member
    refine (sound.accounts.counted container data there).2.mpr ?_
    have vars : s.vars.countP (BlobVar.holds container) = 0 := by
      rw [List.countP_eq_zero]
      intro var inside
      simp [BlobVar.holds, destroyed var inside]
    have threads : s.threads.countP (takes container) = 0 := by
      rw [List.countP_eq_zero]
      intro slot inside
      rw [idle slot inside]
      exact Bool.false_ne_true
    rw [references, vars, threads]

/-- Two threads, of which one copies while the other assigns; then a self-assignment, a `clone`, a `clear`,
an `update`, and the end of all blobs. -/
theorem blob_counts_two_threads :
    ∃ s history, Run (blobs 2) Disciplined s history ∧ s.vars.length = 6 ∧ s.heap.length = 4 ∧
      ∀ data ∈ s.heap, data.deleted = true := by
  have checked : (replay (blobs 2) Disciplined (blobs 2).start [] [
      .start 0 (.construct 0 (ofString [0x61])), .start 0 (.construct 0 (ofCString none)),
      .start 1 (.copy 1 0), .start 0 (.assign 1 0), .resume 1, .resume 0, .resume 0,
      .start 0 (.assign 1 1), .resume 0, .start 1 (.clone 1 2), .resume 0, .resume 1,
      .start 0 (.construct 1 (ofData [1, 2])), .start 1 (.construct 0 ofNothing), .start 0 (.update 5 [3]),
      .start 1 (.clear 2), .start 0 (.destroy 0), .resume 1, .start 0 (.destroy 1),
      .start 1 (.destroy 2), .start 1 (.destroy 3), .start 1 (.destroy 4), .start 0 (.destroy 5)]).any (fun reached =>
        decide (reached.1.vars.length = 6) && decide (reached.1.heap.length = 4) &&
        decide (∀ var ∈ reached.1.vars, var.life = .dead) &&
        decide (∀ slot ∈ reached.1.threads, slot = none)) = true := by
    decide +kernel
  obtain ⟨s, history, run, reached⟩ := exists_run checked
  simp only [Bool.and_eq_true, decide_eq_true_eq] at reached
  exact ⟨s, history, run, reached.1.1.1, reached.1.1.2,
    (blob_counts 2 s history run).2.2 reached.1.2 reached.2⟩

end OsdpMaster.BlobCount
