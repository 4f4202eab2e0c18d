import OsdpMaster.BlobFrame
import OsdpMaster.BlobShelf

/-!
What blobs are for: variables that point to boxes of bytes. The counted
references, and the steps of the threads in between, do not show: every run does
what its operations do to boxes, one at a time, at their last statements.
-/

namespace OsdpMaster.BlobBoxes
open OsdpMaster.Blob OsdpMaster.BlobInvariant OsdpMaster.BlobCount OsdpMaster.BlobFrame OsdpMaster.BlobShelf
open OsdpMaster.Lib.RefCount OsdpMaster.Lib.Trace

section Reading

/-- The pointer of a variable, as a reader sees it: also while it is being changed. -/
def pointerOf (var : BlobVar) : Option (Option Nat) := if var.life = .dead then none else some var.container

def Making (threads : List (Option Running)) (thread m : Nat) : Prop :=
  ∃ owner source, threads[thread]? = some (some (.cloning owner source (some m)))

/-- The boxes are the containers, but for those that a clone is about to fill. -/
structure Reads (s : State) (shelf : Shelf) : Prop where
  vars : shelf.vars = s.vars.map pointerOf
  contents : ∀ c content, shelf.boxes c = some content → contentAt s.heap c = some content
  room : ∀ c, s.heap.length ≤ c → shelf.boxes c = none
  made : ∀ thread m, Making s.threads thread m → m < s.heap.length ∧ shelf.boxes m = none ∧
    ∀ other, Making s.threads other m → other = thread

variable {s s' : State} {shelf shelf' : Shelf}

theorem pointer_there (reads : Reads s shelf) {v : Nat} {var : BlobVar} (there : s.vars[v]? = some var)
    (alive : var.life ≠ .dead) : shelf.pointer v = some var.container := by
  rw [Shelf.pointer, reads.vars, List.getElem?_map, there, Option.map_some, pointerOf, if_neg alive]
  rfl

theorem pointer_var (reads : Reads s shelf) {v : Nat} {pointer : Option Nat} (points : shelf.pointer v = some pointer) :
    ∃ var, s.vars[v]? = some var ∧ var.container = pointer := by
  rw [Shelf.pointer, reads.vars, List.getElem?_map, Option.join_eq_some_iff, Option.map_eq_some_iff] at points
  obtain ⟨var, there, same⟩ := points
  refine ⟨var, there, ?_⟩
  unfold pointerOf at same
  split at same
  · cases same
  · exact Option.some.inj same

theorem vars_length (reads : Reads s shelf) : shelf.vars.length = s.vars.length := by
  rw [reads.vars, List.length_map]

theorem Reads.keep (reads : Reads s shelf) (boxes : shelf'.boxes = shelf.boxes)
    (vars : shelf'.vars = s'.vars.map pointerOf) (heap : SameContents s.heap s'.heap)
    (threads : ∀ thread m, Making s'.threads thread m → Making s.threads thread m) : Reads s' shelf' where
  vars := vars
  contents c content there := by
    rw [heap.2]
    exact reads.contents c content (boxes ▸ there)
  room c outside := by
    rw [boxes]
    exact reads.room c (heap.1 ▸ outside)
  made thread m making := by
    obtain ⟨inside, unfilled, alone⟩ := reads.made thread m (threads thread m making)
    rw [boxes, heap.1]
    exact ⟨inside, unfilled, fun other there => alone other (threads other m there)⟩

theorem Reads.grow (reads : Reads s shelf) {content : Bytes} (heap : s'.heap = allocate s.heap content)
    (boxes : shelf'.boxes = (shelf.fill s.heap.length content).boxes) (vars : shelf'.vars = s'.vars.map pointerOf)
    (threads : s'.threads = s.threads) : Reads s' shelf' where
  vars := vars
  contents c content' there := by
    rw [boxes] at there
    rw [heap, contentAt_allocate]
    split
    next here =>
      rw [here, fill_self] at there
      exact there
    next other =>
      rw [fill_other other] at there
      exact reads.contents c content' there
  room c outside := by
    rw [heap, allocate, List.length_append, List.length_singleton] at outside
    rw [boxes, fill_other (by omega)]
    exact reads.room c (by omega)
  made thread m making := by
    rw [threads] at making ⊢
    obtain ⟨inside, unfilled, alone⟩ := reads.made thread m making
    refine ⟨?_, ?_, alone⟩
    · rw [heap, allocate, List.length_append]
      omega
    · rw [boxes, fill_other (by omega)]
      exact unfilled

theorem Reads.fill (reads : Reads s shelf) {c : Nat} {content : Bytes} (stored : store s.heap c content = some s'.heap)
    (boxes : shelf'.boxes = (shelf.fill c content).boxes) (vars : shelf'.vars = s'.vars.map pointerOf)
    (threads : ∀ thread m, Making s'.threads thread m → Making s.threads thread m ∧ m ≠ c) : Reads s' shelf' := by
  obtain ⟨length, inside, changed⟩ := contentAt_store stored
  refine ⟨vars, ?_, ?_, ?_⟩
  · intro d content' there
    rw [boxes] at there
    rw [changed]
    split
    next here =>
      rw [here, fill_self] at there
      exact there
    next other =>
      rw [fill_other other] at there
      exact reads.contents d content' there
  · intro d outside
    rw [length] at outside
    rw [boxes, fill_other (by omega)]
    exact reads.room d outside
  · intro thread m making
    obtain ⟨before, other⟩ := threads thread m making
    obtain ⟨there, unfilled, alone⟩ := reads.made thread m before
    rw [boxes, fill_other other, length]
    exact ⟨there, unfilled, fun other there => alone other (threads other m there).1⟩

theorem Reads.begin (reads : Reads s shelf) {thread owner source : Nat} {content : Bytes}
    (idle : s.threads[thread]? = some none) (heap : s'.heap = allocate s.heap content) (vars : s'.vars = s.vars)
    (threads : s'.threads = s.threads.set thread (some (.cloning owner source (some s.heap.length)))) :
    Reads s' shelf := by
  have longer : s'.heap.length = s.heap.length + 1 := by
    rw [heap, allocate, List.length_append, List.length_singleton]
  have others (other m : Nat) (making : Making s'.threads other m) :
      other = thread ∧ m = s.heap.length ∨ other ≠ thread ∧ Making s.threads other m := by
    obtain ⟨owner', source', there⟩ := making
    rw [threads] at there
    by_cases here : thread = other
    · subst here
      rw [List.getElem?_set_self (List.getElem?_eq_some_iff.mp idle).1] at there
      cases there
      exact Or.inl ⟨rfl, rfl⟩
    · rw [List.getElem?_set_ne here] at there
      exact Or.inr ⟨Ne.symm here, owner', source', there⟩
  refine ⟨vars ▸ reads.vars, ?_, ?_, ?_⟩
  · intro c content' there
    have inside : c ≠ s.heap.length := by
      rintro rfl
      rw [reads.room _ (Nat.le_refl _)] at there
      cases there
    rw [heap, contentAt_allocate, if_neg inside]
    exact reads.contents c content' there
  · intro c outside
    exact reads.room c (by omega)
  · intro other m making
    rcases others other m making with ⟨here, same⟩ | ⟨elsewhere, before⟩
    · subst here same
      refine ⟨by omega, reads.room _ (Nat.le_refl _), ?_⟩
      intro another there
      rcases others another _ there with ⟨same, _⟩ | ⟨_, earlier⟩
      · exact same
      · exact absurd (reads.made another _ earlier).1 (Nat.lt_irrefl _)
    · obtain ⟨inside, unfilled, alone⟩ := reads.made other m before
      refine ⟨by omega, unfilled, ?_⟩
      intro another there
      rcases others another m there with ⟨_, same⟩ | ⟨_, earlier⟩
      · omega
      · exact alone another earlier

theorem making_set {threads : List (Option Running)} {thread : Nat} {slot : Option Running}
    (none_made : ∀ owner source m, slot ≠ some (.cloning owner source (some m))) (other m : Nat)
    (making : Making (threads.set thread slot) other m) : Making threads other m ∧ other ≠ thread := by
  obtain ⟨owner, source, there⟩ := making
  by_cases here : thread = other
  · subst here
    have inside : thread < threads.length := by
      have bound := (List.getElem?_eq_some_iff.mp there).1
      rwa [List.length_set] at bound
    rw [List.getElem?_set_self inside, Option.some.injEq] at there
    exact absurd there (none_made owner source m)
  · rw [List.getElem?_set_ne here] at there
    exact ⟨⟨owner, source, there⟩, Ne.symm here⟩

theorem pointers_set {vars : List BlobVar} {v : Nat} {var : BlobVar} (there : vars[v]? = some var) (var' : BlobVar) :
    (vars.set v var').map pointerOf = (vars.map pointerOf).set v (pointerOf var') ∧
      (pointerOf var' = pointerOf var → (vars.set v var').map pointerOf = vars.map pointerOf) := by
  obtain ⟨inside, found⟩ := List.getElem?_eq_some_iff.mp there
  refine ⟨List.map_set, ?_⟩
  intro same
  have inside' : v < (vars.map pointerOf).length := (List.length_map _).symm ▸ inside
  have kept : pointerOf var = (vars.map pointerOf)[v] := by
    rw [List.getElem_map, found]
  rw [List.map_set, same, kept]
  exact List.set_getElem_self inside'

end Reading

section Care

variable {s s' : State} {shelf : Shelf} {thread : Nat}

theorem cloning_apart (sound : Sound s) (reads : Reads s shelf) (whole : shelf.Whole) {owner source m c : Nat}
    (busy : s.threads[thread]? = some (some (.cloning owner source (some m)))) (points : pointsTo s.vars source = some c) :
    source < s.vars.length ∧ c < s.heap.length ∧ shelf.boxes c ≠ none ∧ m < s.heap.length ∧ shelf.boxes m = none := by
  have fits := sound.fits thread _ busy
  obtain ⟨origin, there, live, _⟩ := fits
  rw [pointsTo, there, Option.bind_some] at points
  have boxed := whole source c (by rw [pointer_there reads there (not_dead live), points])
  obtain ⟨inside, unfilled, _⟩ := reads.made thread m ⟨owner, source, busy⟩
  have below : c < s.heap.length := by
    by_contra out
    exact boxed (reads.room c (Nat.le_of_not_lt out))
  exact ⟨(List.getElem?_eq_some_iff.mp there).1, below, boxed, inside, unfilled⟩

/-- A step of one thread does not change the lengths that the clones of the others rely on, if it writes neither
the container of a source nor the one that is made. -/
theorem keeps_matched {target container : Option Nat} (keeps : Keeps s s' thread target container) (sound : Sound s)
    (reads : Reads s shelf) (whole : shelf.Whole) (matched : Matched s)
    (unread : ∀ (other : Nat) (running : Running), other ≠ thread → s.threads[other]? = some (some running) →
      ∀ v, running.source = some v → target ≠ some v)
    (apart : ∀ (other owner source m c : Nat), other ≠ thread →
      s.threads[other]? = some (some (.cloning owner source (some m))) → pointsTo s.vars source = some c →
        container ≠ some c ∧ container ≠ some m)
    (own : MatchedAt s' thread) : Matched s' := by
  intro other
  by_cases mine : other = thread
  · subst mine
    exact own
  · intro owner source m c busy points
    rw [keeps.threads other mine] at busy
    have source_there : source < s.vars.length := (sound.fits other _ busy).inside (Or.inl rfl)
    rw [pointsTo, keeps.vars source source_there (unread other _ mine busy source rfl)] at points
    obtain ⟨_, below, _, inside, _⟩ := cloning_apart sound reads whole busy points
    obtain ⟨elsewhere, unmade⟩ := apart other owner source m c mine busy points
    rw [keeps.contents m inside unmade, keeps.contents c below elsewhere]
    exact matched other owner source m c busy points

theorem matchedAt_other {slot : Option Running} (there : s.threads[thread]? = some slot)
    (other : ∀ owner source m, slot ≠ some (.cloning owner source (some m))) : MatchedAt s thread := by
  intro owner source m c busy
  exact absurd (Option.some.inj (there.symm.trans busy)) (other owner source m)

theorem matchedAt_withVar {v : Nat} {next : BlobVar → State} (fails : MatchedAt s.fail thread)
    (goes : ∀ var, s.vars[v]? = some var → MatchedAt (next var) thread) : MatchedAt (s.withVar v next) thread :=
  withVar_rule (P := fun after => MatchedAt after thread) fails goes

theorem matchedAt_withSome {β : Type} {found : Option β} {next : β → State} (fails : MatchedAt s.fail thread)
    (goes : ∀ result, found = some result → MatchedAt (next result) thread) :
    MatchedAt (s.withSome found next) thread :=
  withSome_rule (P := fun after => MatchedAt after thread) fails goes

theorem start_matchedAt (idle : s.threads[thread]? = some none) (operation : Operation) :
    MatchedAt (start s thread operation) thread := by
  have placed (slot : Option Running) : (s.threads.set thread slot)[thread]? = some slot :=
    List.getElem?_set_self (List.getElem?_eq_some_iff.mp idle).1
  have fails : MatchedAt s.fail thread := matchedAt_other idle nofun
  cases operation with
  | construct owner content =>
    cases content with
    | none => exact matchedAt_other idle nofun
    | some content => exact matchedAt_other idle nofun
  | copy owner source =>
    refine matchedAt_withVar fails fun origin _ => matchedAt_withSome fails fun heap _ => ?_
    exact matchedAt_other (placed _) nofun
  | assign target source =>
    refine matchedAt_withVar fails fun origin _ => matchedAt_withSome fails fun heap _ => ?_
    exact matchedAt_other (placed _) nofun
  | clear target =>
    refine matchedAt_withVar fails fun var _ => matchedAt_withSome fails fun heap _ => ?_
    exact matchedAt_other (placed _) nofun
  | update target content =>
    refine matchedAt_withVar fails fun var _ => ?_
    cases var.container with
    | none => exact matchedAt_other idle nofun
    | some c => exact matchedAt_withSome fails fun heap _ => matchedAt_other idle nofun
  | clone owner source =>
    refine matchedAt_withVar fails fun origin there => ?_
    cases container : origin.container with
    | none => exact matchedAt_other (placed _) nofun
    | some c =>
      refine matchedAt_withSome fails fun cell found => ?_
      intro owner' source' m d busy points
      cases (placed _).symm.trans busy
      rw [pointsTo, there, Option.bind_some, container] at points
      cases points
      have below := (List.getElem?_eq_some_iff.mp (access_there found)).1
      simp only
      rw [contentAt_allocate, if_pos rfl, contentAt_allocate, if_neg (Nat.ne_of_lt below), content_access found]
      simp
  | destroy target =>
    exact matchedAt_withVar fails fun var _ => matchedAt_withSome fails fun heap _ => matchedAt_other idle nofun

theorem resume_matchedAt {running : Running} (matched : Matched s) (busy : s.threads[thread]? = some (some running)) :
    MatchedAt (resume s thread running) thread := by
  have placed (slot : Option Running) : (s.threads.set thread slot)[thread]? = some slot :=
    List.getElem?_set_self (List.getElem?_eq_some_iff.mp busy).1
  have fails : MatchedAt s.fail thread := matched thread
  cases running with
  | copying owner source taken => exact matchedAt_withVar fails fun origin _ => matchedAt_other (placed _) nofun
  | unreffing target source taken =>
    exact matchedAt_withVar fails fun var _ => matchedAt_withSome fails fun heap _ => matchedAt_other (placed _) nofun
  | storing target source taken =>
    exact matchedAt_withVar fails fun var _ => matchedAt_withVar fails fun origin _ => matchedAt_other (placed _) nofun
  | clearing target => exact matchedAt_withVar fails fun var _ => matchedAt_other (placed _) nofun
  | cloning owner source made =>
    cases made with
    | none => exact matchedAt_other (placed _) nofun
    | some made =>
      refine matchedAt_withVar fails fun origin _ => matchedAt_withSome fails fun cell _ => matchedAt_withSome fails fun copy _ => ?_
      split
      · exact matched thread
      · exact matchedAt_withSome fails fun heap _ => matchedAt_other (placed _) nofun

/-- By the rules, no clone in progress loses the length of its source. -/
theorem step_matched {action : Action} {history events : List Empty} (sound : Sound s)
    (careful : Careful s history action) (reads : Reads s shelf) (whole : shelf.Whole) (matched : Matched s)
    (stepped : step s action = some (s', events)) : Matched s' ∧ s'.overrun = s.overrun := by
  cases action with
  | start thread operation =>
    simp only [step] at stepped
    split at stepped
    next ready =>
      cases stepped
      have anchored := careful.anchored thread operation rfl
      have keeps := start_keeps s thread operation
      refine ⟨keeps_matched keeps sound reads whole matched ?_ ?_ (start_matchedAt ready.2.2 operation), keeps.within⟩
      · intro other running _ busy v source target
        exact anchored.unread v target _ (List.mem_of_getElem? busy) running rfl source
      · intro other owner source m c _ busy points
        cases operation with
        | construct | copy | assign | clear | clone | destroy => constructor <;> rintro ⟨⟩
        | update target content =>
          constructor
          · intro same
            exact careful.uninspected target rfl c same _ (List.mem_of_getElem? busy) _ rfl points
          · intro same
            obtain ⟨var, there, living, _⟩ := anchored.owned target rfl
            have pointed : var.container = some m := by
              rwa [written, pointsTo, there, Option.bind_some] at same
            have boxed := whole target m (by rw [pointer_there reads there living, pointed])
            exact boxed (cloning_apart sound reads whole busy points).2.2.2.2
    · cases stepped
  | resume thread =>
    simp only [step] at stepped
    split at stepped
    next running mine =>
      split at stepped
      · cases stepped
        have keeps := resume_keeps matched mine
        refine ⟨keeps_matched keeps sound reads whole matched ?_ ?_ (resume_matchedAt matched mine), keeps.within⟩
        · intro other foreign different busy v source
          exact sound.exclusive other foreign busy thread running mine different v source
        · intro other owner source m c different busy points
          cases running with
          | copying | unreffing | storing | clearing => constructor <;> rintro ⟨⟩
          | cloning owner' source' made =>
            constructor
            · rintro ⟨⟩
              exact (cloning_apart sound reads whole busy points).2.2.1 (reads.made thread c ⟨owner', source', mine⟩).2.1
            · rintro ⟨⟩
              exact different ((reads.made thread m ⟨owner', source', mine⟩).2.2 other ⟨owner, source, busy⟩)
      · cases stepped
    · cases stepped

end Care

section Simulation

/-- What a statement does to the variables and boxes: an operation takes effect in its last one. -/
def effectOf (s : State) : Action → Option Effect
  | .start _ (.construct _ content) => some (.construct content s.heap.length)
  | .start _ (.update target content) => some (.update target content s.heap.length)
  | .start _ (.destroy target) => some (.destroy target)
  | .start _ _ => none
  | .resume thread =>
    match s.threads[thread]? with
    | some (some (.copying _ source _)) => some (.copy source)
    | some (some (.storing target source _)) => some (.assign target source)
    | some (some (.clearing target)) => some (.clear target)
    | some (some (.cloning _ source made)) => some (.clone source (made.getD 0))
    | _ => none

def Performs (shelf : Shelf) (effect : Option Effect) (after : Shelf) : Prop :=
  match effect with
  | none => after = shelf
  | some effect => perform shelf effect = some after

variable {s : State} {shelf : Shelf} {thread : Nat}

theorem start_construct_reads (reads : Reads s shelf) (owner : Nat) (content : Option Bytes) :
    ∃ after, perform shelf (.construct content s.heap.length) = some after ∧
      Reads (start s thread (.construct owner content)) after := by
  cases content with
  | none =>
    refine ⟨shelf.add none, rfl, reads.keep rfl ?_ ⟨rfl, rfl⟩ fun _ _ => id⟩
    simp [start, Shelf.add, reads.vars, pointerOf]
  | some content =>
    refine ⟨_, if_pos (reads.room _ (Nat.le_refl _)), reads.grow rfl rfl ?_ rfl⟩
    simp [start, Shelf.add, Shelf.fill, reads.vars, pointerOf]

theorem start_update_reads (reads : Reads s shelf) (whole : shelf.Whole) (target : Nat) (content : Bytes)
    (working : (start s thread (.update target content)).fault = false) :
    ∃ after, perform shelf (.update target content s.heap.length) = some after ∧
      Reads (start s thread (.update target content)) after := by
  simp only [start] at working
  obtain ⟨var, there, alive, same⟩ := withVar_working working
  simp only [start, same]
  rw [same] at working
  have points := pointer_there reads there alive
  cases container : var.container with
  | none =>
    rw [container] at points
    refine ⟨(shelf.fill s.heap.length content).write target (some (some s.heap.length)), ?_, reads.grow rfl rfl ?_ rfl⟩
    · simp only [perform, points, if_pos (reads.room _ (Nat.le_refl _))]
    · simp only [Shelf.write, Shelf.fill, reads.vars, (pointers_set there _).1, pointerOf, if_neg alive]
  | some c =>
    rw [container] at points working
    obtain ⟨heap, stored, after⟩ := withSome_working working
    simp only [after]
    refine ⟨shelf.fill c content, by simp only [perform, points], reads.fill stored rfl reads.vars ?_⟩
    intro other m making
    refine ⟨making, ?_⟩
    rintro rfl
    exact whole target m points (reads.made other m making).2.1

theorem start_destroy_reads (reads : Reads s shelf) (target : Nat)
    (working : (start s thread (.destroy target)).fault = false) :
    ∃ after, perform shelf (.destroy target) = some after ∧ Reads (start s thread (.destroy target)) after := by
  simp only [start] at working
  obtain ⟨var, there, alive, same⟩ := withVar_working working
  rw [same] at working
  obtain ⟨heap, released, after⟩ := withSome_working working
  simp only [start, same, after]
  refine ⟨shelf.write target none, by simp only [perform, pointer_there reads there alive, Option.map_some], ?_⟩
  refine reads.keep rfl ?_ (sameContents_unrefAny released) fun _ _ => id
  simp only [Shelf.write, reads.vars, (pointers_set there _).1, pointerOf, if_true]

theorem start_quiet_reads (reads : Reads s shelf) (idle : s.threads[thread]? = some none) {operation : Operation}
    (goes_on : effectOf s (.start thread operation) = none) (working : (start s thread operation).fault = false) :
    Reads (start s thread operation) shelf := by
  cases operation with
  | construct | update | destroy => cases goes_on
  | copy owner source =>
    simp only [start] at working
    obtain ⟨origin, there, alive, same⟩ := withVar_working working
    rw [same] at working
    obtain ⟨heap, taken, after⟩ := withSome_working working
    simp only [start, same, after]
    exact reads.keep rfl reads.vars (sameContents_refAny taken) fun other m making =>
      (making_set (by simp) other m making).1
  | assign target source =>
    simp only [start] at working
    obtain ⟨origin, there, alive, same⟩ := withVar_working working
    rw [same] at working
    obtain ⟨heap, taken, after⟩ := withSome_working working
    simp only [start, same, after]
    exact reads.keep rfl reads.vars (sameContents_refAny taken) fun other m making =>
      (making_set (by simp) other m making).1
  | clear target =>
    simp only [start] at working
    obtain ⟨var, there, alive, same⟩ := withVar_working working
    rw [same] at working
    obtain ⟨heap, released, after⟩ := withSome_working working
    simp only [start, same, after]
    refine reads.keep rfl ?_ (sameContents_unrefAny released) fun other m making =>
      (making_set (by simp) other m making).1
    rw [(pointers_set there _).2 (by simp [pointerOf, alive])]
    exact reads.vars
  | clone owner source =>
    simp only [start] at working
    obtain ⟨origin, there, alive, same⟩ := withVar_working working
    simp only [start, same]
    rw [same] at working
    cases container : origin.container with
    | none =>
      exact reads.keep rfl reads.vars ⟨rfl, rfl⟩ fun other m making => (making_set (by simp) other m making).1
    | some c =>
      rw [container] at working
      obtain ⟨cell, found, after⟩ := withSome_working working
      simp only [after]
      exact reads.begin idle rfl rfl rfl

theorem resume_cloning_reads (reads : Reads s shelf) (whole : shelf.Whole) (matched : Matched s) {owner source : Nat}
    {made : Option Nat} (busy : s.threads[thread]? = some (some (.cloning owner source made)))
    (fits : Fits s.vars thread (.cloning owner source made))
    (working : (resume s thread (.cloning owner source made)).fault = false) :
    ∃ after, perform shelf (.clone source (made.getD 0)) = some after ∧
      Reads (resume s thread (.cloning owner source made)) after := by
  obtain ⟨origin, there, live, null_iff⟩ := fits
  have points := pointer_there reads there (not_dead live)
  cases made with
  | none =>
    rw [null_iff.mp rfl] at points
    refine ⟨shelf.add none, by simp only [perform, points], reads.keep rfl ?_ ⟨rfl, rfl⟩ fun other m making =>
      (making_set (by simp) other m making).1⟩
    simp [resume, Shelf.add, reads.vars, pointerOf]
  | some made =>
    simp only [resume] at working
    obtain ⟨origin', there', alive, same⟩ := withVar_working working
    obtain rfl : origin = origin' := Option.some.inj (there.symm.trans there')
    rw [same] at working
    obtain ⟨cell, found, after⟩ := withSome_working working
    rw [after] at working
    obtain ⟨copy, made_found, after'⟩ := withSome_working working
    obtain ⟨c, container, found⟩ := Option.bind_eq_some_iff.mp found
    have lengths : copy.content.length = cell.content.length :=
      matched.lengths busy (by rw [pointsTo, there, Option.bind_some, container]) found made_found
    have whole_content : cell.content ++ copy.content.drop cell.content.length = cell.content := by
      rw [← lengths, List.drop_length, List.append_nil]
    rw [after', if_neg (by omega), whole_content] at working
    obtain ⟨heap, stored, after''⟩ := withSome_working working
    simp only [resume, same, after, after', if_neg (show ¬copy.content.length < cell.content.length by omega),
      whole_content, after'']
    rw [container] at points
    have shown : shelf.boxes c = some cell.content := by
      cases boxed : shelf.boxes c with
      | none => exact absurd boxed (whole source c points)
      | some content =>
        have held := reads.contents c content boxed
        rw [contentAt, access_there found] at held
        exact held.symm
    obtain ⟨_, unfilled, alone⟩ := reads.made thread made ⟨owner, source, busy⟩
    refine ⟨(shelf.fill made cell.content).add (some made), ?_, reads.fill stored rfl ?_ ?_⟩
    · simp only [perform, points, shown, Option.getD_some, if_pos unfilled]
    · simp [Shelf.add, Shelf.fill, reads.vars, pointerOf]
    · intro other m making
      obtain ⟨before, elsewhere⟩ := making_set (by simp) other m making
      refine ⟨before, ?_⟩
      rintro rfl
      exact elsewhere (alone other before)

theorem resume_reads (reads : Reads s shelf) (whole : shelf.Whole) (matched : Matched s) {running : Running}
    (busy : s.threads[thread]? = some (some running)) (fits : Fits s.vars thread running)
    (working : (resume s thread running).fault = false) :
    ∃ after, Performs shelf (effectOf s (.resume thread)) after ∧ Reads (resume s thread running) after := by
  simp only [effectOf, busy]
  cases running with
  | copying owner source taken =>
    simp only [resume] at working
    obtain ⟨origin, there, alive, same⟩ := withVar_working working
    simp only [resume, same]
    refine ⟨shelf.add origin.container, ?_, reads.keep rfl ?_ ⟨rfl, rfl⟩ fun other m making =>
      (making_set (by simp) other m making).1⟩
    · simp only [Performs, perform, pointer_there reads there alive, Option.map_some]
    · simp [Shelf.add, reads.vars, pointerOf]
  | unreffing target source taken =>
    simp only [resume] at working
    obtain ⟨var, there, alive, same⟩ := withVar_working working
    rw [same] at working
    obtain ⟨heap, released, after⟩ := withSome_working working
    simp only [resume, same, after]
    refine ⟨shelf, rfl, reads.keep rfl ?_ (sameContents_unrefAny released) fun other m making =>
      (making_set (by simp) other m making).1⟩
    rw [(pointers_set there _).2 (by simp [pointerOf, alive])]
    exact reads.vars
  | storing target source taken =>
    simp only [resume] at working
    obtain ⟨var, there, alive, same⟩ := withVar_working working
    rw [same] at working
    obtain ⟨origin, from_there, origin_alive, same'⟩ := withVar_working working
    simp only [resume, same, same']
    refine ⟨shelf.write target (some origin.container), ?_, reads.keep rfl ?_ ⟨rfl, rfl⟩ fun other m making =>
      (making_set (by simp) other m making).1⟩
    · simp only [Performs, perform, pointer_there reads there alive, pointer_there reads from_there origin_alive]
    · simp [Shelf.write, reads.vars, (pointers_set there _).1, pointerOf]
  | clearing target =>
    simp only [resume] at working
    obtain ⟨var, there, alive, same⟩ := withVar_working working
    simp only [resume, same]
    refine ⟨shelf.write target (some none), ?_, reads.keep rfl ?_ ⟨rfl, rfl⟩ fun other m making =>
      (making_set (by simp) other m making).1⟩
    · simp only [Performs, perform, pointer_there reads there alive, Option.map_some]
    · simp [Shelf.write, reads.vars, (pointers_set there _).1, pointerOf]
  | cloning owner source made => exact resume_cloning_reads reads whole matched busy fits working

/-- Every step by the rules does its effect to the boxes. -/
theorem step_reads {s' : State} {action : Action} {history events : List Empty} (sound : Sound s)
    (disciplined : Disciplined s history action) (reads : Reads s shelf) (whole : shelf.Whole) (matched : Matched s)
    (stepped : step s action = some (s', events)) :
    ∃ after, Performs shelf (effectOf s action) after ∧ Reads s' after := by
  have working := (step_sound sound disciplined stepped).working
  cases action with
  | start thread operation =>
    simp only [step] at stepped
    split at stepped
    next ready =>
      cases stepped
      cases operation with
      | construct owner content => exact start_construct_reads reads owner content
      | update target content => exact start_update_reads reads whole target content working
      | destroy target => exact start_destroy_reads reads target working
      | copy | assign | clear | clone => exact ⟨shelf, rfl, start_quiet_reads reads ready.2.2 rfl working⟩
    · cases stepped
  | resume thread =>
    simp only [step] at stepped
    split at stepped
    next running busy =>
      split at stepped
      · cases stepped
        exact resume_reads reads whole matched busy (sound.fits thread running busy) working
      · cases stepped
    · cases stepped

end Simulation

section Runs

variable {count : Nat} {s : State} {steps : List (Step State Action Empty)}

def effects (steps : List (Step State Action Empty)) : List Effect :=
  steps.filterMap fun step => effectOf step.before step.action

def Went (steps : List (Step State Action Empty)) (shelf : Shelf) : Prop :=
  (effects steps).foldlM perform Shelf.empty = some shelf

theorem went_snoc {step : Step State Action Empty} {shelf after : Shelf} (went : Went steps shelf)
    (performs : Performs shelf (effectOf step.before step.action) after) : Went (steps ++ [step]) after := by
  unfold Went effects at went ⊢
  rw [List.filterMap_append, List.foldlM_append, went]
  unfold Performs at performs
  cases effect : effectOf step.before step.action with
  | none =>
    rw [effect] at performs
    simp [effect, performs]
  | some effect' =>
    rw [effect] at performs
    simp [effect, performs]

structure Shows (s : State) (steps : List (Step State Action Empty)) (shelf : Shelf) : Prop where
  sound : Sound s
  went : Went steps shelf
  whole : shelf.Whole
  reads : Reads s shelf
  matched : Matched s
  within : s.overrun = false

theorem Shows.step {step : Step State Action Empty} {shelf : Shelf} (shows : Shows step.before steps shelf)
    (careful : Careful step.before [] step.action)
    (stepped : Blob.step step.before step.action = some (step.after, step.events)) :
    ∃ after, Performs shelf (effectOf step.before step.action) after ∧ Shows step.after (steps ++ [step]) after := by
  have disciplined := careful.toDisciplined
  obtain ⟨after, performs, reads⟩ := step_reads shows.sound disciplined shows.reads shows.whole shows.matched stepped
  obtain ⟨matched, same⟩ := step_matched shows.sound careful shows.reads shows.whole shows.matched stepped
  refine ⟨after, performs, step_sound shows.sound disciplined stepped, went_snoc shows.went performs, ?_, reads, matched,
    same.trans shows.within⟩
  unfold Performs at performs
  split at performs
  · exact performs ▸ shows.whole
  · exact perform_whole shows.whole performs

theorem shows_on {later : List (Step State Action Empty)} {s' : State} {shelf : Shelf} (shows : Shows s steps shelf)
    (path : Path (blobs count) s later s')
    (careful : ∀ step ∈ later, Careful step.before [] step.action) : ∃ after, Shows s' (steps ++ later) after := by
  apply path.invariant (I := fun s steps => ∃ shelf, Shows s steps shelf) steps ⟨shelf, shows⟩
  rintro earlier step member ⟨before, shows⟩ stepped
  obtain ⟨after, _, next⟩ := shows.step (careful step member) stepped
  exact ⟨after, next⟩

theorem shows_start (count : Nat) : Shows (blobs count).start [] Shelf.empty := by
  refine ⟨blobs_sound count, rfl, ?_, ⟨rfl, ?_, fun _ _ => rfl, ?_⟩, ?_, rfl⟩
  · intro v box there
    cases there
  · intro c content there
    cases there
  · rintro thread m ⟨owner, source, there⟩
    cases List.eq_of_mem_replicate (List.mem_of_getElem? there)
  · intro thread owner source m c busy
    cases List.eq_of_mem_replicate (List.mem_of_getElem? busy)

theorem Shows.get {shelf : Shelf} (shows : Shows s steps shelf) {v : Nat} {var : BlobVar}
    (there : s.vars[v]? = some var) (live : var.life = .live) :
    shelf.pointer v = some var.container ∧ ∀ c, var.container = some c →
      ∃ data, access s.heap c = some data ∧ shelf.get v = some data.content := by
  have points := pointer_there shows.reads there (not_dead live)
  refine ⟨points, ?_⟩
  intro c container
  obtain ⟨data, found, cell, _⟩ := shows.sound.accounts.access (references_pos there live container)
  refine ⟨data, found, ?_⟩
  rw [container] at points
  simp only [Shelf.get, points]
  cases boxed : shelf.boxes c with
  | none => exact absurd boxed (shows.whole v c points)
  | some content =>
    have held := shows.reads.contents c content boxed
    rw [contentAt, cell] at held
    exact held.symm

/-- Whatever the threads do by the rules, no `memcpy` overruns its vector and the blobs are what their operations,
each in its last statement, make of boxes: a live blob is null, or its container is there and holds the bytes of its
box, and two blobs share a container exactly if they share a box. -/
theorem blobs_are_boxes (count : Nat) (s : State) (steps : List (Step State Action Empty))
    (path : Path (blobs count) (blobs count).start steps s)
    (careful : ∀ step ∈ steps, Careful step.before [] step.action) :
    s.overrun = false ∧ ∃ shelf, (effects steps).foldlM perform Shelf.empty = some shelf ∧
      shelf.vars.length = s.vars.length ∧ ∀ v var, s.vars[v]? = some var → (var.life = .dead → shelf.pointer v = none) ∧
        (var.life = .live → shelf.pointer v = some var.container ∧ ∀ c, var.container = some c →
          ∃ data, access s.heap c = some data ∧ shelf.get v = some data.content) := by
  obtain ⟨shelf, shows⟩ := shows_on (shows_start count) path careful
  refine ⟨shows.within, shelf, shows.went, vars_length shows.reads, ?_⟩
  intro v var there
  refine ⟨?_, shows.get there⟩
  intro dead
  rw [Shelf.pointer, shows.reads.vars, List.getElem?_map, there, Option.map_some, pointerOf, if_pos dead]
  rfl

/-- A copy and a clone of one blob: an update of the copy shows in the blob, and not in the clone. -/
theorem blobs_are_boxes_shared :
    ∃ s steps shelf, Path (blobs 2) (blobs 2).start steps s ∧
      (effects steps).foldlM perform Shelf.empty = some shelf ∧ shelf.get 0 = some [3] ∧ shelf.get 2 = some [0x61, 0] := by
  have checked : (walk (blobs 2) (blobs 2).start [
      .start 0 (.construct 0 (ofString [0x61])), .start 1 (.copy 1 0), .resume 1, .start 0 (.clone 0 0), .resume 0,
      .start 1 (.update 1 [3])]).any (fun walked =>
        walked.1.all (fun step => decide (Careful step.before [] step.action)) &&
        decide (walked.2.vars[0]? = some ⟨0, some 0, .live⟩) && decide (walked.2.vars[2]? = some ⟨0, some 1, .live⟩) &&
        decide ((access walked.2.heap 0).map Cell.content = some [3]) &&
        decide ((access walked.2.heap 1).map Cell.content = some [0x61, 0])) = true := by
    decide +kernel
  obtain ⟨⟨steps, s⟩, walked, good⟩ := (Option.any_eq_true _ _).mp checked
  simp only [Bool.and_eq_true, List.all_eq_true, decide_eq_true_eq] at good
  obtain ⟨⟨⟨⟨careful, first⟩, third⟩, updated⟩, copied⟩ := good
  have path := path_of_walk walked
  obtain ⟨_, shelf, went, _, shown⟩ := blobs_are_boxes 2 s steps path careful
  obtain ⟨data, found, same⟩ := ((shown 0 _ first).2 rfl).2 0 rfl
  obtain ⟨data', found', same'⟩ := ((shown 2 _ third).2 rfl).2 1 rfl
  rw [found] at updated
  rw [found'] at copied
  exact ⟨s, steps, shelf, path, went, same.trans updated, same'.trans copied⟩

/-- An alias that is updated while `clone` runs: the `memcpy` takes the new size, and the vector has the old one. -/
example : (walk (blobs 2) (blobs 2).start [
    .start 0 (.construct 0 (ofString [0x61])), .start 1 (.copy 1 0), .resume 1, .start 0 (.clone 0 0),
    .start 1 (.update 1 [1, 2, 3]), .resume 0]).any (fun walked =>
      walked.1.all (fun step => decide (Disciplined step.before [] step.action)) && walked.2.overrun) = true := by
  decide +kernel

/-- A box stays with its variable, and keeps its bytes, until an effect mentions the variable. -/
theorem sole_lasts {later : List (Step State Action Empty)} {s' : State} {shelf : Shelf} {v box : Nat}
    (sole : Sole shelf v box) (shows : Shows s steps shelf) (path : Path (blobs count) s later s')
    (careful : ∀ step ∈ later, Careful step.before [] step.action)
    (apart : ∀ effect ∈ effects later, ¬effect.mentions v) :
    ∃ after, Shows s' (steps ++ later) after ∧ Sole after v box ∧ after.boxes box = shelf.boxes box := by
  apply path.invariant (I := fun s steps => ∃ now, Shows s steps now ∧ Sole now v box ∧
    now.boxes box = shelf.boxes box) steps ⟨shelf, shows, sole, rfl⟩
  rintro earlier step member ⟨now, shows, sole, same⟩ stepped
  obtain ⟨after, performs, next⟩ := shows.step (careful step member) stepped
  refine ⟨after, next, ?_⟩
  cases effect : effectOf step.before step.action with
  | none =>
    rw [effect] at performs
    cases performs
    exact ⟨sole, same⟩
  | some effect' =>
    rw [effect] at performs
    have unmentioned := apart effect' (List.mem_filterMap.mpr ⟨step, member, effect⟩)
    obtain ⟨sole', kept⟩ := perform_sole shows.whole sole unmentioned performs
    exact ⟨sole', kept.trans same⟩

/-- After `clone` has made another distinct blob with the same content, no operation on other blobs shows in it. -/
theorem clone_kept (count : Nat) (s after : State) (earlier later : List (Step State Action Empty))
    (last : Step State Action Empty) (thread owner source m : Nat)
    (path : Path (blobs count) (blobs count).start (earlier ++ last :: later) after)
    (careful : ∀ step ∈ earlier ++ last :: later, Careful step.before [] step.action)
    (here : last.before = s) (resumed : last.action = .resume thread)
    (cloning : s.threads[thread]? = some (some (.cloning owner source (some m))))
    (apart : ∀ effect ∈ effects later, ¬effect.mentions s.vars.length) :
    ∃ c data var, (s.vars[source]?).bind BlobVar.container = some c ∧ access s.heap c = some data ∧
      after.vars[s.vars.length]? = some var ∧ var.container = some m ∧
      (var.life = .live → ∃ copy, access after.heap m = some copy ∧ copy.content = data.content) := by
  subst here
  obtain ⟨_, before, rest⟩ := path.split
  cases rest with
  | cons _ here stepped rest =>
    subst here
    have allowed := fun step member => careful step (List.mem_append_left _ member)
    obtain ⟨shelf, shows⟩ := shows_on (shows_start count) before allowed
    obtain ⟨origin, there, live, null_iff⟩ := shows.sound.fits thread _ cloning
    obtain ⟨c, container⟩ := Option.ne_none_iff_exists'.mp fun none => nomatch null_iff.mpr none
    obtain ⟨points, shown⟩ := shows.get there live
    obtain ⟨data, found, held⟩ := shown c container
    obtain ⟨next, performs, shows'⟩ := shows.step
      (careful _ (List.mem_append_right _ List.mem_cons_self)) stepped
    have effect : effectOf last.before last.action = some (.clone source m) := by
      simp only [resumed, effectOf, cloning, Option.getD_some]
    rw [effect] at performs
    rw [container] at points
    obtain ⟨sole, content⟩ := perform_clone shows.whole points performs
    rw [vars_length shows.reads] at sole
    obtain ⟨final, shows'', sole', kept⟩ := sole_lasts sole shows' rest
      (fun step member => careful step (List.mem_append_right _ (List.mem_cons_of_mem _ member))) apart
    obtain ⟨var, there', pointer⟩ := pointer_var shows''.reads sole'.1
    refine ⟨c, data, var, by rw [there, Option.bind_some, container], found, there', pointer, ?_⟩
    intro live'
    obtain ⟨points', shown'⟩ := shows''.get there' live'
    obtain ⟨copy, found', held'⟩ := shown' m pointer
    refine ⟨copy, found', ?_⟩
    simp only [Shelf.get, sole'.1] at held'
    simp only [Shelf.get, points] at held
    exact Option.some.inj (held'.symm.trans (kept.trans (content.trans held)))

theorem clone_kept_cleared :
    ∃ (after : State) (var : BlobVar) (copy : Cell 32 Bytes), after.vars[1]? = some var ∧ var.container = some 1 ∧
      access after.heap 1 = some copy ∧ copy.content = [0x61, 0] := by
  have checked : (walk (blobs 1) (blobs 1).start [
      .start 0 (.construct 0 (ofString [0x61])), .start 0 (.clone 0 0), .resume 0,
      .start 0 (.clear 0), .resume 0]).any (fun walked =>
        walked.1.all (fun step => decide (Careful step.before [] step.action)) &&
        decide (∃ last ∈ walked.1[2]?, last.action = .resume 0 ∧ last.before.vars = [⟨0, some 0, .live⟩] ∧
          last.before.threads[0]? = some (some (.cloning 0 0 (some 1))) ∧
          (access last.before.heap 0).map Cell.content = some [0x61, 0]) &&
        decide (effects (walked.1.drop 3) = [.clear 0]) &&
        decide (walked.2.vars[1]? = some ⟨0, some 1, .live⟩)) = true := by
    decide +kernel
  obtain ⟨⟨steps, after⟩, walked, good⟩ := (Option.any_eq_true _ _).mp checked
  simp only [Bool.and_eq_true, List.all_eq_true, decide_eq_true_eq] at good
  obtain ⟨⟨⟨careful, last, third, resumed, vars, cloning, source⟩, cleared⟩, copied⟩ := good
  obtain ⟨inside, here⟩ := List.getElem?_eq_some_iff.mp third
  have parts : steps = steps.take 2 ++ last :: steps.drop 3 := by
    rw [← here, ← List.drop_eq_getElem_cons inside, List.take_append_drop]
  have apart : ∀ effect ∈ effects (steps.drop 3), ¬effect.mentions last.before.vars.length := by
    rw [cleared, vars]
    intro effect member
    rw [List.mem_singleton.mp member]
    exact Nat.zero_ne_one
  have path := path_of_walk walked
  rw [parts] at path careful
  obtain ⟨c, data, var, points, found, there, container, kept⟩ :=
    clone_kept 1 last.before after _ _ last 0 0 0 1 path careful rfl resumed cloning apart
  rw [vars] at points there
  cases points
  rw [found] at source
  cases copied.symm.trans there
  obtain ⟨copy, found', same⟩ := kept rfl
  exact ⟨after, _, copy, copied, container, found', same.trans (Option.some.inj source)⟩

end Runs

end OsdpMaster.BlobBoxes
