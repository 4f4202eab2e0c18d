import OsdpMaster.FrameSpec
import OsdpMaster.ReadInput

/-!
What each function of the receive path takes from its input and leaves in
`m_in_buffer`, for every way the reads fall out. The last theorem puts them
together: `readcook` is `FrameSpec.parse` on the stream of its input, or ends at
a late `EAGAIN`, an error, or the end of the input.
-/

namespace OsdpMaster.ReadSpec
open OsdpMaster.Protocol OsdpMaster.Lib.Program OsdpMaster.ReadInput OsdpMaster.FrameSpec OsdpMaster.Crc16

def Kept (m after : Protocol) : Prop :=
  after = { m with inBuffer := after.inBuffer, input := after.input, waits := after.waits }

theorem Kept.refl (m : Protocol) : Kept m m := rfl

theorem Kept.deadline {m after : Protocol} (kept : Kept m after) : after.deadline = m.deadline := by
  unfold Kept at kept
  rw [kept]

theorem Kept.myAddr {m after : Protocol} (kept : Kept m after) : after.myAddr = m.myAddr := by
  unfold Kept at kept
  rw [kept]

theorem Kept.config {m after : Protocol} (kept : Kept m after) : after.config = m.config := by
  unfold Kept at kept
  rw [kept]

theorem Kept.trans {m middle after : Protocol} (first : Kept m middle) (second : Kept middle after) :
    Kept m after := by
  unfold Kept at first second ⊢
  rw [second, first]

/-- From `m` to `after` the run took `marks`, its reads of 0 bytes only while `Z` held. -/
structure Progress (m : Protocol) (Z : Bytes → Prop) (marks : List (Option UInt8))
    (after : Protocol) : Prop where
  took : Took m.deadline m.input marks after.input
  dry : Dry Z marks
  kept : Kept m after

theorem Progress.refl (m : Protocol) (Z : Bytes → Prop) : Progress m Z [] m where
  took := Took.refl _ _
  dry := Dry.nil Z
  kept := Kept.refl m

theorem Progress.mono {m after : Protocol} {Z Z' : Bytes → Prop} {marks : List (Option UInt8)}
    (progress : Progress m Z marks after) (weaker : ∀ bytes, Z bytes → Z' bytes) :
    Progress m Z' marks after where
  took := progress.took
  dry := progress.dry.mono weaker
  kept := progress.kept

theorem Progress.trans {m middle after : Protocol} {Z : Bytes → Prop}
    {first second : List (Option UInt8)} (start : Progress m Z first middle)
    (rest : Progress middle (fun bytes => Z (arrived first ++ bytes)) second after) :
    Progress m Z (first ++ second) after where
  took := start.took.trans (start.kept.deadline ▸ rest.took)
  dry := start.dry.append rest.dry
  kept := start.kept.trans rest.kept

theorem Progress.buffer {m after : Protocol} {Z : Bytes → Prop} {marks : List (Option UInt8)}
    (progress : Progress m Z marks after) (buffer : Buffer) :
    Progress m Z marks { after with inBuffer := buffer } where
  took := progress.took
  dry := progress.dry
  kept := progress.kept.trans rfl

theorem Progress.halts {m middle : Protocol} {P Z : Bytes → Prop} {marks : List (Option UInt8)}
    {stop : Stop} (progress : Progress m Z marks middle)
    (halts : Halts middle.deadline middle.input (fun bytes => P (arrived marks ++ bytes))
      (fun bytes => Z (arrived marks ++ bytes)) stop) :
    Halts m.deadline m.input P Z stop :=
  Halts.after progress.took progress.dry (progress.kept.deadline ▸ halts)

section ReadSome

/-- What one successful read of up to `count` bytes at `offset` leaves. -/
structure Filled (m : Protocol) (offset count : Nat) (got : Bytes) (value : Nat)
    (after : Protocol) : Prop where
  value_eq : value = offset + got.length
  short : got.length ≤ count
  took : Took m.deadline m.input (taken got) after.input
  front : after.inBuffer.bytes.take (offset + got.length) = m.inBuffer.bytes.take offset ++ got
  kept : Kept m after
  used : after.pending < m.pending

theorem Filled.progress {m after : Protocol} {offset count value : Nat} {got : Bytes}
    (filled : Filled m offset count got value after) {Z : Bytes → Prop} (empty : Z []) :
    Progress m Z (taken got) after where
  took := filled.took
  dry := Dry.taken got empty
  kept := filled.kept

theorem marksOf_split (bytes : Bytes) (count : Nat) (positive : 0 < count) (rest : List ReadOutcome) :
    marksOf (.data bytes :: rest) = taken (bytes.take count) ++
      marksOf (if bytes.drop count = [] then rest else .data (bytes.drop count) :: rest) := by
  by_cases all : bytes.drop count = []
  · rw [if_pos all, marksOf_data, List.take_of_length_le (List.drop_eq_nil_iff.mp all)]
  · have some_left : bytes ≠ [] := by
      intro same
      subst same
      simp at all
    have some_got : bytes.take count ≠ [] := by
      simp only [ne_eq, List.take_eq_nil_iff, not_or]
      exact ⟨by omega, some_left⟩
    rw [if_neg all, marksOf_data, marksOf_data, taken, taken, taken, if_neg all, if_neg some_left,
      if_neg some_got, ← List.append_assoc, ← List.map_append, List.take_append_drop]

theorem loud_split (deadline : Timespec) (bytes left : Bytes) (rest : List ReadOutcome)
    (outcome : ReadOutcome) (noisy : ¬Quiet deadline outcome) :
    outcome ∈ ReadOutcome.data bytes :: rest ↔
      outcome ∈ (if left = [] then rest else .data left :: rest) := by
  have notData : ∀ some_bytes, outcome ≠ .data some_bytes := by
    intro some_bytes same
    subst same
    exact noisy trivial
  split <;> simp [notData]

theorem pendingOf_split (bytes : Bytes) (count : Nat) (positive : 0 < count) (rest : List ReadOutcome) :
    pendingOf (if bytes.drop count = [] then rest else .data (bytes.drop count) :: rest) <
      pendingOf (.data bytes :: rest) := by
  split
  · simp only [pendingOf]
    omega
  next left =>
    have longer : count < bytes.length := by
      by_contra short
      exact left (List.drop_eq_nil_iff.mpr (by omega))
    simp only [pendingOf, List.length_drop]
    omega

theorem readAgain_ends (offset count : Nat) (room : offset + count ≤ SLAVE_BUFF_SIZE)
    (positive : 0 < count) (Z : Bytes → Prop) (input : List ReadOutcome) (m : Protocol) :
    Ends (fun m => readAgain offset count room m input) m
      (fun value after => ∃ got, Filled { m with input := input } offset count got value after)
      (fun stop _ => Halts m.deadline input (· = []) Z stop) := by
  induction input generalizing m with
  | nil => exact ⟨by simp, rfl, Dry.nil Z⟩
  | cons outcome rest ih =>
    have skipped (quiet : Quiet m.deadline outcome)
        (unmarked : marksOf (outcome :: rest) = marksOf rest) (later : Protocol)
        (same : later = { m with waits := later.waits })
        (used : pendingOf rest < pendingOf (outcome :: rest)) :
        Ends (fun m => readAgain offset count room m rest) later
          (fun value after => ∃ got,
            Filled { m with input := outcome :: rest } offset count got value after)
          (fun stop _ => Halts m.deadline (outcome :: rest) (· = []) Z stop) := by
      rw [same]
      apply (ih _).mono
      · intro value after holds
        obtain ⟨got, filled⟩ := holds
        have waited : Kept { m with input := outcome :: rest }
          { m with waits := later.waits, input := rest } := rfl
        exact ⟨got, filled.value_eq, filled.short, filled.took.skip quiet unmarked, filled.front,
          waited.trans filled.kept, filled.used.trans used⟩
      · intro stop _ halts
        exact Halts.after (Took.skip quiet unmarked (Took.refl _ _)) (Dry.nil Z) halts
    cases outcome with
    | data bytes =>
      have fits : offset + (bytes.take count).length ≤ SLAVE_BUFF_SIZE := by
        have short := List.length_take_le count bytes
        omega
      exact ⟨bytes.take count, rfl, List.length_take_le _ _,
        ⟨marksOf_split bytes count positive rest, loud_split m.deadline bytes _ rest⟩,
        take_store m.inBuffer offset (bytes.take count) fits, rfl,
        pendingOf_split bytes count positive rest⟩
    | eintr => exact skipped trivial rfl m rfl (by simp only [pendingOf]; omega)
    | eagain tick =>
      cases late : expired m.deadline tick with
      | true => simp only [Ends, readAgain, late, if_true]; exact ⟨rfl, tick, by simp, late⟩
      | false =>
        simp only [Ends, readAgain, late, Bool.false_eq_true, if_false]
        exact skipped late rfl { m with waits := m.waits ++ [pollWait (pollTimer m.deadline tick)] }
          rfl (by simp only [pendingOf]; omega)
    | error => exact List.mem_cons_self

theorem readSome_ends (m : Protocol) (offset count : Nat) (positive : 0 < count)
    (room : offset + count ≤ SLAVE_BUFF_SIZE) (Z : Bytes → Prop) :
    Ends (readSome offset count) m
      (fun value after => ∃ got, Filled m offset count got value after)
      (fun stop _ => Halts m.deadline m.input (· = []) Z stop) := by
  have ends := readAgain_ends offset count room positive Z m.input m
  simpa only [Ends, readSome, dif_pos (And.intro positive room)] using ends

end ReadSome

section Accesses

theorem load_ends (m : Protocol) (i : Nat) (inside : i < SLAVE_BUFF_SIZE)
    (Q : UInt8 → Protocol → Prop) (E : Stop → Protocol → Prop) :
    Ends (load i) m Q E ↔ Q (m.inBuffer.bytes.getD i 0) m := by
  have bounds : 0 ≤ (i : Int) ∧ (i : Int) < (SLAVE_BUFF_SIZE : Int) := by omega
  simp only [load, ends_bind, ends_get, if_pos bounds, ends_pure, Int.toNat_natCast]

theorem loadRange_ends (m : Protocol) (length : Nat) (inside : length ≤ SLAVE_BUFF_SIZE)
    (Q : Bytes → Protocol → Prop) (E : Stop → Protocol → Prop) :
    Ends (loadRange length) m Q E ↔ Q (m.inBuffer.bytes.take length) m := by
  have bound : (length : Int) ≤ (SLAVE_BUFF_SIZE : Int) := by omega
  simp only [loadRange, ends_bind, ends_get, if_pos bound, ends_pure, Int.toNat_natCast]

theorem storeFront_ends (m : Protocol) (data : Bytes) (fits : data.length ≤ SLAVE_BUFF_SIZE)
    (Q : Unit → Protocol → Prop) (E : Stop → Protocol → Prop)
    (next : ∀ buffer : Buffer, buffer.bytes.take data.length = data →
      Q () { m with inBuffer := buffer }) :
    Ends (storeFront data) m Q E := by
  have fits' : 0 + data.length ≤ SLAVE_BUFF_SIZE := by omega
  simp only [storeFront, ends_bind, ends_get, dif_pos fits']
  apply next
  have front := take_store m.inBuffer 0 data fits'
  simpa using front

theorem take_of_take {bytes front : Bytes} {short long : Nat} (le : short ≤ long)
    (eq : bytes.take long = front) : bytes.take short = front.take short := by
  rw [← eq, List.take_take, Nat.min_eq_left le]

theorem getD_of_take {bytes front : Bytes} {length i : Nat} (inside : i < length)
    (eq : bytes.take length = front) : bytes.getD i 0 = front.getD i 0 := by
  rw [← eq, List.getD_eq_getElem?_getD, List.getD_eq_getElem?_getD, List.getElem?_take_of_lt inside]

end Accesses

section ReadUpTo

theorem readUpTo_ends (m : Protocol) (total offset : Nat) (inside : offset ≤ total)
    (small : total ≤ SLAVE_BUFF_SIZE) :
    Ends (readUpTo total offset) m
      (fun value after => value = total ∧ ∃ marks,
        Progress m (fun bytes => bytes.length < total - offset) marks after ∧
        (arrived marks).length = total - offset ∧
        after.inBuffer.bytes.take total = m.inBuffer.bytes.take offset ++ arrived marks)
      (fun stop _ => Halts m.deadline m.input (fun bytes => bytes.length < total - offset)
        (fun bytes => bytes.length < total - offset) stop) := by
  apply ends_forever (fun reached s => reached ≤ total ∧ ∃ marks,
    Progress m (fun bytes => bytes.length < total - offset) marks s ∧
    offset + (arrived marks).length = reached ∧
    s.inBuffer.bytes.take reached = m.inBuffer.bytes.take offset ++ arrived marks)
  · intro reached s holds
    obtain ⟨bounded, marks, progress, count, front⟩ := holds
    by_cases more : reached < total
    · have missing : (arrived marks).length < total - offset := by omega
      simp only [if_pos more, ends_bind, ends_pure]
      apply (readSome_ends s reached (total - reached) (by omega) (by omega)
        (fun bytes => (arrived marks ++ bytes).length < total - offset)).mono
      · intro value after holds
        obtain ⟨got, filled⟩ := holds
        have short := filled.short
        have value_eq := filled.value_eq
        refine ⟨⟨by omega, marks ++ taken got, ?_, ?_, ?_⟩, filled.used⟩
        · exact progress.trans (filled.progress (by simpa using missing))
        · rw [arrived_append, arrived_taken, List.length_append]
          omega
        · rw [value_eq, filled.front, front, arrived_append, arrived_taken, List.append_assoc]
      · intro stop _ halts
        refine progress.halts (halts.mono ?_ (fun _ dry => dry))
        intro bytes same
        subst same
        simpa using missing
    · have done : reached = total := by omega
      simp only [if_neg more, ends_pure]
      exact ⟨done, marks, progress, by omega, done ▸ front⟩
  · exact ⟨inside, [], Progress.refl _ _, by simp, by simp⟩

end ReadUpTo

section Readsoh

def Headless (bytes : Bytes) : Prop := (fromSoh bytes).length < sizeofCommon

theorem headless_noise {noise : Bytes} (quiet : chSOH ∉ noise) : Headless noise := by
  simp [Headless, fromSoh_of_noise noise quiet, sizeofCommon]

theorem soh_at {got : Bytes} {shift : Nat} (found : got.findIdx? (· == chSOH) = some shift) :
    shift < got.length ∧ chSOH ∉ got.take shift ∧ ∃ tail, got.drop shift = chSOH :: tail := by
  obtain ⟨inside, hit, misses⟩ := List.findIdx?_eq_some_iff_getElem.mp found
  refine ⟨inside, ?_, got.drop (shift + 1), ?_⟩
  · intro member
    obtain ⟨i, short, same⟩ := List.mem_iff_getElem.mp member
    rw [List.length_take] at short
    rw [List.getElem_take] at same
    exact misses i (by omega) (by simpa using same)
  · rw [List.drop_eq_getElem_cons inside]
    simpa only [beq_iff_eq, List.cons.injEq, and_true] using hit

theorem soh_absent {got : Bytes} (absent : got.findIdx? (· == chSOH) = none) : chSOH ∉ got := by
  intro member
  have missed := List.findIdx?_eq_none_iff.mp absent chSOH member
  simp at missed

theorem fromSoh_found {noise part : Bytes} (quiet : chSOH ∉ noise) (starts : ∃ tail, part = chSOH :: tail)
    (bytes : Bytes) : fromSoh (noise ++ (part ++ bytes)) = part ++ bytes := by
  obtain ⟨tail, rfl⟩ := starts
  rw [fromSoh_noise noise quiet, List.cons_append, fromSoh_soh]

theorem moveSoh_ends (m : Protocol) (got : Bytes) (shift : Nat) (inside : shift < got.length)
    (short : got.length ≤ SLAVE_BUFF_SIZE) (front : m.inBuffer.bytes.take got.length = got)
    (Q : Unit → Protocol → Prop) (E : Stop → Protocol → Prop)
    (next : ∀ buffer : Buffer, buffer.bytes.take (got.length - shift) = got.drop shift →
      Q () { m with inBuffer := buffer }) :
    Ends (moveSoh got shift) m Q E := by
  unfold moveSoh
  by_cases moved : shift > 0
  · rw [if_pos moved]
    refine storeFront_ends m _ (by rw [List.length_drop]; omega) Q E ?_
    intro buffer kept
    rw [List.length_drop] at kept
    exact next buffer kept
  · have atStart : shift = 0 := by omega
    subst atStart
    rw [if_neg moved, ends_pure]
    exact next m.inBuffer (by simpa using front)

/-- After `readsoh` the buffer starts with a header; before it the input held noise only. -/
theorem readsoh_ends (m : Protocol) :
    Ends readsoh m
      (fun value after => value = sizeofCommon ∧ ∃ marks noise header,
        Progress m Headless marks after ∧ arrived marks = noise ++ header ∧ chSOH ∉ noise ∧
        header.length = sizeofCommon ∧ header.head? = some chSOH ∧
        after.inBuffer.bytes.take sizeofCommon = header)
      (fun stop _ => Halts m.deadline m.input Headless Headless stop) := by
  apply ends_forever (fun _ s => ∃ marks, Progress m Headless marks s ∧ chSOH ∉ arrived marks)
  · intro _ s holds
    obtain ⟨marks, progress, quiet⟩ := holds
    simp only [ends_bind]
    apply storeFront_ends s (List.replicate sizeofCommon 0) (by decide)
    intro cleared _
    apply (readSome_ends { s with inBuffer := cleared } 0 sizeofCommon (by decide) (by decide)
      (fun bytes => Headless (arrived marks ++ bytes))).mono
    · intro value after holds
      obtain ⟨got, filled⟩ := holds
      have short := filled.short
      have value_eq : value = got.length := by rw [filled.value_eq, Nat.zero_add]
      have front : after.inBuffer.bytes.take got.length = got := by
        simpa using filled.front
      have read : Progress m Headless (marks ++ taken got) after :=
        (progress.buffer cleared).trans (filled.progress (by simpa using headless_noise quiet))
      subst value_eq
      rw [loadRange_ends _ _ (by unfold sizeofCommon SLAVE_BUFF_SIZE at *; omega), front]
      cases found : got.findIdx? (· == chSOH) with
      | none =>
        refine ⟨⟨marks ++ taken got, read, ?_⟩, filled.used⟩
        rw [arrived_append, arrived_taken, List.mem_append, not_or]
        exact ⟨quiet, soh_absent found⟩
      | some shift =>
        obtain ⟨inside, clear, starts⟩ := soh_at found
        simp only [ends_bind]
        apply moveSoh_ends after got shift inside (by unfold sizeofCommon SLAVE_BUFF_SIZE at *; omega) front
        intro buffer aligned
        have partLength : (got.drop shift).length = got.length - shift := List.length_drop
        have clean : chSOH ∉ arrived marks ++ got.take shift := by
          rw [List.mem_append, not_or]
          exact ⟨quiet, clear⟩
        have pieces (bytes : Bytes) : arrived (marks ++ taken got) ++ bytes =
            (arrived marks ++ got.take shift) ++ (got.drop shift ++ bytes) := by
          rw [arrived_append, arrived_taken, List.append_assoc, List.append_assoc,
            ← List.append_assoc (got.take shift), List.take_append_drop]
        have headless (bytes : Bytes) (few : bytes.length < sizeofCommon - (got.length - shift)) :
            Headless (arrived (marks ++ taken got) ++ bytes) := by
          rw [pieces, Headless, fromSoh_found clean starts, List.length_append, partLength]
          omega
        apply (readUpTo_ends { after with inBuffer := buffer } sizeofCommon (got.length - shift)
          (by omega) (by decide)).mono
        · intro value final holds
          obtain ⟨value_eq, rest, further, count, header⟩ := holds
          refine ⟨value_eq, _, _, _, (read.buffer buffer).trans (further.mono headless), ?_, clean,
            ?_, ?_, header⟩
          · rw [arrived_append, pieces, aligned]
          · rw [List.length_append, aligned, partLength]
            omega
          · obtain ⟨tail, starts⟩ := starts
            rw [aligned, starts]
            rfl
        · intro stop _ halts
          exact (read.buffer buffer).halts (halts.mono headless headless)
    · intro stop _ halts
      refine (progress.buffer cleared).halts (halts.mono ?_ (fun _ dry => dry))
      intro bytes same
      subst same
      simpa using headless_noise quiet
  · exact ⟨[], Progress.refl _ _, by simp⟩

end Readsoh

section Readeof

variable (m : Protocol) (header : Bytes) (front : m.inBuffer.bytes.take sizeofCommon = header)

include front in
theorem header_getD (i : Nat) (inside : i < sizeofCommon) :
    m.inBuffer.bytes.getD i 0 = header.getD i 0 := getD_of_take inside front

include front in
theorem loadTotal_ends (Q : Int → Protocol → Prop) (E : Stop → Protocol → Prop) :
    Ends loadTotal m Q E ↔ Q (declared header) m := by
  have low := load_ends m 2 (by decide)
  have high := load_ends m 3 (by decide)
  simp only [Nat.cast_ofNat] at low high
  simp only [loadTotal, ends_bind, low, high, ends_pure, declared,
    header_getD m header front 2 (by decide), header_getD m header front 3 (by decide)]

theorem admits_iff (total : Nat) :
    admits total = true ↔ ¬((total : Int) ≤ 5 ∨ (total : Int) > (SLAVE_BUFF_SIZE : Int) - (sizeofCommon : Nat)) := by
  rw [admits, decide_eq_true_eq]
  unfold SLAVE_BUFF_SIZE sizeofCommon
  omega

include front in
/-- `readeof` fills the buffer up to the declared length, or refuses the length at once. -/
theorem readeof_ends (length : header.length = sizeofCommon) :
    Ends (readeof sizeofCommon) m
      (fun value after => admits (declared header) = true ∧ value = declared header ∧ ∃ marks,
        Progress m (fun bytes => sizeofCommon + bytes.length < declared header) marks after ∧
        sizeofCommon + (arrived marks).length = declared header ∧
        after.inBuffer.bytes.take (declared header) = header ++ arrived marks)
      (fun stop after => if admits (declared header) = true then
          Halts m.deadline m.input (fun bytes => sizeofCommon + bytes.length < declared header)
            (fun bytes => sizeofCommon + bytes.length < declared header) stop
        else stop = .code PROTO_ERR_OVERFLOW ∧ after = m) := by
  simp only [readeof, ends_bind, loadTotal_ends m header front]
  by_cases admitted : admits (declared header) = true
  · have range := (admits_iff _).mp admitted
    simp only [if_neg range, if_pos admitted]
    simp only [admits, decide_eq_true_eq] at admitted
    apply ends_forever (fun reached s => reached < declared header ∧ ∃ marks,
      Progress m (fun bytes => sizeofCommon + bytes.length < declared header) marks s ∧
      sizeofCommon + (arrived marks).length = reached ∧
      s.inBuffer.bytes.take reached = header ++ arrived marks)
    · intro reached s holds
      obtain ⟨bounded, marks, progress, count, filled_front⟩ := holds
      have ask : ((declared header : Int) - (reached : Int)).toNat = declared header - reached := by omega
      simp only [ends_bind, ask]
      refine (readSome_ends s reached (declared header - reached) (by omega)
        (by unfold sizeofCommon at admitted; omega)
        (fun bytes => sizeofCommon + (arrived marks ++ bytes).length < declared header)).mono ?_ ?_
      · intro value after holds
        obtain ⟨got, filled⟩ := holds
        have short := filled.short
        have value_eq := filled.value_eq
        have read := progress.trans (filled.progress (by simpa [count] using bounded))
        have total_count : sizeofCommon + (arrived (marks ++ taken got)).length = value := by
          rw [arrived_append, arrived_taken, List.length_append]
          omega
        have total_front : after.inBuffer.bytes.take value = header ++ arrived (marks ++ taken got) := by
          rw [value_eq, filled.front, filled_front, arrived_append, arrived_taken, List.append_assoc]
        by_cases complete : (value : Int) ≥ (declared header : Int)
        · have exact_count : value = declared header := by omega
          rw [if_pos complete, ends_pure]
          exact ⟨by simpa [admits] using admitted, exact_count, _, read, exact_count ▸ total_count,
            exact_count ▸ total_front⟩
        · rw [if_neg complete, ends_pure]
          exact ⟨⟨by omega, _, read, total_count, total_front⟩, filled.used⟩
      · intro stop _ halts
        refine progress.halts (halts.mono ?_ (fun _ dry => dry))
        intro bytes same
        subst same
        simpa [count] using bounded
    · refine ⟨by unfold sizeofCommon; omega, [], Progress.refl _ _, by simp, by simpa using front⟩
  · have range : ¬¬_ := fun inside => admitted ((admits_iff _).mpr inside)
    rw [if_pos (not_not.mp range), ends_bind, ends_throw, if_neg admitted]
    exact ⟨rfl, rfl⟩

end Readeof

section IntegrityCheck

theorem covered_crc (frame : Bytes) (crc : hasCrc (ctrlOf frame) = true) :
    covered frame = frame.take (frame.length - 2) := by
  rw [covered, trailerSize, if_pos crc]

theorem covered_sum (frame : Bytes) (sum : hasCrc (ctrlOf frame) = false) :
    covered frame = frame.take (frame.length - 1) := by
  rw [covered, trailerSize, sum, if_neg Bool.false_ne_true]

/-- The check at the end of `readcook` is `intact` of the frame in the buffer. -/
theorem integrityCheck_ends (m : Protocol) (frame : Bytes)
    (front : m.inBuffer.bytes.take frame.length = frame) (long : 6 ≤ frame.length)
    (short : frame.length ≤ SLAVE_BUFF_SIZE) (Q : Int → Protocol → Prop) (E : Stop → Protocol → Prop) :
    Ends (integrityCheck frame.length) m Q E ↔
      if intact frame = true then Q (frame.length - trailerSize frame) m
      else E (.code PROTO_ERR_CRC) m := by
  have byte (i : Nat) (inside : i < frame.length) : Ends (load i) m = fun Q _ => Q (frame.getD i 0) m := by
    funext Q E
    rw [load_ends m i (by omega), getD_of_take inside front]
  have range (i : Nat) (inside : i ≤ frame.length) :
      Ends (loadRange i) m = fun Q _ => Q (frame.take i) m := by
    funext Q E
    rw [loadRange_ends m i (by omega), take_of_take inside front]
  have ctrl := byte 4 (by omega)
  have minusTwo : (frame.length : Int) - 2 = ((frame.length - 2 : Nat) : Int) := by omega
  have minusOne : (frame.length : Int) - 1 = ((frame.length - 1 : Nat) : Int) := by omega
  simp only [Nat.cast_ofNat] at ctrl
  simp only [integrityCheck, ends_bind, ctrl, minusTwo, minusOne]
  cases crc : hasCrc (ctrlOf frame) with
  | true =>
    have crc' : hasCrc (frame.getD 4 0) = true := crc
    simp only [crc', if_true, ends_bind, range (frame.length - 2) (by omega),
      byte (frame.length - 2) (by omega), byte (frame.length - 1) (by omega)]
    have verdict : intact frame = true ↔
        ¬crcWord (frame.getD (frame.length - 2) 0) (frame.getD (frame.length - 1) 0) ≠
          crc16Digest (crc16Add crc16Prepare (frame.take (frame.length - 2))) := by
      rw [intact, if_pos crc, covered_crc frame crc, beq_iff_eq, not_not]
    have trailer : (frame.length : Int) - (trailerSize frame : Nat) = ((frame.length - 2 : Nat) : Int) := by
      rw [trailerSize, if_pos crc]
      omega
    by_cases mismatch : crcWord (frame.getD (frame.length - 2) 0) (frame.getD (frame.length - 1) 0) ≠
        crc16Digest (crc16Add crc16Prepare (frame.take (frame.length - 2)))
    · rw [if_pos mismatch, if_neg (fun sound => verdict.mp sound mismatch)]
      simp only [ends_bind, ends_throw]
    · rw [if_neg mismatch, if_pos (verdict.mpr mismatch), ends_pure, trailer]
  | false =>
    have crc' : hasCrc (frame.getD 4 0) = false := crc
    simp only [crc', Bool.false_eq_true, if_false, ends_bind, range (frame.length - 1) (by omega),
      byte (frame.length - 1) (by omega)]
    have verdict : intact frame = true ↔
        ¬checksumAdd 0 (frame.take (frame.length - 1)) ≠ frame.getD (frame.length - 1) 0 := by
      rw [intact, crc, if_neg Bool.false_ne_true, covered_sum frame crc, beq_iff_eq, not_not]
    have trailer : (frame.length : Int) - (trailerSize frame : Nat) = ((frame.length - 1 : Nat) : Int) := by
      rw [trailerSize, crc, if_neg Bool.false_ne_true]
      omega
    by_cases mismatch : checksumAdd 0 (frame.take (frame.length - 1)) ≠ frame.getD (frame.length - 1) 0
    · rw [if_pos mismatch, if_neg (fun sound => verdict.mp sound mismatch)]
      simp only [ends_bind, ends_throw]
    · rw [if_neg mismatch, if_pos (verdict.mpr mismatch), ends_pure, trailer]

end IntegrityCheck

section Flyby

theorem Check.add_append (ctrl : UInt8) (check : Check) (first second : Bytes) :
    Check.add ctrl check (first ++ second) = Check.add ctrl (Check.add ctrl check first) second := by
  unfold Check.add
  split
  · simp only [crc16Add_append]
  · simp only [checksumAdd, List.foldl_append]

def checkOf (ctrl : UInt8) (data : Bytes) : Check := Check.add ctrl ⟨crc16Prepare, 0⟩ data

variable (m : Protocol) (header : Bytes) (front : m.inBuffer.bytes.take sizeofCommon = header)
  (length : header.length = sizeofCommon)

/-- Not the moment before the one checksum byte, where a read of 0 bytes ends the call. -/
def NotAtChecksum (header : Bytes) (bytes : Bytes) : Prop :=
  ¬(hasCrc (ctrlOf header) = false ∧ sizeofCommon + bytes.length = passingBody header)

theorem notAtChecksum_of_lt {header bytes : Bytes}
    (before : sizeofCommon + bytes.length < passingBody header) : NotAtChecksum header bytes :=
  fun at_end => by omega

theorem flybyBody_ends (size : Nat) (size_eq : size = sizeofCommon) :
    Ends (flybyBody (ctrlOf header) (declared header - trailerSize header : Int) size
        (checkOf (ctrlOf header) header)) m
      (fun check after => ∃ marks, Progress m (NotAtChecksum header) marks after ∧
        sizeofCommon + (arrived marks).length = passingBody header ∧
        check = checkOf (ctrlOf header) (header ++ arrived marks))
      (fun stop _ => Halts m.deadline m.input
        (fun bytes => sizeofCommon + bytes.length < passingBody header) (NotAtChecksum header) stop) := by
  have bound : passingBody header = max sizeofCommon (declared header - trailerSize header) := rfl
  apply ends_forever (fun state s => ∃ marks, Progress m (NotAtChecksum header) marks s ∧
    sizeofCommon + (arrived marks).length = state.1 ∧ state.1 ≤ passingBody header ∧
    state.2 = checkOf (ctrlOf header) (header ++ arrived marks))
  · intro pair s holds
    obtain ⟨size, check⟩ := pair
    obtain ⟨marks, progress, count, bounded, sum⟩ := holds
    simp only at count bounded sum
    by_cases more : (size : Int) < (declared header : Int) - (trailerSize header : Nat)
    · have missing : sizeofCommon + (arrived marks).length < passingBody header := by omega
      simp only [if_pos more, ends_bind, ends_pure]
      generalize capped : (if ((declared header : Int) - (trailerSize header : Nat) - (size : Int)).toNat >
        SLAVE_BUFF_SIZE then SLAVE_BUFF_SIZE
        else ((declared header : Int) - (trailerSize header : Nat) - (size : Int)).toNat) = ask
      have range : 0 < ask ∧ ask ≤ SLAVE_BUFF_SIZE ∧ ask ≤ passingBody header - size := by
        subst capped
        unfold SLAVE_BUFF_SIZE
        split <;> omega
      apply (readSome_ends s 0 ask range.1 (by omega)
        (fun bytes => NotAtChecksum header (arrived marks ++ bytes))).mono
      · intro value after holds
        obtain ⟨got, filled⟩ := holds
        have short := filled.short
        have value_eq : value = got.length := by rw [filled.value_eq, Nat.zero_add]
        have chunk : after.inBuffer.bytes.take got.length = got := by simpa using filled.front
        have read := progress.trans
          (filled.progress (by simpa using notAtChecksum_of_lt missing))
        subst value_eq
        rw [loadRange_ends _ _ (by omega), chunk]
        refine ⟨⟨marks ++ taken got, read, ?_, ?_, ?_⟩, filled.used⟩
        · rw [arrived_append, arrived_taken, List.length_append]
          omega
        · omega
        · simp only [sum, arrived_append, arrived_taken, checkOf, ← Check.add_append, List.append_assoc]
      · intro stop _ halts
        refine progress.halts (halts.mono ?_ (fun _ dry => dry))
        intro bytes same
        subst same
        simpa using missing
    · have done : size = passingBody header := by omega
      simp only [if_neg more, ends_pure]
      exact ⟨marks, progress, by omega, sum⟩
  · refine ⟨[], Progress.refl _ _, by simp [size_eq], ?_, by simp⟩
    simp only [size_eq]
    omega

/-- How a passing frame ended: checked whole, or, with a checksum, at a read of 0 bytes in place
of its last byte. -/
def Passed (m : Protocol) (header : Bytes) (verdict : Bool) (after : Protocol) : Prop :=
  (∃ marks, Progress m (NotAtChecksum header) marks after ∧
    sizeofCommon + (arrived marks).length = passingBody header + trailerSize header ∧
    intact (header ++ arrived marks) = verdict) ∨
  (hasCrc (ctrlOf header) = false ∧ ∃ marks, Took m.deadline m.input (marks ++ [none]) after.input ∧
    Kept m after ∧ sizeofCommon + (arrived marks).length = passingBody header)

theorem checkOf_crc {ctrl : UInt8} (crc : hasCrc ctrl = true) (data : Bytes) :
    (checkOf ctrl data).crc = crc16Add crc16Prepare data := by
  rw [checkOf, Check.add, if_pos crc]

theorem checkOf_checksum {ctrl : UInt8} (sum : hasCrc ctrl = false) (data : Bytes) :
    (checkOf ctrl data).checksum = checksumAdd 0 data := by
  rw [checkOf, Check.add, sum, if_neg Bool.false_ne_true]

def FlybyReturns (m : Protocol) (header : Bytes) (value : Int) (after : Protocol) : Prop :=
  value = PROTO_ERR_FLYBY ∧ Passed m header true after

def FlybyStops (m : Protocol) (header : Bytes) (stop : Stop) (after : Protocol) : Prop :=
  stop = .code PROTO_ERR_CRC ∧ Passed m header false after ∨
    Halts m.deadline m.input
      (fun bytes => sizeofCommon + bytes.length < passingBody header + trailerSize header)
      (NotAtChecksum header) stop

include length in
theorem flybyTrailer_crc (crc : hasCrc (ctrlOf header) = true) (s : Protocol)
    (marks : List (Option UInt8)) (progress : Progress m (NotAtChecksum header) marks s)
    (count : sizeofCommon + (arrived marks).length = passingBody header) :
    Ends (flybyTrailer (ctrlOf header) (checkOf (ctrlOf header) (header ++ arrived marks))) s
      (FlybyReturns m header) (FlybyStops m header) := by
  have longHeader : sizeofCommon ≤ (header ++ arrived marks).length := by
    rw [List.length_append]
    omega
  have sameCtrl : ctrlOf (header ++ arrived marks) = ctrlOf header :=
    ctrlOf_append header _ (by omega)
  have two : trailerSize header = 2 := by rw [trailerSize, if_pos crc]
  have never (bytes : Bytes) : NotAtChecksum header bytes := by
    intro holds
    obtain ⟨sum, _⟩ := holds
    rw [crc] at sum
    cases sum
  simp only [flybyTrailer, crc, if_true, ends_bind]
  apply (readUpTo_ends s 2 0 (by omega) (by decide)).mono
  · intro value after holds
    obtain ⟨_, more, further, moreCount, trailerFront⟩ := holds
    have whole : after.inBuffer.bytes.take 2 = arrived more := by simpa using trailerFront
    have low := load_ends after 0 (by decide)
    have high := load_ends after 1 (by decide)
    have full := progress.trans (further.mono (fun bytes _ => never (arrived marks ++ bytes)))
    have passed (verdict : Bool) (same : intact (header ++ arrived marks ++ arrived more) = verdict) :
        Passed m header verdict after := by
      refine Or.inl ⟨marks ++ more, full, ?_, ?_⟩
      · rw [arrived_append, List.length_append, two]
        omega
      · rw [arrived_append, ← List.append_assoc, same]
    rw [intact_append_crc _ _ longHeader (by rw [sameCtrl, crc]) moreCount] at passed
    simp only [Nat.cast_zero, Nat.cast_one] at low high
    simp only [low, high, getD_of_take (by decide : 0 < 2) whole, getD_of_take (by decide : 1 < 2) whole,
      checkOf_crc crc]
    by_cases mismatch : crc16Digest (crc16Add crc16Prepare (header ++ arrived marks)) ≠
        crcWord ((arrived more).getD 0 0) ((arrived more).getD 1 0)
    · rw [if_pos mismatch, ends_throw]
      exact Or.inl ⟨rfl, passed false (by simpa using Ne.symm mismatch)⟩
    · rw [if_neg mismatch, ends_pure]
      exact ⟨rfl, passed true (by simpa using (not_not.mp mismatch).symm)⟩
  · intro stop _ halts
    refine Or.inr (progress.halts (halts.mono ?_ (fun bytes _ => never _)))
    intro bytes few
    rw [List.length_append, two]
    omega

include length in
theorem flybyTrailer_checksum (crc : hasCrc (ctrlOf header) = false) (s : Protocol)
    (marks : List (Option UInt8)) (progress : Progress m (NotAtChecksum header) marks s)
    (count : sizeofCommon + (arrived marks).length = passingBody header) :
    Ends (flybyTrailer (ctrlOf header) (checkOf (ctrlOf header) (header ++ arrived marks))) s
      (FlybyReturns m header) (FlybyStops m header) := by
  have longHeader : sizeofCommon ≤ (header ++ arrived marks).length := by
    rw [List.length_append]
    omega
  have sameCtrl : ctrlOf (header ++ arrived marks) = ctrlOf header :=
    ctrlOf_append header _ (by omega)
  have one : trailerSize header = 1 := by rw [trailerSize, crc, if_neg Bool.false_ne_true]
  simp only [flybyTrailer, crc, Bool.false_eq_true, if_false, ends_bind]
  apply (readSome_ends s 0 1 (by decide) (by decide)
    (fun bytes => NotAtChecksum header (arrived marks ++ bytes))).mono
  · intro value after holds
    obtain ⟨got, filled⟩ := holds
    have low := load_ends after 0 (by decide)
    simp only [Nat.cast_zero] at low
    simp only [low, checkOf_checksum crc]
    by_cases zero : got = []
    · have stale (verdict : Bool) : Passed m header verdict after := by
        refine Or.inr ⟨crc, marks, ?_, progress.kept.trans filled.kept, count⟩
        have took := filled.took
        rw [zero] at took
        exact progress.took.trans (progress.kept.deadline ▸ took)
      split
      · exact Or.inl ⟨rfl, stale false⟩
      · exact ⟨rfl, stale true⟩
    · have gotCount : got.length = 1 := by
        have positive := List.length_pos_iff.mpr zero
        have short := filled.short
        omega
      have whole : after.inBuffer.bytes.take 1 = got := by
        have front := filled.front
        rw [gotCount] at front
        simpa using front
      have dry : Dry (fun bytes => NotAtChecksum header (arrived marks ++ bytes)) (taken got) := by
        intro before rest split
        rw [taken, if_neg zero] at split
        have member : none ∈ got.map some := split ▸ by simp
        simp at member
      have full := progress.trans ⟨filled.took, dry, filled.kept⟩
      have passed (verdict : Bool) (same : intact (header ++ arrived marks ++ got) = verdict) :
          Passed m header verdict after := by
        refine Or.inl ⟨marks ++ taken got, full, ?_, ?_⟩
        · rw [arrived_append, arrived_taken, List.length_append, one]
          omega
        · rw [arrived_append, arrived_taken, ← List.append_assoc, same]
      rw [intact_append_sum _ _ longHeader (by rw [sameCtrl, crc]) gotCount] at passed
      simp only [getD_of_take (by decide : 0 < 1) whole]
      by_cases mismatch : got.getD 0 0 ≠ checksumAdd 0 (header ++ arrived marks)
      · rw [if_pos mismatch, ends_throw]
        exact Or.inl ⟨rfl, passed false (by simpa using Ne.symm mismatch)⟩
      · rw [if_neg mismatch, ends_pure]
        exact ⟨rfl, passed true (by simpa using (not_not.mp mismatch).symm)⟩
  · intro stop _ halts
    refine Or.inr (progress.halts (halts.mono ?_ (fun _ dry => dry)))
    intro bytes same
    subst same
    rw [List.append_nil, one]
    omega

include length in
theorem flybyTrailer_ends (s : Protocol) (marks : List (Option UInt8))
    (progress : Progress m (NotAtChecksum header) marks s)
    (count : sizeofCommon + (arrived marks).length = passingBody header) :
    Ends (flybyTrailer (ctrlOf header) (checkOf (ctrlOf header) (header ++ arrived marks))) s
      (FlybyReturns m header) (FlybyStops m header) := by
  cases crc : hasCrc (ctrlOf header) with
  | true => exact flybyTrailer_crc m header length crc s marks progress count
  | false => exact flybyTrailer_checksum m header length crc s marks progress count

include front length in
theorem flyby_ends :
    Ends (flyby sizeofCommon) m
      (FlybyReturns m header) (FlybyStops m header) := by
  have ctrl := load_ends m 4 (by decide)
  simp only [Nat.cast_ofNat] at ctrl
  have total : (if hasCrc (ctrlOf header) = true then (declared header : Int) - 2 else declared header - 1) =
      (declared header : Int) - (trailerSize header : Nat) := by
    unfold trailerSize
    split <;> rfl
  simp only [flyby, ends_bind, loadTotal_ends m header front, ctrl,
    header_getD m header front 4 (by decide), loadRange_ends m sizeofCommon (by decide), front]
  change Ends (flybyBody (ctrlOf header) (if hasCrc (ctrlOf header) = true then _ else _) sizeofCommon
    (checkOf (ctrlOf header) header)) m _ _
  rw [total]
  apply (flybyBody_ends m header sizeofCommon rfl).mono
  · intro check after holds
    obtain ⟨marks, progress, count, sum⟩ := holds
    subst sum
    exact flybyTrailer_ends m header length after marks progress count
  · intro stop _ halts
    refine Or.inr (halts.mono ?_ (fun _ dry => dry))
    intro bytes few
    omega

end Flyby

section Readcook

theorem parse_headless {me : UInt8} {bytes : Bytes} (headless : Headless bytes) :
    parse me bytes = none := by
  have short : (fromSoh bytes).length < sizeofCommon := headless
  simp only [parse, if_pos short]

theorem not_awaits_headless {me : UInt8} {bytes : Bytes} (headless : Headless bytes) :
    ¬awaitsChecksum me bytes := by
  have short : (fromSoh bytes).length < sizeofCommon := headless
  intro awaits
  exact absurd awaits.1 (by omega)

/-- How a call that returns `value` used its input: up to a late `EAGAIN`, or as `parse` says, or,
flying by, up to a read of 0 bytes in place of the checksum byte. -/
inductive Outcome (m : Protocol) (value : Int) (after : Protocol) : Prop
  | timeout (tick : Timespec) (member : .eagain tick ∈ m.input)
      (late : expired m.deadline tick = true) (value_eq : value = PROTO_ERR_TIMEOUT)
  | parsed (p : Parsed) (marks : List (Option UInt8)) (parse_eq : parse m.myAddr (bytesOf m.input) = some p)
      (value_eq : value = p.result) (took : Took m.deadline m.input marks after.input)
      (kept : Kept m after) (rest : bytesOf after.input = p.rest)
      (front : passesBy m.myAddr (addrOf p.frame) = false →
        after.inBuffer.bytes.take p.frame.length = p.frame)
  | stale (before rest : List (Option UInt8)) (split : marksOf m.input = before ++ none :: rest)
      (awaits : awaitsChecksum m.myAddr (arrived before))
      (value_eq : value = PROTO_ERR_FLYBY ∨ value = PROTO_ERR_CRC)

theorem Passed.outcome {m s after : Protocol} {marks : List (Option UInt8)} {noise header : Bytes}
    {verdict : Bool} (progress : Progress m Headless marks s) (found : Found noise header)
    (bytes : arrived marks = noise ++ header) (passes : passesBy m.myAddr (addrOf header) = true)
    (passed : Passed s header verdict after) :
    Outcome m (if verdict = true then PROTO_ERR_FLYBY else PROTO_ERR_CRC) after := by
  have five := found.length
  rcases passed with ⟨more, further, count, check⟩ | ⟨sum, more, took, kept, count⟩
  · have took := progress.took.trans (progress.kept.deadline ▸ further.took)
    have stream : bytesOf m.input = noise ++ (header ++ (arrived more ++ bytesOf after.input)) := by
      rw [took.bytes_eq, arrived_append, bytes, List.append_assoc, List.append_assoc]
    refine .parsed ⟨if verdict = true then PROTO_ERR_FLYBY else PROTO_ERR_CRC, header ++ arrived more,
      bytesOf after.input⟩ _ ?_ ?_ took (progress.kept.trans further.kept) ?_ ?_
    · rw [stream, found.parse_eq, if_pos passes, passing_whole five _ _ count, check]
    · rfl
    · rfl
    · intro stays
      rw [addrOf_append header _ (by omega), passes] at stays
      cases stays
  · have took' := progress.took.trans (progress.kept.deadline ▸ took)
    refine .stale (marks ++ more) (marksOf after.input) ?_ ?_ ?_
    · rw [took'.marks_eq]
      simp
    · rw [arrived_append, bytes, List.append_assoc, found.awaitsChecksum_iff]
      exact ⟨passes, sum, count⟩
    · cases verdict <;> simp

/-- How a call before `leave` stops: with the code it is to return, or without a value. -/
def Stopped (m : Protocol) : Stop → Protocol → Prop
  | .code value, after => Outcome m value after
  | other, _ => Halts m.deadline m.input (fun bytes => parse m.myAddr bytes = none)
      (fun bytes => ¬awaitsChecksum m.myAddr bytes) other

theorem Stopped.of_halts {m : Protocol} {stop : Stop} (after : Protocol)
    (halts : Halts m.deadline m.input (fun bytes => parse m.myAddr bytes = none)
      (fun bytes => ¬awaitsChecksum m.myAddr bytes) stop) : Stopped m stop after := by
  cases stop with
  | code value =>
    obtain ⟨value_eq, tick, member, late⟩ := halts
    exact .timeout tick member late value_eq
  | exception message => exact halts
  | blocked => exact halts
  | fault => exact halts

/-- The input of `m` up to a header, which now stands at the start of the buffer. -/
structure AtHeader (m : Protocol) (marks : List (Option UInt8)) (noise header : Bytes) (s : Protocol) : Prop where
  progress : Progress m Headless marks s
  found : Found noise header
  bytes : arrived marks = noise ++ header
  front : s.inBuffer.bytes.take sizeofCommon = header

section AtHeader

variable {m s : Protocol} {marks : List (Option UInt8)} {noise header : Bytes}

theorem AtHeader.stream (atHeader : AtHeader m marks noise header s) (more : Bytes) :
    arrived marks ++ more = noise ++ (header ++ more) := by
  rw [atHeader.bytes, List.append_assoc]

theorem AtHeader.calm (atHeader : AtHeader m marks noise header s) :
    Progress m (fun bytes => ¬awaitsChecksum m.myAddr bytes) marks s :=
  atHeader.progress.mono (fun _ headless => not_awaits_headless headless)

theorem AtHeader.passing_ends (atHeader : AtHeader m marks noise header s)
    (passes : passesBy m.myAddr (addrOf header) = true) :
    Ends (flyby sizeofCommon) s (Outcome m) (Stopped m) := by
  have found := atHeader.found
  apply (flyby_ends s header atHeader.front found.length).mono
  · intro value after holds
    obtain ⟨value_eq, passed⟩ := holds
    have outcome := passed.outcome atHeader.progress found atHeader.bytes passes
    rwa [if_pos rfl, ← value_eq] at outcome
  · intro stop after holds
    rcases holds with ⟨stop_eq, passed⟩ | halts
    · rw [stop_eq]
      have outcome := passed.outcome atHeader.progress found atHeader.bytes passes
      rwa [if_neg Bool.false_ne_true] at outcome
    · refine .of_halts after (atHeader.calm.halts (halts.mono ?_ ?_))
      · intro more few
        rw [atHeader.stream, found.parse_eq, if_pos passes, passing_short found.length more few]
      · intro more notAt
        rw [atHeader.stream, found.awaitsChecksum_iff]
        exact fun awaits => notAt awaits.2

theorem AtHeader.staying_ends (atHeader : AtHeader m marks noise header s)
    (stays : passesBy m.myAddr (addrOf header) = false) :
    Ends (readeof sizeofCommon >>= fun size => integrityCheck size) s (Outcome m) (Stopped m) := by
  have found := atHeader.found
  have five := found.length
  have front := atHeader.front
  have progress := atHeader.progress
  have passes : ¬passesBy m.myAddr (addrOf header) = true := by simpa using stays
  rw [ends_bind]
  apply (readeof_ends s header front five).mono
  · intro value after holds
    obtain ⟨admitted, value_eq, more, further, count, filled⟩ := holds
    have admitted' := admitted
    simp only [admits, decide_eq_true_eq] at admitted'
    have size : (header ++ arrived more).length = declared header := by
      rw [List.length_append]
      omega
    have took := progress.took.trans (progress.kept.deadline ▸ further.took)
    have parse_eq : parse m.myAddr (bytesOf m.input) =
        some ⟨if intact (header ++ arrived more) = true then declared header - trailerSize header
          else PROTO_ERR_CRC, header ++ arrived more, bytesOf after.input⟩ := by
      rw [took.bytes_eq, arrived_append, List.append_assoc, atHeader.stream, found.parse_eq, if_neg passes,
        direct_whole five admitted _ _ count]
    have outcome := Outcome.parsed _ _ parse_eq rfl took (progress.kept.trans further.kept) rfl
      (fun _ => by simpa only [size] using filled)
    subst value_eq
    rw [← size]
    rw [integrityCheck_ends after (header ++ arrived more) (by rw [size]; exact filled)
      (by omega) (by unfold sizeofCommon at admitted'; omega)]
    by_cases sound : intact (header ++ arrived more) = true
    · rw [if_pos sound, size, trailerSize_append header _ (by omega)]
      rwa [if_pos sound] at outcome
    · rw [if_neg sound]
      rwa [if_neg sound] at outcome
  · intro stop after stopped
    split at stopped
    next admitted =>
      have notAwaiting (more : Bytes) : ¬awaitsChecksum m.myAddr (arrived marks ++ more) := by
        rw [atHeader.stream, found.awaitsChecksum_iff]
        exact fun awaits => passes awaits.1
      refine .of_halts after (atHeader.calm.halts (stopped.mono ?_ (fun more _ => notAwaiting more)))
      intro more few
      rw [atHeader.stream, found.parse_eq, if_neg passes, direct_short five admitted more few]
    next refused =>
      obtain ⟨stop_eq, same⟩ := stopped
      rw [stop_eq, same]
      have refused' : admits (declared header) = false := by simpa using refused
      refine .parsed ⟨PROTO_ERR_OVERFLOW, header, bytesOf s.input⟩ _ ?_ rfl progress.took
        progress.kept rfl (fun _ => ?_)
      · rw [progress.took.bytes_eq, atHeader.stream, found.parse_eq, if_neg passes,
          direct_refused five refused' _]
      · rw [five]
        exact front

end AtHeader

theorem readFrame_ends (m : Protocol) : Ends readFrame m (Outcome m) (Stopped m) := by
  simp only [readFrame, ends_bind, ends_get]
  apply (readsoh_ends m).mono
  · intro value s holds
    obtain ⟨value_eq, marks, noise, header, progress, bytes, quiet, five, starts, front⟩ := holds
    have atHeader : AtHeader m marks noise header s := ⟨progress, ⟨quiet, five, starts⟩, bytes, front⟩
    have addr := load_ends s 1 (by decide)
    simp only [Nat.cast_one] at addr
    have addr_eq : s.inBuffer.bytes.getD 1 0 = addrOf header := header_getD s header front 1 (by decide)
    subst value_eq
    simp only [addr, addr_eq, progress.kept.myAddr]
    cases passes : passesBy m.myAddr (addrOf header) with
    | true => exact atHeader.passing_ends passes
    | false => exact atHeader.staying_ends passes
  · intro stop after halts
    exact .of_halts after (halts.mono (fun _ headless => parse_headless headless)
      (fun _ headless => not_awaits_headless headless))

def started (m : Protocol) (now : Timespec) : Protocol :=
  { m with deadline := deadlineFrom now m.config.timeout }

theorem readcook_ends (m : Protocol) (now stamp : Timespec) :
    Ends (readcook now stamp) m
      (fun value final => ∃ after, Outcome (started m now) value after ∧
        final = { after with nextWrite := final.nextWrite })
      (fun stop _ => Halts (started m now).deadline m.input
          (fun bytes => parse m.myAddr bytes = none) (fun bytes => ¬awaitsChecksum m.myAddr bytes) stop ∧
        ∀ value, stop ≠ .code value) := by
  have stamped (value : Int) (after : Protocol) (outcome : Outcome (started m now) value after) :
      Ends (do readstamp stamp; pure value : Proto Int) after
        (fun value final => ∃ after, Outcome (started m now) value after ∧
          final = { after with nextWrite := final.nextWrite })
        (fun stop _ => Halts (started m now).deadline m.input
          (fun bytes => parse m.myAddr bytes = none) (fun bytes => ¬awaitsChecksum m.myAddr bytes) stop ∧
        ∀ value, stop ≠ .code value) := by
    simp only [readstamp, ends_bind, ends_modify, ends_pure]
    refine ⟨after, outcome, ?_⟩
    split <;> rfl
  simp only [readcook, ends_bind, ends_modify, ends_tryCatch]
  apply (readFrame_ends (started m now)).mono
  · intro value after outcome
    simpa only [ends_bind] using stamped value after outcome
  · intro stop after stopped
    cases stop with
    | code value =>
      simp only [ends_pure]
      simpa only [ends_bind, ends_pure] using stamped value after stopped
    | exception message => exact ⟨stopped, fun _ same => by cases same⟩
    | blocked => exact ⟨stopped, fun _ same => by cases same⟩
    | fault => exact ⟨stopped, fun _ same => by cases same⟩

end Readcook

end OsdpMaster.ReadSpec
