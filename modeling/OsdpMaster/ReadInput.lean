import OsdpMaster.ProtocolRead
import Mathlib.Data.List.ReduceOption

/-!
What a run of the receive path took from its input. The bytes are kept together
with the reads of 0 bytes, which `flyby` can tell from waiting; `EINTR` and an
`EAGAIN` before the deadline leave no mark.
-/

namespace OsdpMaster.ReadInput
open OsdpMaster.Protocol OsdpMaster.Lib.Program

/-- The bytes of the input in order, `none` where a read gives 0 bytes. -/
def marksOf : List ReadOutcome → List (Option UInt8)
  | [] => []
  | .data [] :: rest => none :: marksOf rest
  | .data (byte :: bytes) :: rest => (byte :: bytes).map some ++ marksOf rest
  | _ :: rest => marksOf rest

def arrived (marks : List (Option UInt8)) : Bytes := marks.reduceOption

def bytesOf (input : List ReadOutcome) : Bytes := arrived (marksOf input)

@[simp] theorem arrived_nil : arrived [] = [] := rfl

@[simp] theorem arrived_append (first second : List (Option UInt8)) :
    arrived (first ++ second) = arrived first ++ arrived second :=
  List.reduceOption_append first second

@[simp] theorem arrived_map_some (bytes : Bytes) : arrived (bytes.map some) = bytes := by
  induction bytes with
  | nil => rfl
  | cons byte bytes ih => simpa [arrived] using ih

@[simp] theorem arrived_none : arrived [none] = [] := rfl

def taken (got : Bytes) : List (Option UInt8) := if got = [] then [none] else got.map some

@[simp] theorem arrived_taken (got : Bytes) : arrived (taken got) = got := by
  unfold taken
  split
  next empty => simp [empty]
  next => simp

theorem marksOf_data (bytes : Bytes) (rest : List ReadOutcome) :
    marksOf (.data bytes :: rest) = taken bytes ++ marksOf rest := by
  cases bytes <;> simp [marksOf, taken]

/-- An outcome the receive path does not end at: not a fatal error, not an `EAGAIN` too late. -/
def Quiet (deadline : Timespec) : ReadOutcome → Prop
  | .eagain tick => expired deadline tick = false
  | .error => False
  | _ => True

instance (deadline : Timespec) (outcome : ReadOutcome) : Decidable (Quiet deadline outcome) := by
  cases outcome <;> unfold Quiet <;> infer_instance

/-- From `input` to `after` the marks were taken and only quiet outcomes passed. -/
structure Took (deadline : Timespec) (input : List ReadOutcome) (marks : List (Option UInt8))
    (after : List ReadOutcome) : Prop where
  marks_eq : marksOf input = marks ++ marksOf after
  loud : ∀ outcome, ¬Quiet deadline outcome → (outcome ∈ input ↔ outcome ∈ after)

theorem Took.refl (deadline : Timespec) (input : List ReadOutcome) :
    Took deadline input [] input := ⟨rfl, fun _ _ => Iff.rfl⟩

theorem Took.trans {deadline : Timespec} {input middle after : List ReadOutcome}
    {first second : List (Option UInt8)} (start : Took deadline input first middle)
    (rest : Took deadline middle second after) : Took deadline input (first ++ second) after where
  marks_eq := by rw [start.marks_eq, rest.marks_eq, List.append_assoc]
  loud outcome noisy := (start.loud outcome noisy).trans (rest.loud outcome noisy)

theorem Took.bytes_eq {deadline : Timespec} {input after : List ReadOutcome}
    {marks : List (Option UInt8)} (took : Took deadline input marks after) :
    bytesOf input = arrived marks ++ bytesOf after := by
  rw [bytesOf, took.marks_eq, arrived_append, bytesOf]

theorem Took.skip {deadline : Timespec} {outcome : ReadOutcome} {input after : List ReadOutcome}
    {marks : List (Option UInt8)} (quiet : Quiet deadline outcome)
    (unmarked : marksOf (outcome :: input) = marksOf input)
    (rest : Took deadline input marks after) : Took deadline (outcome :: input) marks after where
  marks_eq := unmarked.trans rest.marks_eq
  loud other noisy := by
    have different : other ≠ outcome := fun same => noisy (same ▸ quiet)
    rw [List.mem_cons, rest.loud other noisy]
    simp [different]

/-- Every read of 0 bytes came while `Z` held of the bytes before it. -/
def Dry (Z : Bytes → Prop) (marks : List (Option UInt8)) : Prop :=
  ∀ before after, marks = before ++ none :: after → Z (arrived before)

theorem Dry.nil (Z : Bytes → Prop) : Dry Z [] := by
  intro before after split
  simp at split

theorem Dry.mono {Z Z' : Bytes → Prop} {marks : List (Option UInt8)} (dry : Dry Z marks)
    (weaker : ∀ bytes, Z bytes → Z' bytes) : Dry Z' marks :=
  fun before after split => weaker _ (dry before after split)

theorem Dry.append {Z : Bytes → Prop} {first second : List (Option UInt8)} (start : Dry Z first)
    (rest : Dry (fun bytes => Z (arrived first ++ bytes)) second) : Dry Z (first ++ second) := by
  intro before after split
  rcases List.append_eq_append_iff.mp split with ⟨extra, here, there⟩ | ⟨extra, here, there⟩
  · subst here
    rw [arrived_append]
    exact rest extra after there
  · cases extra with
    | nil =>
      simp only [List.append_nil, List.nil_append] at here there
      subst here
      simpa using rest [] after there.symm
    | cons mark extra =>
      simp only [List.cons_append, List.cons.injEq] at there
      obtain ⟨rfl, rfl⟩ := there
      exact start before extra here

theorem Dry.taken {Z : Bytes → Prop} (got : Bytes) (empty : Z []) : Dry Z (taken got) := by
  intro before after split
  unfold ReadInput.taken at split
  split at split
  · cases before with
    | nil => exact empty
    | cons mark before => simp at split
  · have member : none ∈ got.map some := split ▸ by simp
    simp at member

/-- The run waits with all of `input` taken: `P` holds of its bytes, and every read of 0 bytes
came while `Z` held. The other ends are a late `EAGAIN` and a fatal error. -/
def Halts (deadline : Timespec) (input : List ReadOutcome) (P Z : Bytes → Prop) : Stop → Prop
  | .code value => value = PROTO_ERR_TIMEOUT ∧ ∃ tick, .eagain tick ∈ input ∧ expired deadline tick = true
  | .exception _ => .error ∈ input
  | .blocked => (∀ outcome ∈ input, Quiet deadline outcome) ∧ P (bytesOf input) ∧ Dry Z (marksOf input)
  | .fault => False

theorem Halts.mono {deadline : Timespec} {input : List ReadOutcome} {P P' Z Z' : Bytes → Prop}
    {stop : Stop} (halts : Halts deadline input P Z stop) (waiting : ∀ bytes, P bytes → P' bytes)
    (zero : ∀ bytes, Z bytes → Z' bytes) : Halts deadline input P' Z' stop := by
  cases stop with
  | blocked =>
    obtain ⟨quiet, incomplete, dry⟩ := halts
    exact ⟨quiet, waiting _ incomplete, dry.mono zero⟩
  | code value => exact halts
  | exception message => exact halts
  | fault => exact halts

theorem Halts.after {deadline : Timespec} {input middle : List ReadOutcome}
    {marks : List (Option UInt8)} {P Z : Bytes → Prop} {stop : Stop}
    (took : Took deadline input marks middle) (dry : Dry Z marks)
    (halts : Halts deadline middle (fun bytes => P (arrived marks ++ bytes))
      (fun bytes => Z (arrived marks ++ bytes)) stop) :
    Halts deadline input P Z stop := by
  cases stop with
  | code value =>
    obtain ⟨timeout, tick, member, late⟩ := halts
    have noisy : ¬Quiet deadline (.eagain tick) := by simp [Quiet, late]
    exact ⟨timeout, tick, (took.loud _ noisy).mpr member, late⟩
  | exception message =>
    have noisy : ¬Quiet deadline .error := id
    exact (took.loud _ noisy).mpr halts
  | blocked =>
    obtain ⟨quiet, incomplete, rest⟩ := halts
    refine ⟨?_, ?_, ?_⟩
    · intro outcome member
      by_contra noisy
      exact noisy (quiet outcome ((took.loud outcome noisy).mp member))
    · rw [took.bytes_eq]
      exact incomplete
    · rw [took.marks_eq]
      exact dry.append rest
  | fault => exact halts

end OsdpMaster.ReadInput
