import OsdpMaster.Slave

/-!
`mem_zero` over the memory it is given: single bytes up to an aligned address,
words of four bytes from there, and single bytes again. What it reads is kept, so
that the bytes it looks at can be compared with those it was asked about.
-/

namespace OsdpMaster.MemZero

structure Access where
  address : Nat
  width : Nat
  deriving DecidableEq, Repr

def Access.bytes (access : Access) : List Nat := List.range' access.address access.width

/-- Where a phase leaves off. -/
structure Scan where
  p : Nat
  size : Nat
  reads : List Access

section Phases

variable (memory : Nat → UInt8)

/-- `*lp`, for the byte order of the machines this runs on. -/
def word (lp : Nat) : UInt32 :=
  (memory lp).toUInt32 ||| (memory (lp + 1)).toUInt32 <<< 8 ||| (memory (lp + 2)).toUInt32 <<< 16 |||
    (memory (lp + 3)).toUInt32 <<< 24

/-- The leading bytes. A phase that returns `false` throws what has been read. -/
def leading (p : Nat) : Nat → List Access → Except (List Access) Scan
  | 0, reads => .ok ⟨p, 0, reads⟩
  | size + 1, reads =>
    if p &&& 0x07 ≠ 0 then
      if memory p ≠ 0 then .error (reads ++ [⟨p, 1⟩]) else leading (p + 1) size (reads ++ [⟨p, 1⟩])
    else .ok ⟨p, size + 1, reads⟩

def words (lp : Nat) : Nat → List Access → Except (List Access) Scan
  | size + 4, reads =>
    if word memory lp ≠ 0 then .error (reads ++ [⟨lp, 4⟩]) else words (lp + 4) size (reads ++ [⟨lp, 4⟩])
  | size, reads => .ok ⟨lp, size, reads⟩

def trailing (p : Nat) : Nat → List Access → Except (List Access) Scan
  | 0, reads => .ok ⟨p, 0, reads⟩
  | size + 1, reads =>
    if memory p ≠ 0 then .error (reads ++ [⟨p, 1⟩]) else trailing (p + 1) size (reads ++ [⟨p, 1⟩])

def phases (p size : Nat) : Except (List Access) Scan := do
  let head ← leading memory p size []
  let middle ← words memory head.p head.size head.reads
  trailing memory middle.p middle.size middle.reads

/-- What `mem_zero` returns, and what it has read. -/
def memZero (p size : Nat) : Bool × List Access :=
  match phases memory p size with
  | .error reads => (false, reads)
  | .ok scan => (true, scan.reads)

def byteLoop (p : Nat) : Nat → Bool
  | 0 => true
  | size + 1 => if memory p ≠ 0 then false else byteLoop (p + 1) size

end Phases

section Scanning

variable {memory : Nat → UInt8} {start total : Nat}

theorem shifted_zero (byte : UInt8) :
    (byte.toUInt32 = 0 ↔ byte = 0) ∧ (byte.toUInt32 <<< 8 = 0 ↔ byte = 0) ∧
      (byte.toUInt32 <<< 16 = 0 ↔ byte = 0) ∧ (byte.toUInt32 <<< 24 = 0 ↔ byte = 0) := by
  have small := byte.toNat_lt
  simp only [← UInt32.toNat_inj, ← UInt8.toNat_inj, UInt32.toNat_shiftLeft, UInt8.toNat_toUInt32, Nat.shiftLeft_eq]
  simp
  omega

/-- A word is zero when its bytes are, in whatever order. -/
theorem word_zero (lp : Nat) : word memory lp = 0 ↔ ∀ a, lp ≤ a → a < lp + 4 → memory a = 0 := by
  simp only [word, UInt32.or_eq_zero_iff, (shifted_zero _).1, (shifted_zero _).2.1, (shifted_zero _).2.2.1,
    (shifted_zero _).2.2.2]
  constructor
  · intro zero a low high
    have four : a = lp ∨ a = lp + 1 ∨ a = lp + 2 ∨ a = lp + 3 := by omega
    grind
  · intro zero
    exact ⟨⟨⟨zero lp (by omega) (by omega), zero (lp + 1) (by omega) (by omega)⟩,
      zero (lp + 2) (by omega) (by omega)⟩, zero (lp + 3) (by omega) (by omega)⟩

def Access.Aligned (access : Access) : Prop := access.width ∣ access.address

/-- The bytes read are those from the start on, each once, and all were zero. -/
structure Clear (memory : Nat → UInt8) (start total : Nat) (scan : Scan) : Prop where
  ahead : start ≤ scan.p
  room : scan.p + scan.size = start + total
  covered : scan.reads.flatMap Access.bytes = List.range' start (scan.p - start)
  aligned : ∀ access ∈ scan.reads, access.Aligned
  zero : ∀ a, start ≤ a → a < scan.p → memory a = 0

/-- The bytes read are the first of the range, and one of the range is not zero. -/
structure Found (memory : Nat → UInt8) (start total : Nat) (reads : List Access) : Prop where
  covered : reads.flatMap Access.bytes <+: List.range' start total
  aligned : ∀ access ∈ reads, access.Aligned
  nonzero : ∃ a, start ≤ a ∧ a < start + total ∧ memory a ≠ 0

/-- What a phase leaves: the scan up to where `left` holds, or a byte that is not zero. -/
def Kept (memory : Nat → UInt8) (start total : Nat) (left : Scan → Prop) : Except (List Access) Scan → Prop
  | .error reads => Found memory start total reads
  | .ok scan => Clear memory start total scan ∧ left scan

theorem Clear.begin : Clear memory start total ⟨start, total, []⟩ where
  ahead := Nat.le_refl _
  room := rfl
  covered := by simp
  aligned access member := absurd member List.not_mem_nil
  zero a low high := absurd high (Nat.not_lt.mpr low)

variable {p size width : Nat} {reads : List Access}

theorem Clear.load (clear : Clear memory start total ⟨p, size, reads⟩) :
    (reads ++ [(⟨p, width⟩ : Access)]).flatMap Access.bytes = List.range' start (p + width - start) := by
  have ahead : start ≤ p := clear.ahead
  have next : p = start + 1 * (p - start) := by omega
  have length : p + width - start = p - start + width := by omega
  rw [List.flatMap_append, clear.covered, List.flatMap_singleton, Access.bytes, length, ← List.range'_append]
  dsimp only
  rw [← next]

theorem Clear.load_aligned (clear : Clear memory start total ⟨p, size, reads⟩) (divides : width ∣ p) :
    ∀ access ∈ reads ++ [(⟨p, width⟩ : Access)], access.Aligned := by
  simp only [List.mem_append, List.mem_singleton]
  rintro access (earlier | rfl)
  · exact clear.aligned access earlier
  · exact divides

theorem Clear.step (clear : Clear memory start total ⟨p, size + width, reads⟩) (divides : width ∣ p)
    (zero : ∀ a, p ≤ a → a < p + width → memory a = 0) :
    Clear memory start total ⟨p + width, size, reads ++ [⟨p, width⟩]⟩ where
  ahead := Nat.le_trans clear.ahead (Nat.le_add_right p width)
  room := by
    have room : p + (size + width) = start + total := clear.room
    dsimp only
    omega
  covered := clear.load
  aligned := clear.load_aligned divides
  zero := by
    intro a low high
    by_cases earlier : a < p
    · exact clear.zero a low earlier
    · exact zero a (by omega) high

theorem Clear.found (clear : Clear memory start total ⟨p, size + width, reads⟩) (divides : width ∣ p)
    (nonzero : ¬∀ a, p ≤ a → a < p + width → memory a = 0) :
    Found memory start total (reads ++ [⟨p, width⟩]) := by
  have ahead : start ≤ p := clear.ahead
  have room : p + (size + width) = start + total := clear.room
  constructor
  · rw [clear.load]
    have shorter : p + width - start ≤ total := by omega
    rw [← Nat.add_sub_cancel' shorter, ← List.range'_append]
    exact List.prefix_append _ _
  · exact clear.load_aligned divides
  · simp only [not_forall] at nonzero
    obtain ⟨a, low, high, set⟩ := nonzero
    exact ⟨a, by omega, by omega, set⟩

theorem byte_zero (p : Nat) : memory p = 0 ↔ ∀ a, p ≤ a → a < p + 1 → memory a = 0 := by
  constructor
  · intro zero a low high
    have same : a = p := by omega
    rw [same]
    exact zero
  · exact fun zero => zero p (Nat.le_refl p) (Nat.lt_succ_self p)

theorem Clear.byte_found (clear : Clear memory start total ⟨p, size + 1, reads⟩) (nonzero : memory p ≠ 0) :
    Found memory start total (reads ++ [⟨p, 1⟩]) :=
  clear.found (Nat.one_dvd p) fun zero => nonzero ((byte_zero p).mpr zero)

theorem Clear.byte_step (clear : Clear memory start total ⟨p, size + 1, reads⟩) (zero : ¬memory p ≠ 0) :
    Clear memory start total ⟨p + 1, size, reads ++ [⟨p, 1⟩]⟩ :=
  clear.step (Nat.one_dvd p) ((byte_zero p).mp (not_not.mp zero))

theorem leading_kept (clear : Clear memory start total ⟨p, size, reads⟩) :
    Kept memory start total (fun scan => 4 ∣ scan.p ∨ scan.size = 0) (leading memory p size reads) := by
  induction size generalizing p reads with
  | zero => exact ⟨clear, Or.inr rfl⟩
  | succ size ih =>
    rw [leading]
    split
    · split
      next nonzero => exact clear.byte_found nonzero
      next zero => exact ih (clear.byte_step zero)
    next even =>
      -- The address is even by eight, of which the words need four.
      have eight : p % 8 = 0 := (Nat.and_two_pow_sub_one_eq_mod p 3).symm.trans (not_not.mp even)
      exact ⟨clear, Or.inl (show 4 ∣ p by omega)⟩

theorem words_kept (clear : Clear memory start total ⟨p, size, reads⟩) (aligned : 4 ∣ p ∨ size = 0) :
    Kept memory start total (fun scan => scan.size < 4) (words memory p size reads) := by
  fun_induction words memory p size reads with
  | case1 p reads size nonzero =>
    rw [ne_eq, word_zero] at nonzero
    exact clear.found (by omega) nonzero
  | case2 p reads size zero ih =>
    rw [ne_eq, not_not, word_zero] at zero
    exact ih (clear.step (by omega) zero) (by omega)
  | case3 p size reads small =>
    have few : size < 4 := by
      by_contra large
      exact small (size - 4) (by omega)
    exact ⟨clear, few⟩

theorem trailing_kept (clear : Clear memory start total ⟨p, size, reads⟩) :
    Kept memory start total (fun scan => scan.size = 0) (trailing memory p size reads) := by
  induction size generalizing p reads with
  | zero => exact ⟨clear, rfl⟩
  | succ size ih =>
    rw [trailing]
    split
    next nonzero => exact clear.byte_found nonzero
    next zero => exact ih (clear.byte_step zero)

theorem Kept.bind {left after : Scan → Prop} {phase : Except (List Access) Scan}
    {next : Scan → Except (List Access) Scan} (kept : Kept memory start total left phase)
    (goes_on : ∀ scan, Clear memory start total scan → left scan → Kept memory start total after (next scan)) :
    Kept memory start total after (phase >>= next) := by
  cases phase with
  | error reads => exact kept
  | ok scan => exact goes_on scan kept.1 kept.2

theorem phases_kept (memory : Nat → UInt8) (p size : Nat) :
    Kept memory p size (fun scan => scan.size = 0) (phases memory p size) :=
  (leading_kept Clear.begin).bind fun _ clear aligned =>
    (words_kept clear aligned).bind fun _ clear _ => trailing_kept clear

/-- The scan returns true exactly when all the bytes are zero; its loads are aligned, and take the bytes one
after the other from the first on. -/
theorem memZero_spec (memory : Nat → UInt8) (p size : Nat) :
    ((memZero memory p size).1 = true ↔ ∀ a, p ≤ a → a < p + size → memory a = 0) ∧
      (memZero memory p size).2.flatMap Access.bytes <+: List.range' p size ∧
        ∀ access ∈ (memZero memory p size).2, access.Aligned := by
  have kept := phases_kept memory p size
  rw [memZero]
  cases done : phases memory p size with
  | error reads =>
    rw [done] at kept
    obtain ⟨a, low, high, nonzero⟩ := kept.nonzero
    have not_all : ¬∀ a, p ≤ a → a < p + size → memory a = 0 := fun zero => nonzero (zero a low high)
    exact ⟨iff_of_false Bool.false_ne_true not_all, kept.covered, kept.aligned⟩
  | ok scan =>
    rw [done] at kept
    obtain ⟨clear, none_left⟩ := kept
    have room := clear.room
    have all : ∀ a, p ≤ a → a < p + size → memory a = 0 := fun a low high => clear.zero a low (by omega)
    have covered : scan.reads.flatMap Access.bytes = List.range' p size := by
      have length : scan.p - p = size := by omega
      rw [clear.covered, length]
    exact ⟨iff_of_true rfl all, covered ▸ List.prefix_rfl, clear.aligned⟩

theorem byteLoop_iff (memory : Nat → UInt8) (p size : Nat) :
    byteLoop memory p size = true ↔ ∀ a, p ≤ a → a < p + size → memory a = 0 := by
  induction size generalizing p with
  | zero => exact iff_of_true rfl fun a low high => absurd high (Nat.not_lt.mpr low)
  | succ size ih =>
    rw [byteLoop]
    split
    next nonzero =>
      exact iff_of_false Bool.false_ne_true fun zero => nonzero (zero p (Nat.le_refl p) (by omega))
    next zero =>
      rw [ih]
      constructor
      · intro rest a low high
        by_cases first : a = p
        · rw [first]
          exact not_not.mp zero
        · exact rest a (by omega) (by omega)
      · exact fun all a low high => all a (by omega) (by omega)

/-- `mem_zero` is the plain loop: true exactly when all the bytes are zero, and no byte outside is read. -/
theorem memZero_eq_byteLoop (memory : Nat → UInt8) (p size : Nat) :
    (memZero memory p size).1 = byteLoop memory p size ∧
      ((memZero memory p size).1 = true ↔ ∀ a, p ≤ a → a < p + size → memory a = 0) ∧
        ∀ access ∈ (memZero memory p size).2, ∀ a ∈ access.bytes, p ≤ a ∧ a < p + size := by
  obtain ⟨scan, covered, _⟩ := memZero_spec memory p size
  refine ⟨?_, scan, ?_⟩
  · rw [Bool.eq_iff_iff, scan, byteLoop_iff]
  · intro access member a read
    have inside := covered.subset (List.mem_flatMap.mpr ⟨access, member, read⟩)
    exact List.mem_range'_1.mp inside

theorem memZero_held {bytes : Bytes} (held : ∀ i (inside : i < bytes.length), memory (p + i) = bytes[i]) :
    (memZero memory p bytes.length).1 = Slave.memZero bytes := by
  rw [Bool.eq_iff_iff, (memZero_spec memory p bytes.length).1, Slave.memZero, List.all_eq_true]
  simp only [List.forall_mem_iff_forall_getElem, beq_iff_eq]
  constructor
  · intro zero i inside
    rw [← held i inside]
    exact zero (p + i) (by omega) (by omega)
  · intro zero a low high
    have offset : p + (a - p) = a := by omega
    rw [← offset, held (a - p) (by omega)]
    exact zero (a - p) (by omega)

theorem defined_scan {slave : OsdpSlave}
    (held : ∀ i (inside : i < slave.uuid.length), memory (p + i) = slave.uuid[i]) :
    Slave.defined slave = (slave.addr != 0xFF || !(memZero memory p slave.uuid.length).1) := by
  rw [Slave.defined, memZero_held held]

end Scanning

end OsdpMaster.MemZero
