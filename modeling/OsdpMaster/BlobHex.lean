import OsdpMaster.BlobStream
import OsdpMaster.Lib.Hex

/-!
What `operator<<` writes spells the bytes of the blob, and what `operator>>`
reads: the pairs at the front of the stream, for the whole run of digits there.
-/

namespace OsdpMaster.BlobHex
open OsdpMaster.BlobStream OsdpMaster.Lib.Hex OsdpMaster.Lib.Program

section Reading

theorem isxdigit_eq (c : UInt8) : isxdigit c.toNat = isDigit c := by
  have all : ∀ n : Nat, n < 256 → isxdigit n = isDigit (UInt8.ofNat n) := by decide +kernel
  simpa using all c.toNat c.toNat_lt

theorem nibble_eq {c : UInt8} {high : Nat} (is : value c = some high) : (nibble c.toNat).toNat = high := by
  have all : ∀ n : Nat, n < 256 → ∀ high ∈ value (UInt8.ofNat n), (nibble n).toNat = high := by decide +kernel
  exact all c.toNat c.toNat_lt high (by simpa using is)

theorem charOf_toNat (c : UInt8) : charOf c.toNat = c := by
  have below : c.toNat < 256 := c.toNat_lt
  have same : ((c.toNat : Int) % 256).toNat = c.toNat := by omega
  change UInt8.ofNat ((c.toNat : Int) % 256).toNat = c
  rw [same, UInt8.ofNat_toNat]

theorem pair_eq {high low : Nat} (small : low < 16) :
    UInt8.ofNat (high <<< 4 ||| low) = UInt8.ofNat (16 * high + low) := by
  rw [← Nat.shiftLeft_add_eq_or_of_lt (show low < 2 ^ 4 from small), Nat.shiftLeft_eq, Nat.mul_comm]

def reading (behind ahead : Bytes) : IStream := ⟨behind, ahead, false, false, false⟩

theorem eq_reading {s : IStream} (good : s.good = true) : s = reading s.behind s.ahead := by
  have bits : (s.eofbit = false ∧ s.failbit = false) ∧ s.badbit = false := by
    simpa [IStream.good] using good
  cases s
  simp only at bits
  simp only [reading, bits]

theorem ends_getChar_over (behind : Bytes) (Q : Int → IStream → Prop) (E : Unit → IStream → Prop) :
    Ends getChar (reading behind []) Q E ↔ Q (-1) ⟨behind, [], true, true, false⟩ := Iff.rfl

theorem ends_getChar (behind : Bytes) (c : UInt8) (ahead : Bytes) (Q : Int → IStream → Prop)
    (E : Unit → IStream → Prop) :
    Ends getChar (reading behind (c :: ahead)) Q E ↔ Q c.toNat (reading (c :: behind) ahead) := Iff.rfl

theorem ends_putback (behind : Bytes) (c : UInt8) (ahead : Bytes) (Q : Unit → IStream → Prop)
    (E : Unit → IStream → Prop) :
    Ends (putback c) (reading (c :: behind) ahead) Q E ↔ Q ⟨⟩ (reading behind (c :: ahead)) := by
  simp [putback, reading, IStream.good, ends_bind, ends_get, ends_modify]

theorem ends_putback_over (c : UInt8) (behind ahead : Bytes) (Q : Unit → IStream → Prop)
    (E : Unit → IStream → Prop) :
    Ends (putback c) ⟨behind, ahead, true, true, false⟩ Q E ↔ Q ⟨⟩ ⟨behind, ahead, false, true, false⟩ := by
  rfl

theorem ends_failed (behind ahead : Bytes) (Q : Bool → IStream → Prop) (E : Unit → IStream → Prop) :
    Ends failed (reading behind ahead) Q E ↔ Q false (reading behind ahead) := Iff.rfl

theorem ends_failed_over (behind ahead : Bytes) (Q : Bool → IStream → Prop) (E : Unit → IStream → Prop) :
    Ends failed ⟨behind, ahead, true, true, false⟩ Q E ↔ Q true ⟨behind, ahead, true, true, false⟩ := Iff.rfl

structure Part (s : IStream) (xxb : Bytes) (t : IStream) : Prop where
  good : t.good = true
  content : xxb ++ pairs t.ahead = pairs s.ahead
  ahead : unread t.ahead = unread s.ahead
  whole : t.behind.reverse ++ t.ahead = s.behind.reverse ++ s.ahead

structure Extracted (s : IStream) (stored : Bytes) (after : IStream) : Prop where
  content : stored = pairs s.ahead
  ahead : after.ahead = unread s.ahead
  whole : after.behind.reverse ++ after.ahead = s.behind.reverse ++ s.ahead

def Turn (s t : IStream) : Bytes ⊕ Bytes → IStream → Prop
  | .inl more, after => Part s more after ∧ after.ahead.length < t.ahead.length
  | .inr stored, after => Extracted s stored after

/-- The four ways out of the loop, and the way round. -/
theorem extractPair_turn {s t : IStream} {xxb : Bytes} (part : Part s xxb t) :
    Ends (extractPair xxb) t (Turn s t) (fun _ _ => False) := by
  obtain ⟨good, content, unreads, whole⟩ := part
  rw [eq_reading good]
  simp only [extractPair, ends_bind]
  cases next : t.ahead with
  | nil =>
    rw [next] at content unreads whole
    simp only [ends_getChar_over, ends_failed_over, ↓reduceIte, ends_pure]
    exact ⟨by simpa [pairs] using content, unreads, whole⟩
  | cons c ahead =>
    rw [next] at content unreads whole
    simp only [ends_getChar, ends_failed, Bool.false_eq_true, ↓reduceIte, isxdigit_eq]
    cases first : value c with
    | none =>
      have stops := stops_cons first ahead
      simp only [isDigit_of_none first, Bool.not_false, ↓reduceIte, ends_bind, charOf_toNat, ends_putback, ends_pure]
      exact ⟨by simpa [pairs_stopped stops] using content, (unread_stopped stops).symm.trans unreads, whole⟩
    | some high =>
      simp only [isDigit_of_value first, Bool.not_true, Bool.false_eq_true, ↓reduceIte, ends_bind]
      rw [unread_cons first] at unreads
      cases ahead with
      | nil =>
        -- The digit is gone: the stream has failed, and what is put back is its value.
        simp only [ends_getChar_over, ends_failed_over, ↓reduceIte, ends_bind, ends_putback_over, ends_pure]
        exact ⟨by simpa [pairs] using content, unreads, by simpa using whole⟩
      | cons d rest =>
        simp only [ends_getChar, ends_failed, Bool.false_eq_true, ↓reduceIte, isxdigit_eq]
        cases second : value d with
        | none =>
          have stops := stops_cons second rest
          simp only [isDigit_of_none second, Bool.not_false, ↓reduceIte, ends_bind, charOf_toNat, ends_putback, ends_pure]
          exact ⟨by simpa [pairs, first, second] using content, (unread_stopped stops).symm.trans unreads,
            by simpa [reading] using whole⟩
        | some low =>
          simp only [isDigit_of_value second, Bool.not_true, Bool.false_eq_true, ↓reduceIte, ends_pure,
            nibble_eq first, nibble_eq second, pair_eq (value_lt second)]
          rw [unread_cons second] at unreads
          refine ⟨⟨rfl, ?_, unreads, by simpa [reading] using whole⟩, ?_⟩
          · simpa [pairs, first, second, reading] using content
          · simp only [reading, List.length_cons]
            omega

theorem extraction_good {s : IStream} (good : s.good = true) :
    ∃ stored after, extraction s = .ok (some stored) after ∧ Extracted s stored after := by
  have loop : Ends (forever (fun s => s.ahead.length) () extractPair []) s (Extracted s) (fun _ _ => False) := by
    apply ends_forever (Part s)
    · intro xxb t part
      apply (extractPair_turn part).mono
      · intro result after turn
        cases result with
        | inl more => exact turn
        | inr stored => exact turn
      · exact fun _ _ stopped => stopped
    · exact ⟨good, rfl, rfl, rfl⟩
  obtain ⟨stored, after, run, extracted⟩ := loop.returns
  refine ⟨stored, after, ?_, extracted⟩
  rw [extraction, bind_of_ok run]
  rfl

theorem extraction_bad {s : IStream} (bad : s.good = false) :
    extraction s = .ok (some []) { s with failbit := true } := by
  have turn : extractPair [] s = .ok (.inr []) { s with failbit := true } := by
    have got : getChar s = .ok (-1) { s with failbit := true } := by
      rw [getChar, bind_of_ok (show (get : Reading IStream) s = .ok s s from rfl)]
      simp only [bad, Bool.false_eq_true, ↓reduceIte]
      rfl
    rw [extractPair, bind_of_ok got]
    rfl
  have loop : forever (fun s => s.ahead.length) () extractPair [] s = .ok [] { s with failbit := true } := by
    rw [forever, rounds, bind_of_ok turn]
    rfl
  rw [extraction, bind_of_ok loop]
  rfl

/-- The characters removed are the digits of the blob stored, two for each byte. -/
def RemovesPairs (s : IStream) : Prop :=
  ∃ b after, extraction s = .ok b after ∧ ∃ removed, s.ahead = removed ++ after.ahead ∧ Spells removed b.get

/-- So they are exactly when the run of digits at the front of a good stream is even. -/
theorem removes_pairs_iff (s : IStream) : RemovesPairs s ↔ (s.good = true → Even (run s.ahead).length) := by
  constructor
  · intro removes good
    obtain ⟨stored, after, run_eq, extracted⟩ := extraction_good good
    obtain ⟨b, after', run_eq', removed, front, spells⟩ := removes
    rw [run_eq] at run_eq'
    cases run_eq'
    have front' : run s.ahead ++ unread s.ahead = removed ++ unread s.ahead := by
      rw [run_append_unread, ← extracted.ahead]
      exact front
    have same : run s.ahead = removed := List.append_cancel_right front'
    rw [← spells_run_iff, same, ← extracted.content]
    exact spells
  · intro even
    cases good : s.good with
    | false => exact ⟨some [], _, extraction_bad good, [], rfl, .nothing⟩
    | true =>
      obtain ⟨stored, after, run_eq, extracted⟩ := extraction_good good
      refine ⟨some stored, after, run_eq, run s.ahead, ?_, ?_⟩
      · rw [extracted.ahead, run_append_unread]
      · change Spells (run s.ahead) stored
        rw [extracted.content]
        exact spells_run (even good)

/-- The unpaired digit before the end of the input is lost. -/
theorem unpaired_lost : ¬RemovesPairs ⟨[], ascii "5", false, false, false⟩ := by
  intro removes
  obtain ⟨b, after, run_eq, removed, front, spells⟩ := removes
  have left : extraction ⟨[], ascii "5", false, false, false⟩ =
      .ok (some []) ⟨[0x35], [], false, true, false⟩ := rfl
  rw [left] at run_eq
  cases run_eq
  cases spells
  cases front

end Reading

section Writing

def writing (base : Base) (written : Bytes) : OStream := ⟨written, 0x30, 0, ⟨base, .unset, true, false⟩⟩

theorem insertText_nothing (base : Base) (written : Bytes) :
    (writing base written).insertText [] = writing base written := by
  simp [OStream.insertText, OStream.pad, writing]

theorem padded_eq (byte : UInt8) :
    List.replicate (2 - (Flags.digits ⟨.hex, .unset, true, false⟩ byte.toNat).length : Int).toNat 0x30 ++
      Flags.digits ⟨.hex, .unset, true, false⟩ byte.toNat = [digit (byte.toNat / 16), digit (byte.toNat % 16)] := by
  have all : ∀ n : Nat, n < 256 →
      List.replicate (2 - (Flags.digits ⟨.hex, .unset, true, false⟩ n).length : Int).toNat 0x30 ++
        Flags.digits ⟨.hex, .unset, true, false⟩ n = [digit (n / 16), digit (n % 16)] := by decide +kernel
  exact all byte.toNat byte.toNat_lt

theorem insertBytes_spell (base : Base) (data written : Bytes) (w : Int) :
    ∃ base', insertBytes delim data (writing base written) w [] =
      (writing base' (written ++ spell data), w + 2 * data.length) := by
  induction data generalizing base written w with
  | nil => exact ⟨base, by simp [insertBytes, spell]⟩
  | cons byte data ih =>
    have next :
        { writing base written with
          width := 2
          flags := { (writing base written).flags with base := .hex } }.insertInt byte.toNat =
        writing .hex (written ++ [digit (byte.toNat / 16), digit (byte.toNat % 16)]) := by
      rw [← padded_eq byte]
      simp [OStream.insertInt, OStream.pad, writing]
    obtain ⟨base', rest⟩ := ih .hex (written ++ [digit (byte.toNat / 16), digit (byte.toNat % 16)]) (w + 2)
    have count : w + 2 + 2 * (data.length : Int) = w + 2 * ((byte :: data).length : Int) := by
      rw [List.length_cons]
      push_cast
      omega
    refine ⟨base', ?_⟩
    calc insertBytes delim (byte :: data) (writing base written) w []
        = insertBytes delim data
            ({ writing base written with
              width := 2
              flags := { (writing base written).flags with base := .hex } }.insertInt byte.toNat)
            (w + 2) [] := by
          rw [insertBytes, insertText_nothing]
          rfl
      _ = (writing base' (written ++ [digit (byte.toNat / 16), digit (byte.toNat % 16)] ++ spell data),
            w + 2 + 2 * data.length) := by rw [next, rest]
      _ = (writing base' (written ++ spell (byte :: data)), w + 2 * (byte :: data).length) := by
          rw [count, List.append_assoc]
          rfl

theorem insertion_plain (out : OStream) (plain : out.flags = .default) (unset : out.width = 0) (b : Content) :
    insertion delim out b = { out with written := out.written ++ spell b.get } := by
  have started : { out with fill := 0x30, flags := { out.flags with uppercase := true } } =
      writing .dec out.written := by
    rw [plain, unset]
    rfl
  obtain ⟨base, looped⟩ := insertBytes_spell .dec b.get out.written 0
  have none_missing : (0 - (0 + 2 * (b.get.length : Int))).toNat = 0 := by omega
  rw [← started] at looped
  simp only [insertion, looped]
  simp only [unset, none_missing]
  rfl

end Writing

section RoundTrip

theorem memcmp_eq_zero_iff {left right : Bytes} (same : left.length = right.length) :
    memcmp left right left.length = 0 ↔ left = right := by
  induction left generalizing right with
  | nil =>
    cases right with
    | nil => simp [memcmp]
    | cons r right => cases same
  | cons l left ih =>
    cases right with
    | nil => cases same
    | cons r right =>
      simp only [List.length_cons, Nat.add_right_cancel_iff] at same
      by_cases equal : l = r
      · simp only [memcmp, List.length_cons, equal, ↓reduceIte, ih same, List.cons.injEq, true_and]
      · have apart : (l.toNat : Int) - r.toNat ≠ 0 := by
          intro zero
          exact equal (UInt8.toNat_inj.mp (by omega))
        simp only [memcmp, List.length_cons, equal, ↓reduceIte, apart, List.cons.injEq, false_and]

theorem equal_iff (this other : Content) : this.equal other = true ↔ this.get = other.get := by
  by_cases same : this.get.length = other.get.length
  · simp only [Content.equal, same, ne_eq, not_true_eq_false, ↓reduceIte]
    by_cases empty : other.get.length = 0
    · have left : this.get = [] := List.length_eq_zero_iff.mp (same.trans empty)
      have right : other.get = [] := List.length_eq_zero_iff.mp empty
      simp only [left, right, List.length_nil, ↓reduceIte]
    · rw [if_neg empty, ← memcmp_eq_zero_iff same, same]
      split
      · next differ => simp [differ]
      · next zero => simpa using zero
  · have unequal : this.get ≠ other.get := fun equal => same (congrArg List.length equal)
    simp only [Content.equal, ne_eq, same, not_false_eq_true, ↓reduceIte, Bool.false_eq_true, unequal]

/-- A blob written and read back. -/
theorem written_read_back (b : Content) (rest : Bytes) (stops : ∀ c ∈ rest.head?, isxdigit c.toNat = false)
    (out : OStream) (plain : out.flags = .default) (unset : out.width = 0) :
    ∃ text, (insertion delim out b).written = out.written ++ text ∧ (insertion delim out b).fill = out.fill ∧
      (insertion delim out b).flags = out.flags ∧ text.length = 2 * b.size ∧
      ∀ behind, ∃ read after, extraction ⟨behind, text ++ rest, false, false, false⟩ = .ok read after ∧
        read.equal b = true ∧ after.behind = text.reverse ++ behind ∧ after.ahead = rest := by
  have spells : Spells (spell b.get) b.get := spells_spell b.get
  have stops' : ∀ c ∈ rest.head?, isDigit c = false := by
    intro c first
    rw [← isxdigit_eq]
    exact stops c first
  rw [insertion_plain out plain unset b]
  refine ⟨spell b.get, rfl, rfl, rfl, spells.length, ?_⟩
  intro behind
  obtain ⟨stored, after, run_eq, extracted⟩ :=
    extraction_good (show (IStream.mk behind (spell b.get ++ rest) false false false).good = true from rfl)
  have left : after.ahead = rest := extracted.ahead.trans (spells.unread_append stops')
  refine ⟨some stored, after, run_eq, ?_, ?_, left⟩
  · rw [equal_iff]
    exact extracted.content.trans (spells.pairs_append stops')
  · have whole := extracted.whole
    simp only [left, ← List.append_assoc] at whole
    have reversed := congrArg List.reverse (List.append_cancel_right whole)
    simpa using reversed

theorem written_read_back_letter :
    ∃ text, (insertion delim ⟨[], 0x20, 0, .default⟩ (some [0x0A, 0xF0])).written = [] ++ text ∧
      (insertion delim ⟨[], 0x20, 0, .default⟩ (some [0x0A, 0xF0])).fill = 0x20 ∧
      (insertion delim ⟨[], 0x20, 0, .default⟩ (some [0x0A, 0xF0])).flags = .default ∧ text.length = 4 ∧
      ∀ behind, ∃ read after, extraction ⟨behind, text ++ [0x47], false, false, false⟩ = .ok read after ∧
        read.equal (some [0x0A, 0xF0]) = true ∧ after.behind = text.reverse ++ behind ∧
        after.ahead = [0x47] :=
  written_read_back (some [0x0A, 0xF0]) [0x47] (by intro c first; cases first; rfl) ⟨[], 0x20, 0, .default⟩ rfl rfl

end RoundTrip

end OsdpMaster.BlobHex
