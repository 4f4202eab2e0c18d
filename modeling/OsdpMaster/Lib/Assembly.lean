import Mathlib.Data.List.Induction
import Mathlib.Tactic.Common

/-!
Pieces of a whole, written to a memory at their places. In whatever order they
come, and however often, they leave the whole as far as they cover it.
-/

namespace OsdpMaster.Lib.Assembly

variable {A : Type}

structure Piece (A : Type) where
  start : Nat
  data : List A

def Piece.Covers (piece : Piece A) (place : Nat) : Prop :=
  piece.start ≤ place ∧ place < piece.start + piece.data.length

instance (piece : Piece A) (place : Nat) : Decidable (piece.Covers place) := instDecidableAnd

def write (memory : Nat → Option A) (piece : Piece A) (place : Nat) : Option A :=
  if piece.Covers place then piece.data[place - piece.start]? else memory place

def assemble (pieces : List (Piece A)) : Nat → Option A := pieces.foldl write fun _ => none

/-- The data is that of the whole from the start on. -/
def Piece.Of (whole : List A) (piece : Piece A) : Prop := piece.data <+: whole.drop piece.start

theorem assemble_snoc (pieces : List (Piece A)) (piece : Piece A) :
    assemble (pieces ++ [piece]) = write (assemble pieces) piece := by
  rw [assemble, List.foldl_append]
  rfl

section Whole

variable {whole : List A} {pieces : List (Piece A)} {piece : Piece A} {place : Nat}

theorem write_covered (fits : piece.Of whole) (covers : piece.Covers place) (memory : Nat → Option A) :
    write memory piece place = whole[place]? := by
  have inside : place - piece.start < piece.data.length := by
    have started := covers.1
    have reach := covers.2
    omega
  obtain ⟨rest, split⟩ := fits
  rw [write, if_pos covers]
  calc piece.data[place - piece.start]?
      = (piece.data ++ rest)[place - piece.start]? := (List.getElem?_append_left inside).symm
    _ = whole[piece.start + (place - piece.start)]? := by rw [split, List.getElem?_drop]
    _ = whole[place]? := by rw [Nat.add_sub_cancel' covers.1]

theorem assemble_eq (all : ∀ piece ∈ pieces, piece.Of whole) (place : Nat) :
    assemble pieces place = if ∃ piece ∈ pieces, piece.Covers place then whole[place]? else none := by
  induction pieces using List.reverseRecOn with
  | nil => simp [assemble]
  | append_singleton pieces piece ih =>
    have before := ih fun earlier member => all earlier (List.mem_append_left _ member)
    have fits := all piece (List.mem_append_right _ List.mem_cons_self)
    rw [assemble_snoc]
    by_cases covers : piece.Covers place
    · rw [write_covered fits covers, if_pos ⟨piece, by simp, covers⟩]
    · rw [write, if_neg covers, before]
      simp [or_and_right, exists_or, covers]

theorem assemble_agrees (all : ∀ piece ∈ pieces, piece.Of whole) {value : A}
    (held : assemble pieces place = some value) : whole[place]? = some value := by
  rw [assemble_eq all place] at held
  split at held
  · exact held
  · cases held

/-- Pieces that cover the whole leave it, and nothing else. -/
theorem assemble_whole (all : ∀ piece ∈ pieces, piece.Of whole)
    (covered : ∀ place < whole.length, ∃ piece ∈ pieces, piece.Covers place) :
    assemble pieces = fun place => whole[place]? := by
  funext place
  rw [assemble_eq all place]
  split
  · rfl
  next outside =>
    by_contra held
    have inside : place < whole.length := by
      by_contra beyond
      exact held (List.getElem?_eq_none (Nat.not_lt.mp beyond)).symm
    exact outside (covered place inside)

end Whole

end OsdpMaster.Lib.Assembly
