import OsdpMaster.ProtocolRead

/-!
The receive path changes the state in `read_some` and by stores into
`m_in_buffer`, and nowhere else: what they obey, `readFrame` obeys.
-/

namespace OsdpMaster.ReadLaw
open OsdpMaster.Protocol OsdpMaster.Lib.Program

variable {R : Protocol → Protocol → Prop} {E : Stop → Protocol → Protocol → Prop}

/-- A law of the reads and the stores, under which all stops but a timeout are allowed. -/
structure Allows (R : Protocol → Protocol → Prop) (E : Stop → Protocol → Protocol → Prop) : Prop where
  law : Law R E
  buffer : ∀ (s : Protocol) (buffer : Buffer), R s { s with inBuffer := buffer }
  own : ∀ stop s, stop ≠ .code PROTO_ERR_TIMEOUT → E stop s s
  some : ∀ offset count, Obeys R E (readSome offset count)

namespace Allows

variable (allows : Allows R E)

include allows

theorem throws {α : Type} (stop : Stop) (own : stop ≠ .code PROTO_ERR_TIMEOUT) :
    Obeys R E (throw stop : Proto α) := obeys_throw fun s => allows.own stop s own

theorem load (i : Int) : Obeys R E (load i) :=
  allows.law.bind allows.law.get fun _ => obeys_ite (allows.law.pure _) (allows.throws _ (by decide))

theorem loadRange (length : Int) : Obeys R E (loadRange length) :=
  allows.law.bind allows.law.get fun _ => obeys_ite (allows.law.pure _) (allows.throws _ (by decide))

theorem storeFront (data : Bytes) : Obeys R E (storeFront data) := by
  intro m
  simp only [Protocol.storeFront, ends_bind, ends_get]
  split
  · exact allows.buffer m _
  · exact allows.own .fault m (by decide)

theorem readUpTo (total offset : Nat) : Obeys R E (readUpTo total offset) := by
  apply allows.law.forever fun s => allows.own .blocked s (by decide)
  intro offset
  exact obeys_ite (allows.law.bind (allows.some _ _) fun _ => allows.law.pure _) (allows.law.pure _)

theorem readsoh : Obeys R E readsoh := by
  apply allows.law.forever fun s => allows.own .blocked s (by decide)
  intro _
  apply allows.law.bind (allows.storeFront _)
  intro _
  apply allows.law.bind (allows.some _ _)
  intro offset
  apply allows.law.bind (allows.loadRange _)
  intro found
  split
  · apply allows.law.bind (obeys_ite (allows.storeFront _) (allows.law.pure _))
    intro _
    exact allows.law.bind (allows.readUpTo _ _) fun _ => allows.law.pure _
  · exact allows.law.pure _

theorem loadTotal : Obeys R E loadTotal :=
  allows.law.bind (allows.load _) fun _ => allows.law.bind (allows.load _) fun _ => allows.law.pure _

theorem flybyBody (ctrl : UInt8) (total : Int) (size : Nat) (check : Check) :
    Obeys R E (flybyBody ctrl total size check) := by
  apply allows.law.forever fun s => allows.own .blocked s (by decide)
  intro state
  apply obeys_ite
  · apply allows.law.bind (allows.some _ _)
    intro _
    exact allows.law.bind (allows.loadRange _) fun _ => allows.law.pure _
  · exact allows.law.pure _

theorem flybyTrailer (ctrl : UInt8) (check : Check) : Obeys R E (flybyTrailer ctrl check) := by
  have verdict {condition : Prop} [Decidable condition] : Obeys R E
      (if condition then throw (.code PROTO_ERR_CRC) else pure PROTO_ERR_FLYBY : Proto Int) :=
    obeys_ite (allows.throws _ (by decide)) (allows.law.pure _)
  apply obeys_ite
  · apply allows.law.bind (allows.readUpTo _ _)
    intro _
    apply allows.law.bind (allows.load _)
    intro _
    exact allows.law.bind (allows.load _) fun _ => verdict
  · apply allows.law.bind (allows.some _ _)
    intro _
    exact allows.law.bind (allows.load _) fun _ => verdict

theorem flyby (offset : Nat) : Obeys R E (flyby offset) := by
  apply allows.law.bind allows.loadTotal
  intro _
  apply allows.law.bind (allows.load _)
  intro _
  apply allows.law.bind (allows.loadRange _)
  intro _
  exact allows.law.bind (allows.flybyBody _ _ _ _) fun _ => allows.flybyTrailer _ _

theorem readeof (offset : Nat) : Obeys R E (readeof offset) := by
  apply allows.law.bind allows.loadTotal
  intro total
  have loop : Obeys R E (forever pending .blocked (fun offset => do
      let offset ← readSome offset (total - offset).toNat
      if (offset : Int) ≥ total then pure (.inr offset) else pure (.inl offset)) offset : Proto Nat) := by
    apply allows.law.forever fun s => allows.own .blocked s (by decide)
    intro _
    exact allows.law.bind (allows.some _ _) fun _ => obeys_ite (allows.law.pure _) (allows.law.pure _)
  apply obeys_ite
  · exact allows.law.bind (allows.throws _ (by decide)) fun _ => loop
  · exact loop

theorem integrityCheck (size : Int) : Obeys R E (integrityCheck size) := by
  have verdict {condition : Prop} [Decidable condition] (value : Int) : Obeys R E
      (do if condition then throw (.code PROTO_ERR_CRC)
          pure value : Proto Int) :=
    obeys_ite (allows.law.bind (allows.throws _ (by decide)) fun _ => allows.law.pure _) (allows.law.pure _)
  apply allows.law.bind (allows.load _)
  intro ctrl
  apply obeys_ite
  · apply allows.law.bind (allows.loadRange _)
    intro _
    apply allows.law.bind (allows.load _)
    intro _
    exact allows.law.bind (allows.load _) fun _ => verdict _
  · apply allows.law.bind (allows.loadRange _)
    intro _
    exact allows.law.bind (allows.load _) fun _ => verdict _

theorem readFrame : Obeys R E readFrame := by
  apply allows.law.bind allows.readsoh
  intro _
  apply allows.law.bind allows.law.get
  intro _
  apply allows.law.bind (allows.load _)
  intro _
  exact obeys_ite (allows.flyby _) (allows.law.bind (allows.readeof _) fun _ => allows.integrityCheck _)

end Allows

end OsdpMaster.ReadLaw
