import OsdpMaster.Bus

/-!
Which topics `message_callback` can take, and whom their messages reach. The
subscription `osdp/bus1/outgoing/#` delivers the topic above its wildcard and
everything below it; the callback looks at the fourth level without a test that
there is one, and takes as the address whatever `strtoul` makes of it.
-/

namespace OsdpMaster.Routing
open OsdpMaster.Protocol OsdpMaster.Slave OsdpMaster.SlavePoll OsdpMaster.Split OsdpMaster.Bus

def outgoing : Bytes := ascii "osdp/bus1/outgoing"

/-- What the subscription delivers. -/
def Delivered (topic : Bytes) : Prop := topic = outgoing ∨ ∃ below, topic = outgoing ++ 0x2F :: below

def address (below : Bytes) : Bytes := below.takeWhile (· != 0x2F)

/-- The callback stays inside the components it got, and a slave hears of the message only if the
fourth level is a numeral for its address. -/
structure Handled (master : Master) (topic payload : Bytes) : Prop where
  inside : messageCallback master topic payload ≠ none
  addressed : ∀ master' events i event, messageCallback master topic payload = some (master', events) →
    (i, event) ∈ events → ∃ slave level, master.slaves[i]? = some slave ∧
      (levels 0x2F topic)[3]? = some level ∧ isNumeral level = true ∧ numeral level = slave.addr.toNat

section Topics

variable (slaves : List OsdpSlave) (below : Bytes)

theorem outgoing_levels : outgoing ++ 0x2F :: below =
    ascii "osdp" ++ 0x2F :: (ascii "bus1" ++ 0x2F :: (ascii "outgoing" ++ 0x2F :: below)) := rfl

theorem fourth_level : (levels 0x2F (outgoing ++ 0x2F :: below))[3]? = some (address below) := by
  rw [outgoing_levels, levels_append (by decide), levels_append (by decide), levels_append (by decide)]
  have first := @head_levels 0x2F below
  rw [List.head?_eq_getElem?] at first
  exact first

theorem route_outgoing : route slaves outgoing = none := rfl

theorem route_empty : route slaves (outgoing ++ [0x2F]) = none := rfl

def components (below : Bytes) : List Bytes :=
  ascii "osdp" :: ascii "bus1" :: ascii "outgoing" :: split below 0x2F 0

theorem route_below (some_below : below ≠ []) : route slaves (outgoing ++ 0x2F :: below) =
    some (components below, slaves.findIdx? (fun slave => slave.addr.toNat = strtoul (address below))) := by
  have parts : split (outgoing ++ 0x2F :: below) 0x2F 0 = components below := by
    rw [outgoing_levels, split_append (by decide), split_append (by decide), split_append (by decide)]
    rfl
  have first := @head_split 0x2F below some_below
  unfold components at parts ⊢
  cases rest : split below 0x2F 0 with
  | nil =>
    rw [rest] at first
    cases first
  | cons level more =>
    rw [rest, List.head?_cons, Option.some.injEq] at first
    simp only [route, parts, rest, and_self, if_true, first]
    rfl

end Topics

section Handling

variable {master : Master} {below : Bytes} (payload : Bytes)

theorem callback_unknown (some_below : below ≠ [])
    (unknown : ∀ slave ∈ master.slaves, slave.addr.toNat ≠ strtoul (address below)) :
    messageCallback master (outgoing ++ 0x2F :: below) payload = some (master, []) := by
  have routed := route_below master.slaves below some_below
  have nobody : master.slaves.findIdx? (fun slave => slave.addr.toNat = strtoul (address below)) = none := by
    rw [List.findIdx?_eq_none_iff]
    intro slave member
    exact decide_eq_false (unknown slave member)
  rw [nobody] at routed
  simp only [messageCallback, routed]

theorem callback_known (some_below : below ≠ []) {i : Nat}
    (found : master.slaves.findIdx? (fun slave => slave.addr.toNat = strtoul (address below)) = some i) :
    ∃ slave, master.slaves[i]? = some slave ∧ slave.addr.toNat = strtoul (address below) ∧
      messageCallback master (outgoing ++ 0x2F :: below) payload =
        some ({ master with slaves := master.slaves.set i (deliver slave (components below) payload).1 },
          (deliver slave (components below) payload).2.map (fun event => (i, event))) := by
  have routed := route_below master.slaves below some_below
  obtain ⟨bound, same, _⟩ := List.findIdx?_eq_some_iff_getElem.mp found
  have there : master.slaves[i]? = some master.slaves[i] := List.getElem?_eq_getElem bound
  rw [found] at routed
  refine ⟨master.slaves[i], there, of_decide_eq_true same, ?_⟩
  simp only [messageCallback, routed, there]

theorem numeral_addr {text : Bytes} (digits : isNumeral text = true) {addr : UInt8}
    (same : addr.toNat = strtoul text) : numeral text = addr.toNat := by
  have small := addr.toNat_lt
  rw [strtoul_numeral digits] at same
  unfold ULONG_MAX at same
  omega

theorem callback_below (master : Master) (some_below : below ≠ []) :
    ((∀ slave ∈ master.slaves, slave.addr.toNat ≠ strtoul (address below)) ∧
      messageCallback master (outgoing ++ 0x2F :: below) payload = some (master, [])) ∨
    ∃ (i : Nat) (slave : OsdpSlave), master.slaves[i]? = some slave ∧ slave.addr.toNat = strtoul (address below) ∧
      messageCallback master (outgoing ++ 0x2F :: below) payload =
        some ({ master with slaves := master.slaves.set i (deliver slave (components below) payload).1 },
          (deliver slave (components below) payload).2.map (fun event => (i, event))) := by
  cases found : master.slaves.findIdx? (fun slave => slave.addr.toNat = strtoul (address below)) with
  | none =>
    rw [List.findIdx?_eq_none_iff] at found
    have nobody : ∀ slave ∈ master.slaves, slave.addr.toNat ≠ strtoul (address below) :=
      fun slave member => of_decide_eq_false (found slave member)
    exact Or.inl ⟨nobody, callback_unknown payload some_below nobody⟩
  | some i => exact Or.inr ⟨i, callback_known payload some_below found⟩

theorem Handled.known (handled : Handled master (outgoing ++ 0x2F :: below) payload) (some_below : below ≠ []) :
    isNumeral (address below) = true ∨
      ∀ slave ∈ master.slaves, slave.addr.toNat ≠ strtoul (address below) := by
  rcases callback_below payload master some_below with ⟨nobody, _⟩ | ⟨i, slave, _, _, told⟩
  · exact Or.inr nobody
  · obtain ⟨event, member⟩ := List.exists_mem_of_ne_nil _ (deliver_noticed slave (components below) payload)
    obtain ⟨slave', level, _, fourth, digits, _⟩ :=
      handled.addressed _ _ i event told (List.mem_map_of_mem member)
    rw [fourth_level, Option.some.injEq] at fourth
    exact Or.inl (fourth ▸ digits)

theorem handled_below (some_below : below ≠ []) (known : isNumeral (address below) = true ∨
    ∀ slave ∈ master.slaves, slave.addr.toNat ≠ strtoul (address below)) :
    Handled master (outgoing ++ 0x2F :: below) payload := by
  rcases callback_below payload master some_below with ⟨_, silent⟩ | ⟨i, slave, there, same, told⟩
  · refine ⟨by simp [silent], ?_⟩
    intro master' events i event told member
    rw [silent] at told
    cases told
    cases member
  · refine ⟨by simp [told], ?_⟩
    intro master' events j event told' member
    rw [told] at told'
    cases told'
    obtain ⟨_, _, tagged⟩ := List.mem_map.mp member
    cases tagged
    rcases known with digits | nobody
    · exact ⟨slave, address below, there, fourth_level below, digits, numeral_addr digits same⟩
    · exact absurd same (nobody slave (List.mem_of_getElem? there))

end Handling

/-- A topic is handled as it should be exactly if there is something behind its last fixed slash, and the
level there is a numeral or means no slave of the bus. -/
theorem handled_iff (master : Master) (topic payload : Bytes) (delivered : Delivered topic) :
    Handled master topic payload ↔ ∃ below, topic = outgoing ++ 0x2F :: below ∧ below ≠ [] ∧
      (isNumeral (address below) = true ∨
        ∀ slave ∈ master.slaves, slave.addr.toNat ≠ strtoul (address below)) := by
  constructor
  · intro handled
    rcases delivered with parent | ⟨below, topic_eq⟩
    · have refused : messageCallback master topic payload = none := by
        rw [parent, messageCallback, route_outgoing]
      exact absurd refused handled.inside
    · subst topic_eq
      have some_below : below ≠ [] := by
        intro empty
        subst empty
        exact handled.inside (by rw [messageCallback, route_empty])
      exact ⟨below, rfl, some_below, handled.known payload some_below⟩
  · intro condition
    obtain ⟨below, topic_eq, some_below, known⟩ := condition
    subst topic_eq
    exact handled_below payload some_below known

theorem handled_iff_numeral :
    Handled (bus plainPort [ascii "5"]).start (ascii "osdp/bus1/outgoing/05/control") (ascii "DISABLE") :=
  (handled_iff _ _ _ (Or.inr ⟨ascii "05/control", by decide⟩)).mpr
    ⟨ascii "05/control", by decide, by decide, Or.inl (by decide)⟩

/-- The topic above the wildcard has no fourth component, and `5x` is taken for the address 5. -/
theorem outgoing_mishandled :
    ¬∀ master topic payload, Delivered topic → Handled master topic payload := by
  intro always
  have parent := always (bus plainPort [ascii "5"]).start outgoing [] (Or.inl rfl)
  exact parent.inside rfl

theorem letter_mishandled :
    ¬Handled (bus plainPort [ascii "5"]).start (ascii "osdp/bus1/outgoing/5x") [OSDP_POLL] := by
  intro handled
  have told : (messageCallback (bus plainPort [ascii "5"]).start (ascii "osdp/bus1/outgoing/5x") [OSDP_POLL]).map
      Prod.snd = some [(0, .arrived [OSDP_POLL] true)] := by decide
  obtain ⟨⟨master', events⟩, result, events_eq⟩ := Option.map_eq_some_iff.mp told
  have member : (0, Event.arrived [OSDP_POLL] true) ∈ events := by
    rw [show events = [(0, .arrived [OSDP_POLL] true)] from events_eq]
    exact List.mem_cons_self
  obtain ⟨slave, level, _, fourth, digits, _⟩ := handled.addressed _ _ _ _ result member
  have level_eq : (levels 0x2F (ascii "osdp/bus1/outgoing/5x"))[3]? = some (ascii "5x") := by decide
  rw [level_eq, Option.some.injEq] at fourth
  rw [← fourth] at digits
  exact absurd digits (by decide)

end OsdpMaster.Routing
