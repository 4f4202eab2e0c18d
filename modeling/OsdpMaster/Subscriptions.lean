import OsdpMaster.Lib.TopicFilter
import OsdpMaster.ReplyDelivery
import OsdpMaster.RetainedStatus
import OsdpMaster.UploadDelivery

/-!
Who hears what through the broker, of which the rules for topic filters are all that
is used. The scripts subscribe below `osdp/bus1/incoming`, and get the replies; the
statuses go out below `osdpiom/bus1/incoming`, where no script listens, so
`filesend.py` never learns that its device is offline.
-/

namespace OsdpMaster.Subscriptions
open OsdpMaster.Protocol OsdpMaster.Slave OsdpMaster.SlavePoll OsdpMaster.SlaveRun OsdpMaster.Split OsdpMaster.Bus
open OsdpMaster.BusStep OsdpMaster.QueueHistory OsdpMaster.CallHistory OsdpMaster.ReplyDelivery
open OsdpMaster.RetainedStatus OsdpMaster.Lib.Trace

section Filters

def Plain (text : Bytes) : Prop := text ≠ [] ∧ 0x2B ∉ text ∧ 0x23 ∉ text

instance (text : Bytes) : Decidable (Plain text) := inferInstanceAs (Decidable (_ ∧ _ ∧ _))

/-- What MQTT says of a broker that hands a message with this topic to a client with this subscription. -/
structure Mqtt (forwards : Bytes → Bytes → Bool) : Prop where
  /-- A filter without wildcards is for the topic that it names. -/
  exact : ∀ filter topic, Plain filter → Plain topic → (forwards filter topic = true ↔ topic = filter)
  /-- One that ends in `/#`, for the topic before that and all the topics below it. -/
  below : ∀ parent topic, Plain parent → Plain topic →
    (forwards (parent ++ ascii "/#") topic = true ↔ topic = parent ∨ parent ++ ascii "/" <+: topic)

def outgoingFilter : Bytes := ascii "osdp/bus1/outgoing/#"

def watchFilter : Bytes := ascii "osdp/bus1/incoming/#"

/-- Of `osdpinfo.py` and `pubkey.py`, whose `addr` is the text of their argument. -/
def deviceFilter (addr : Bytes) : Bytes := ascii "osdp/bus1/incoming/" ++ addr

def formatInt (value : Int) : Bytes := if value < 0 then 0x2D :: decimal value.natAbs else decimal value.natAbs

def uploadFilter (addr : Int) : Bytes := ascii "osdp/bus1/incoming/" ++ formatInt addr ++ ascii "/#"

end Filters

section Numerals

theorem decimal_eq (value : Nat) : decimal value = (Nat.toDigits 10 value).map fun c => UInt8.ofNat c.toNat := by
  rw [decimal, ascii, Nat.toString_eq_ofList_toDigits, String.toList_ofList]

theorem digit_byte {c : Char} (digit : c.isDigit = true) :
    isdigit (UInt8.ofNat c.toNat) = true ∧ (UInt8.ofNat c.toNat).toNat = c.toNat := by
  have range : 48 ≤ c.toNat ∧ c.toNat ≤ 57 := by
    simp only [Char.isDigit, Bool.and_eq_true, decide_eq_true_eq] at digit
    exact digit
  have byte : (UInt8.ofNat c.toNat).toNat = c.toNat := by
    rw [UInt8.toNat_ofNat', Nat.mod_eq_of_lt (by omega)]
  refine ⟨?_, byte⟩
  rw [isdigit, Bool.and_eq_true, decide_eq_true_eq, decide_eq_true_eq, UInt8.le_iff_toNat_le, UInt8.le_iff_toNat_le, byte]
  exact range

theorem isNumeral_decimal (value : Nat) : isNumeral (decimal value) = true := by
  rw [isNumeral, decimal_eq, Bool.and_eq_true, bne_iff_ne, List.all_eq_true]
  constructor
  · exact fun empty => Nat.toDigits_ne_nil (List.map_eq_nil_iff.mp empty)
  · intro byte member
    obtain ⟨c, digit, rfl⟩ := List.mem_map.mp member
    exact (digit_byte (Nat.isDigit_of_mem_toDigits (by decide) (by decide) digit)).1

theorem numeral_decimal (value : Nat) : numeral (decimal value) = value := by
  have digits : ∀ text : List Char, (∀ c ∈ text, c.isDigit = true) → ∀ start,
      (text.map fun c => UInt8.ofNat c.toNat).foldl (fun sum digit => 10 * sum + (digit.toNat - 0x30)) start =
        Nat.ofDigitChars 10 text start := by
    intro text
    induction text with
    | nil => exact fun _ _ => rfl
    | cons c text ih =>
      intro all start
      obtain ⟨first, others⟩ := List.forall_mem_cons.mp all
      rw [List.map_cons, List.foldl_cons, (digit_byte first).2, ih others, Nat.ofDigitChars_cons]
      rfl
  rw [numeral, decimal_eq, digits _ fun c member => Nat.isDigit_of_mem_toDigits (by decide) (by decide) member]
  exact Nat.ofDigitChars_ten_toDigits

theorem decimal_inj {value value' : Nat} (same : decimal value = decimal value') : value = value' := by
  rw [← numeral_decimal value, same, numeral_decimal]

theorem decimal_free (value : Nat) {byte : UInt8} (other : isdigit byte = false) : byte ∉ decimal value := by
  have all := isNumeral_decimal value
  rw [isNumeral, Bool.and_eq_true, List.all_eq_true] at all
  intro member
  rw [all.2 byte member] at other
  cases other

theorem formatInt_eq_iff (value : Int) (number : Nat) : formatInt value = decimal number ↔ value = number := by
  unfold formatInt
  split
  next negative =>
    refine iff_of_false ?_ (by omega)
    intro same
    exact decimal_free number (by decide : isdigit 0x2D = false) (same ▸ List.mem_cons_self)
  next => exact ⟨fun same => by have := decimal_inj same; omega, fun same => by rw [same]; rfl⟩

theorem formatInt_free (value : Int) {byte : UInt8} (other : isdigit byte = false) (unsigned : byte ≠ 0x2D) :
    byte ∉ formatInt value := by
  unfold formatInt
  split
  · exact List.not_mem_cons_of_ne_of_not_mem unsigned (decimal_free _ other)
  · exact decimal_free _ other

end Numerals

section Topics

def replyTopic (addr : UInt8) : Bytes := ascii "osdp/bus1/incoming/" ++ decimal addr.toNat

theorem reply_levels (addr : UInt8) : levels 0x2F (replyTopic addr) =
    [ascii "osdp", ascii "bus1", ascii "incoming", decimal addr.toNat] := by
  have parts : replyTopic addr =
    ascii "osdp" ++ 0x2F :: (ascii "bus1" ++ 0x2F :: (ascii "incoming" ++ 0x2F :: decimal addr.toNat)) := rfl
  rw [parts, levels_append (by decide), levels_append (by decide), levels_append (by decide),
    levels_free (decimal_free _ (by decide))]

theorem plain_append {first rest : Bytes} (plain : Plain first) (no_one : 0x2B ∉ rest) (no_all : 0x23 ∉ rest) :
    Plain (first ++ rest) := by
  obtain ⟨some_bytes, one, all⟩ := plain
  exact ⟨by simp [some_bytes], by simp [one, no_one], by simp [all, no_all]⟩

theorem plain_incoming (value : Int) : Plain (ascii "osdp/bus1/incoming/" ++ formatInt value) :=
  plain_append (by decide) (formatInt_free value (by decide) (by decide)) (formatInt_free value (by decide) (by decide))

theorem plain_device (value : Nat) : Plain (ascii "osdp/bus1/incoming/" ++ decimal value) :=
  plain_append (by decide) (decimal_free value (by decide)) (decimal_free value (by decide))

theorem plain_status (addr : UInt8) : Plain (topicOf addr) :=
  plain_append (plain_append (by decide) (decimal_free _ (by decide)) (decimal_free _ (by decide))) (by decide) (by decide)

theorem prefix_of_append {first second rest : Bytes} (here : first <+: second ++ rest)
    (shorter : first.length ≤ second.length) : first <+: second :=
  List.prefix_of_prefix_length_le here (List.prefix_append _ _) shorter

variable {forwards : Bytes → Bytes → Bool} (mqtt : Mqtt forwards)

include mqtt in
/-- What comes through a filter for the rest is named with what is before the wildcard. -/
theorem Mqtt.named_above {parent topic : Bytes} (plain : Plain parent) (other : Plain topic)
    (through : forwards (parent ++ ascii "/#") topic = true) : parent <+: topic := by
  rcases (mqtt.below parent topic plain other).mp through with rfl | deeper
  · exact List.prefix_rfl
  · exact (List.prefix_append _ _).trans deeper

structure Forwarded (forwards : Bytes → Bytes → Bool) (topic : Bytes) (outgoing watch : Bool) (device : Nat → Prop)
    (upload : Int → Prop) : Prop where
  outgoing : forwards outgoingFilter topic = outgoing
  watch : forwards watchFilter topic = watch
  device : ∀ asked, forwards (deviceFilter (decimal asked)) topic = true ↔ device asked
  upload : ∀ asked, forwards (uploadFilter asked) topic = true ↔ upload asked

include mqtt in
theorem reply_forwarded (addr : UInt8) :
    Forwarded forwards (replyTopic addr) false true (fun asked => asked = addr.toNat) (fun asked => asked = addr.toNat)
    where
  outgoing := by
    rw [Bool.eq_false_iff]
    intro through
    have named := mqtt.named_above (by decide : Plain (ascii "osdp/bus1/outgoing")) (plain_device _) through
    have shorter : ascii "osdp/bus1/outgoing" <+: ascii "osdp/bus1/incoming/" := prefix_of_append named (by decide)
    exact absurd shorter (by decide)
  watch := (mqtt.below (ascii "osdp/bus1/incoming") _ (by decide) (plain_device _)).mpr
    (Or.inr (List.prefix_append _ _))
  device asked := by
    rw [deviceFilter, replyTopic, mqtt.exact _ _ (plain_device asked) (plain_device _), List.append_cancel_left_eq]
    exact ⟨fun same => (decimal_inj same).symm, fun same => same ▸ rfl⟩
  upload asked := by
    have bare : ¬formatInt asked ++ ascii "/" <+: decimal addr.toNat := by
      intro deeper
      have slash : (0x2F : UInt8) ∈ formatInt asked ++ ascii "/" := List.mem_append_right _ (by decide)
      exact decimal_free addr.toNat (by decide) (deeper.subset slash)
    rw [uploadFilter, replyTopic, mqtt.below _ _ (plain_incoming asked) (plain_device _), List.append_cancel_left_eq,
      List.append_assoc, List.prefix_append_right_inj, or_iff_left bare, eq_comm, formatInt_eq_iff]

include mqtt in
theorem status_forwarded (addr : UInt8) :
    Forwarded forwards (topicOf addr) false false (fun _ => False) (fun _ => False) := by
  have parts : topicOf addr = ascii "osdpiom/bus1/incoming/" ++ (decimal addr.toNat ++ ascii "/status") :=
    List.append_assoc _ _ _
  have elsewhere (below : Bytes) : ¬ascii "osdp/" ++ below <+: topicOf addr := by
    intro named
    rw [parts] at named
    exact absurd (prefix_of_append ((List.prefix_append _ _).trans named) (by decide)) (by decide)
  constructor
  · rw [Bool.eq_false_iff]
    intro through
    exact elsewhere _ (mqtt.named_above (by decide : Plain (ascii "osdp/" ++ ascii "bus1/outgoing")) (plain_status addr) through)
  · rw [Bool.eq_false_iff]
    intro through
    exact elsewhere _ (mqtt.named_above (by decide : Plain (ascii "osdp/" ++ ascii "bus1/incoming")) (plain_status addr) through)
  · intro asked
    rw [deviceFilter, mqtt.exact _ _ (plain_device asked) (plain_status addr), iff_false]
    intro same
    exact elsewhere (ascii "bus1/incoming/" ++ decimal asked) ⟨[], by rw [List.append_nil, same]; rfl⟩
  · intro asked
    rw [iff_false]
    intro through
    have named := mqtt.named_above (plain_incoming asked) (plain_status addr) through
    exact elsewhere (ascii "bus1/incoming/" ++ formatInt asked) named

theorem mqtt_levels : Mqtt (Lib.TopicFilter.accepts 0x2F 0x2B 0x23) where
  exact _ topic plain _ := Lib.TopicFilter.accepts_exact plain.2.1 plain.2.2 topic
  below _ topic plain _ := Lib.TopicFilter.accepts_below plain.2.1 plain.2.2 (by decide) (by decide) topic

end Topics

section Runs

variable {config : SerialConfig} {texts : List Bytes} {master : Master} {history : List (Nat × Event)} {i : Nat}
  {publication : Publication}

/-- What a slave of the configuration publishes: a status under its status topic, or one of its good replies. -/
theorem published_kinds (run : Run (bus config texts) free master history)
    (published : (i, .published publication) ∈ history) :
    ∃ text, texts[i]? = some text ∧
      (publication.retain = true ∧ publication.topic = topicOf (addSlave text).addr ∨
        publication.retain = false ∧ Worthy (addSlave text).addr publication) := by
  obtain ⟨inside, titled⟩ := titled_history run _ published
  have configured := List.getElem?_eq_getElem inside
  refine ⟨_, configured, ?_⟩
  rw [topicAt_eq configured] at titled
  cases retained : publication.retain with
  | true => exact Or.inl ⟨rfl, (titled publication rfl retained).1⟩
  | false =>
    obtain ⟨p, _, slaveRun⟩ := run_slave configured run
    have relays := relays_run slaveRun
    have passed : publication ∈ passedOn (eventsOf i history) := by
      refine List.mem_filterMap.mpr ⟨.published publication, mem_eventsOf.mpr published, ?_⟩
      simp only [retained, Bool.false_eq_true, if_false]
    have news : publication ∈ (heardIn (eventsOf i history)).news := by
      rw [← relays.balance]
      exact List.mem_append_left _ passed
    have worthy := relays.worthy publication news
    rw [(ledger_run slaveRun).addr] at worthy
    exact Or.inr ⟨rfl, worthy⟩

theorem Worthy.topic {addr : UInt8} (worthy : Worthy addr publication) : publication.topic = replyTopic addr := by
  obtain ⟨size, buffer, answers, _, rfl⟩ := worthy
  rw [replyOf, replyTopic, answers.addr]

/-- In every run, who gets what the master publishes: nothing comes back to it; `watch.py` gets the replies, and the
scripts for one address get those of the slave with that address; and no script gets a status. -/
theorem broker_forwards (forwards : Bytes → Bytes → Bool) (mqtt : Mqtt forwards) (config : SerialConfig)
    (texts : List Bytes) (master : Master) (history : List (Nat × Event))
    (run : Run (bus config texts) free master history) (i : Nat) (publication : Publication)
    (published : (i, .published publication) ∈ history) :
    ∃ text, texts[i]? = some text ∧ Forwarded forwards publication.topic false (!publication.retain)
      (fun asked => publication.retain = false ∧ asked = (addSlave text).addr.toNat)
      (fun asked => publication.retain = false ∧ asked = (addSlave text).addr.toNat) := by
  obtain ⟨text, configured, ⟨retained, topic⟩ | ⟨passed, worthy⟩⟩ := published_kinds run published
  · refine ⟨text, configured, ?_⟩
    rw [topic, retained]
    simpa using status_forwarded mqtt (addSlave text).addr
  · refine ⟨text, configured, ?_⟩
    rw [Worthy.topic worthy, passed]
    simpa using reply_forwarded mqtt (addSlave text).addr

def ftstat : Publication := ⟨ascii "osdp/bus1/incoming/5", 8, [0x7A, 0, 0, 0, 2, 0, 0, 0], 1, false⟩

theorem published_ftstat : ∃ master history, Run (bus plainPort [ascii "5"]) free master history ∧
    (0, .published ftstat) ∈ history := by
  have checked : (replay (bus plainPort [ascii "5"]) free (bus plainPort [ascii "5"]).start
      (bus plainPort [ascii "5"]).startup
      (polls 8 ⟨0, 0⟩ [.data ackReply] ++ polls 8 ⟨1, 0⟩ [.data UploadDelivery.ftstatReply])).any
      (fun reached => decide ((0, .published ftstat) ∈ reached.2)) = true := by
    decide +kernel
  obtain ⟨master, history, run, published⟩ := exists_run checked
  exact ⟨master, history, run, of_decide_eq_true published⟩

theorem broker_forwards_ftstat : ∃ history : List (Nat × Event), (0, .published ftstat) ∈ history ∧
    Lib.TopicFilter.accepts 0x2F 0x2B 0x23 watchFilter ftstat.topic = true ∧
      Lib.TopicFilter.accepts 0x2F 0x2B 0x23 (uploadFilter 5) ftstat.topic = true := by
  obtain ⟨master, history, run, published⟩ := published_ftstat
  obtain ⟨text, configured, forwarded⟩ :=
    broker_forwards _ mqtt_levels plainPort [ascii "5"] master history run 0 ftstat published
  cases configured
  exact ⟨history, published, forwarded.watch, (forwarded.upload 5).mpr ⟨rfl, by decide⟩⟩

end Runs

section Upload

def isDevice (addr : Int) (topic : Bytes) : Prop :=
  ∃ level, (levels 0x2F topic).getLast? = some level ∧ isNumeral level = true ∧ (numeral level : Int) = addr

/-- What `on_message` takes a message for. A status needs the level `status` at the end, and more. -/
def Taken (addr : Int) (publication : Publication) : Filesend.Incoming → Prop
  | .device payload => isDevice addr publication.topic ∧ payload = publication.payload
  | .status payload => (levels 0x2F publication.topic).getLast? = some (ascii "status") ∧ payload = publication.payload

/-- `filesend.py` for `addr` hears what the broker forwards to it of what the master publishes. -/
def Fed (forwards : Bytes → Bytes → Bool) (history : List (Nat × Event)) (addr : Int) :
    Filesend.State → List Filesend.Event → Filesend.Action → Prop
  | _, _, .message incoming => ∃ i publication, (i, .published publication) ∈ history ∧
      forwards (uploadFilter addr) publication.topic = true ∧ Taken addr publication incoming
  | _, _, _ => True

def FromDevice (texts : List Bytes) (history : List (Nat × Event)) (addr : Int) (publication : Publication) : Prop :=
  ∃ i text, texts[i]? = some text ∧ ((addSlave text).addr.toNat : Int) = addr ∧
    (i, .published publication) ∈ history ∧ Worthy (addSlave text).addr publication

structure Hears (texts : List Bytes) (history : List (Nat × Event)) (addr : Int) (s : Filesend.State) : Prop where
  online : s.offline = false
  crashed : s.crashed = true → ∃ publication, FromDevice texts history addr publication ∧ publication.payload = []
  stashed : ∀ stat, s.ftstat = some stat → stat.head? = some 0x7A ∧
    ∃ publication, FromDevice texts history addr publication ∧ publication.payload = stat

variable {forwards : Bytes → Bytes → Bool} (mqtt : Mqtt forwards) {config : SerialConfig} {texts : List Bytes}
  {master : Master} {history : List (Nat × Event)} {addr : Int} {image : Bytes} {s s' : Filesend.State}
  {events : List Filesend.Event}

include mqtt in
theorem fed_device (run : Run (bus config texts) free master history) {i : Nat} {publication : Publication}
    (published : (i, .published publication) ∈ history)
    (forwarded : forwards (uploadFilter addr) publication.topic = true) :
    FromDevice texts history addr publication ∧
      (levels 0x2F publication.topic).getLast? ≠ some (ascii "status") := by
  obtain ⟨text, configured, ⟨_, topic⟩ | ⟨_, worthy⟩⟩ := published_kinds run published
  · rw [topic] at forwarded
    exact (((status_forwarded mqtt _).upload addr).mp forwarded).elim
  · have topic := Worthy.topic worthy
    rw [topic] at forwarded
    refine ⟨⟨i, text, configured, (((reply_forwarded mqtt _).upload addr).mp forwarded).symm, published, worthy⟩, ?_⟩
    rw [topic, reply_levels]
    intro last
    have same : decimal (addSlave text).addr.toNat = ascii "status" := Option.some.inj last
    have digits := isNumeral_decimal (addSlave text).addr.toNat
    rw [same] at digits
    exact absurd digits (by decide)

include mqtt in
theorem onMessage_hears (run : Run (bus config texts) free master history) (hears : Hears texts history addr s)
    {incoming : Filesend.Incoming} (fed : Fed forwards history addr s events (.message incoming)) :
    Hears texts history addr (Filesend.onMessage s incoming) := by
  obtain ⟨i, publication, published, forwarded, taken⟩ := fed
  obtain ⟨device, no_status⟩ := fed_device mqtt run published forwarded
  cases incoming with
  | status payload => exact absurd taken.1 no_status
  | device payload =>
    obtain ⟨_, rfl⟩ := taken
    cases bytes : publication.payload with
    | nil => exact ⟨hears.online, fun _ => ⟨publication, device, bytes⟩, hears.stashed⟩
    | cons code rest =>
      rw [Filesend.onMessage]
      split
      next here =>
        refine ⟨hears.online, hears.crashed, fun stat same => ?_⟩
        cases same
        exact ⟨by rw [List.head?_cons, here], publication, device, bytes⟩
      next => exact hears

theorem advance_kept (moved : Filesend.advance image s = some (s', events)) :
    s'.offline = s.offline ∧ s'.crashed = s.crashed ∧ s'.ftstat = s.ftstat := by
  unfold Filesend.advance at moved
  split at moved
  · cases moved
    exact ⟨rfl, rfl, rfl⟩
  · cases moved
    unfold Filesend.attempt
    split
    · exact ⟨rfl, rfl, rfl⟩
    · split <;> exact ⟨rfl, rfl, rfl⟩
  · cases moved
    exact ⟨rfl, rfl, rfl⟩
  · split at moved
    · cases moved
      exact ⟨rfl, rfl, rfl⟩
    · cases moved
  · cases moved
    exact ⟨rfl, rfl, rfl⟩
  · cases moved

include mqtt in
theorem step_hears (run : Run (bus config texts) free master history) (hears : Hears texts history addr s)
    {before : List Filesend.Event} {action : Filesend.Action} (fed : Fed forwards history addr s before action)
    (stepped : Filesend.step image s action = some (s', events)) : Hears texts history addr s' := by
  have kept (same : s'.offline = s.offline ∧ s'.crashed = s.crashed ∧ s'.ftstat = s.ftstat) :
      Hears texts history addr s' := by
    obtain ⟨offline, crashed, ftstat⟩ := same
    exact ⟨offline ▸ hears.online, crashed ▸ hears.crashed, ftstat ▸ hears.stashed⟩
  unfold Filesend.step at stepped
  split at stepped
  · cases stepped
  cases action with
  | message incoming =>
    dsimp only at stepped
    split at stepped
    · cases stepped
    · cases stepped
      exact onMessage_hears mqtt run hears fed
  | set =>
    dsimp only at stepped
    split at stepped
    · cases stepped
      exact kept ⟨rfl, rfl, rfl⟩
    · cases stepped
  | uploader => exact kept (advance_kept stepped)
  | timeout =>
    dsimp only at stepped
    split at stepped
    · cases stepped
      exact kept ⟨rfl, rfl, rfl⟩
    · cases stepped

/-- However a run of the master and a run of `filesend.py` go together over the broker: it never takes its device for
offline, since no status reaches it; every status of the upload that it looks at is an accepted reply of a slave with
its address; and it crashes on nothing but an empty one. -/
theorem upload_hears (forwards : Bytes → Bytes → Bool) (mqtt : Mqtt forwards) (config : SerialConfig)
    (texts : List Bytes) (master : Master) (history : List (Nat × Event))
    (run : Run (bus config texts) free master history) (image : Bytes) (addr : Int) (s : Filesend.State)
    (events : List Filesend.Event) (uploading : Run (Filesend.filesend image) (Fed forwards history addr) s events) :
    Hears texts history addr s := by
  apply uploading.invariant (I := fun s _ => Hears texts history addr s)
  · exact ⟨rfl, fun crashed => absurd crashed Bool.false_ne_true, fun _ none => nomatch none⟩
  · intro s before action s' events _ hears fed stepped
    exact step_hears mqtt run hears fed stepped

theorem upload_hears_ftstat : ∃ (history : List (Nat × Event)) (s : Filesend.State),
    s.ftstat = some ftstat.payload ∧ Hears [ascii "5"] history 5 s := by
  obtain ⟨master, history, run, published⟩ := published_ftstat
  have forwarded : Lib.TopicFilter.accepts 0x2F 0x2B 0x23 (uploadFilter 5) ftstat.topic = true := by decide
  have taken : Taken 5 ftstat (.device ftstat.payload) := ⟨⟨ascii "5", by decide, by decide, by decide⟩, rfl⟩
  have fed : Fed (Lib.TopicFilter.accepts 0x2F 0x2B 0x23) history 5 (Filesend.filesend [0x41]).start []
      (.message (.device ftstat.payload)) := ⟨0, ftstat, published, forwarded, taken⟩
  have uploading : Run (Filesend.filesend [0x41]) (Fed (Lib.TopicFilter.accepts 0x2F 0x2B 0x23) history 5)
      (Filesend.onMessage (Filesend.filesend [0x41]).start (.device ftstat.payload))
      ([] ++ Filesend.taken (.device ftstat.payload)) := .step .start fed rfl
  exact ⟨history, _, rfl, upload_hears _ mqtt_levels plainPort [ascii "5"] master history run [0x41] 5 _ _ uploading⟩

end Upload

end OsdpMaster.Subscriptions
