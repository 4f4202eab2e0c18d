import OsdpMaster.SplitJoin
import OsdpMaster.WholeProcess

/-!
What `main` does before there is a poll thread: the command line, the appenders
of the log, `xparse_config`, and the slaves with their first status. It gets to
the thread for complete configurations only, and then it has built the start of
the process; whether that process can ever open its port is up to the
configuration, too.
-/

namespace OsdpMaster.Startup
open OsdpMaster.Protocol OsdpMaster.SlavePoll OsdpMaster.Bus OsdpMaster.Prepcom OsdpMaster.Descriptors
open OsdpMaster.WholeProcess OsdpMaster.Lib.Program OsdpMaster.Lib.Trace

section Code

/-- `g_config`: the names of its sections in their order, and what `get_optional` of a string, an `int` and a
`bool` gives for a path. -/
structure Tree where
  sections : List Bytes
  string : Bytes → Option Bytes
  int : Bytes → Option Int
  bool : Bytes → Option Bool

/-- Why there is no poll thread; `main` catches nothing. -/
inductive Failure
  /-- A `protocol_exception`. -/
  | thrown (message : String)
  /-- What `get` without a default throws for a setting that is not there or no `bool`. -/
  | unset
  /-- An access past the end of a vector, or through a null pointer. -/
  | fault
  deriving DecidableEq

inductive Appender
  | console
  | file (name : Bytes)
  deriving DecidableEq

/-- What `main` has set up: the appenders of the log, and the slaves of `proto` with what it has published of
them. -/
structure Launch where
  appenders : List Appender
  slaves : List OsdpSlave
  published : List Publication
  deriving DecidableEq

def Launch.new : Launch := ⟨[], [], []⟩

abbrev Starting := EStateM Failure Launch

def cStr (text : Bytes) : Bytes := text.takeWhile (fun byte => byte ≠ 0)

/-- `argv` from 1 on, less the options. The value of `-b` goes to `frombaud`, which nothing reads. -/
def arguments : List Bytes → Starting (List Bytes)
  | [] => pure []
  | [arg] => if arg = ascii "-b" then throw .fault else pure [arg]
  | arg :: next :: args =>
    if arg = ascii "-b" then arguments args
    else do
      let rest ← arguments (next :: args)
      pure (arg :: rest)

def addAppender (appender : Appender) : Starting Unit :=
  modify fun launch => { launch with appenders := launch.appenders ++ [appender] }

/-- A part of `logging.config`. -/
def readAppender (part : Bytes) : Starting Unit :=
  match SplitJoin.split part 0x3D 2 with
  | [] => throw .fault
  | key :: values =>
    if key = ascii "console" then addAppender .console
    else if key = ascii "file" then
      match values with
      | [] => throw .fault
      | value :: _ => addAppender (.file (cStr value))
    else pure ()

/-- The `config` and the `port2` that `xparse_config` fills in. -/
structure Parsed where
  port : Bytes
  port2 : Option Bytes
  settings : PortSettings
  config : SerialConfig
  deriving DecidableEq

/-- The first character; a string ends with a zero. -/
def firstChar (text : Bytes) : UInt8 := text.headD 0

/-- Of the presets that `main` puts into `config` before, none is left. -/
def xparseConfig (tree : Tree) : Except Failure Parsed := do
  let port ←
    match tree.string (ascii "port.device") with
    | none => throw (.thrown "Config does not specify the device name")
    | some portname => pure (cStr portname)
  let port2 := (tree.string (ascii "port.device2")).map cStr
  let baud := (tree.int (ascii "port.baud")).getD 57600
  let parity := firstChar ((tree.string (ascii "port.parity")).getD (ascii "N"))
  let bits := (tree.int (ascii "port.data")).getD 8
  let stop := (tree.int (ascii "port.stop")).getD 1
  let flow := firstChar ((tree.string (ascii "port.flow")).getD (ascii "N"))
  let usb ←
    match tree.bool (ascii "port.usb") with
    | none => throw .unset
    | some usb => pure usb
  let lead := (tree.int (ascii "port.lead")).getD 0
  let trail := (tree.int (ascii "port.trail")).getD 0
  let timeout := (tree.int (ascii "port.timeout")).getD 100000
  let delay := (tree.int (ascii "port.delay")).getD 300
  let idle := (tree.int (ascii "port.idle")).getD 300
  -- `char`s take the low byte of an `int`; the two pads are signed.
  pure {
    port := port
    port2 := port2
    settings := ⟨baud, parity, UInt8.ofInt bits, UInt8.ofInt stop, flow, usb⟩
    config := ⟨lead.bmod 256, trail.bmod 256, timeout, delay, idle⟩ }

def addAnnounced (launch : Launch) (xaddr : Bytes) : Launch :=
  let s := addSlave (cStr xaddr)
  { launch with slaves := launch.slaves ++ [s], published := launch.published ++ [Slave.declareOnline s false] }

def isSlave (name : Bytes) : Bool := (ascii "slave").isPrefixOf name

/-- The address of a section, which `add_slave` gets as it is: null where there is none. -/
def xaddrOf (tree : Tree) (name : Bytes) : Option Bytes := tree.string (name ++ ascii ".addr")

def readSection (tree : Tree) (name : Bytes) : Starting Unit :=
  if isSlave name then
    match xaddrOf tree name with
    | none => throw .fault
    | some xaddr => modify fun launch => addAnnounced launch xaddr
  else pure ()

def logconfig (tree : Tree) : Bytes := cStr ((tree.string (ascii "logging.config")).getD [])

/-- `main` up to `pthread_create`, with the process it starts then. `memory` is what was where `proto` has its
`m_fd`. -/
def main (tree : Tree) (argv : List Bytes) (memory : Int) : Starting Process := do
  let _ ← arguments argv
  (SplitJoin.split (logconfig tree) 0x3A 0).forM readAppender
  let parsed ← ofExcept (xparseConfig tree)
  tree.sections.forM (readSection tree)
  let launch ← get
  pure ⟨launch.slaves, 0, 0, 0, .idle, (busRun parsed.settings parsed.config parsed.port parsed.port2 memory).start⟩

end Code

section Logging

theorem keyed {part : Bytes} (short : SplitJoin.Short part) :
    (part = [] ∧ SplitJoin.split part 0x3D 2 = []) ∨
      ∃ key values, SplitJoin.split part 0x3D 2 = key :: values ∧ part ≠ [] ∧
        (values = [] ↔ part = key ∨ part = key ++ [0x3D]) := by
  have by_rest : SplitJoin.split part 0x3D 2 = Split.split part 0x3D 2 := SplitJoin.split_eq short 0x3D 2
  rw [by_rest, Split.split]
  obtain ⟨empty, none_left⟩ | ⟨_, limit, _⟩ | ⟨some_bytes, _, _, last⟩ | ⟨first, left, parts, _, free, goes_on⟩ :=
    SplitJoin.round_cases 0x3D 2 part.length 0 part
  · exact Or.inl ⟨empty, none_left⟩
  · exact absurd (Or.inr Nat.zero_lt_two) limit
  · exact Or.inr ⟨part, [], last, some_bytes, iff_of_true rfl (Or.inl rfl)⟩
  · refine Or.inr ⟨first, _, goes_on, by rw [parts]; simp, ?_⟩
    have shorter := SplitJoin.shorter_left parts (Nat.lt_succ_self part.length)
    by_cases ends : left = []
    · refine iff_of_true ?_ (Or.inr (by rw [parts, ends]))
      cases part.length with
      | zero => rfl
      | succ rounds => rw [Split.splitLoop, if_pos ends]
    · obtain ⟨next, pieces, split_left⟩ : ∃ next pieces,
          Split.splitLoop 0x3D 2 part.length 1 left = next :: pieces := SplitJoin.splitLoop_some 1 ends shorter
      rw [split_left]
      refine iff_of_false (List.cons_ne_nil _ _) ?_
      rw [parts]
      simp [ends]

/-- Only `file` and `file=` alone lack the value; that of `file==x` is empty. -/
def Readable (part : Bytes) : Prop := part ≠ [] ∧ part ≠ ascii "file" ∧ part ≠ ascii "file="

instance (part : Bytes) : Decidable (Readable part) := inferInstanceAs (Decidable (_ ∧ _))

def appenderOf (part : Bytes) : Option Appender :=
  match SplitJoin.split part 0x3D 2 with
  | [] => none
  | key :: values =>
    if key = ascii "console" then some .console
    else if key = ascii "file" then values.head?.map fun value => .file (cStr value)
    else none

def withPart (launch : Launch) (part : Bytes) : Launch :=
  { launch with appenders := launch.appenders ++ (appenderOf part).toList }

theorem file_keyed {part key : Bytes} {values : List Bytes} (kv : SplitJoin.split part 0x3D 2 = key :: values)
    (named : part = ascii "file" ∨ part = ascii "file=") : key = ascii "file" ∧ values = [] := by
  have alone : SplitJoin.split (ascii "file") 0x3D 2 = [ascii "file"] := by decide
  have valueless : SplitJoin.split (ascii "file=") 0x3D 2 = [ascii "file"] := by decide
  rcases named with rfl | rfl
  · rw [alone] at kv
    cases kv
    exact ⟨rfl, rfl⟩
  · rw [valueless] at kv
    cases kv
    exact ⟨rfl, rfl⟩

theorem readAppender_ends {part : Bytes} (short : SplitJoin.Short part) (launch : Launch) :
    Ends (readAppender part) launch (fun _ after => Readable part ∧ after = withPart launch part)
      (fun _ _ => ¬Readable part) := by
  obtain ⟨empty, none_left⟩ | ⟨key, values, kv, some_bytes, valueless⟩ := keyed short
  · rw [readAppender, none_left]
    exact fun readable => readable.1 empty
  have unnamed : ¬(key = ascii "file" ∧ values = []) → Readable part := by
    intro other
    exact ⟨some_bytes, fun named => other (file_keyed kv (Or.inl named)), fun named => other (file_keyed kv (Or.inr named))⟩
  rw [readAppender, withPart, appenderOf, kv]
  dsimp only
  by_cases console : key = ascii "console"
  · have other : ascii "console" ≠ ascii "file" := by decide
    rw [if_pos console, if_pos console]
    exact ⟨unnamed fun file => other (console.symm.trans file.1), rfl⟩
  rw [if_neg console, if_neg console]
  by_cases file : key = ascii "file"
  · rw [if_pos file, if_pos file]
    cases values with
    | nil =>
      rcases valueless.mp rfl with same | same
      · exact fun readable => readable.2.1 (same.trans file)
      · exact fun readable => readable.2.2 (by rw [same, file]; rfl)
    | cons value values => exact ⟨unnamed fun none => List.cons_ne_nil _ _ none.2, rfl⟩
  · rw [if_neg file, if_neg file]
    refine ⟨unnamed fun named => file named.1, ?_⟩
    rw [Option.toList_none, List.append_nil]

theorem splitLoop_short {sep : UInt8} {count rounds : Nat} {str : Bytes} (splits : Nat) (enough : str.length < rounds) :
    ∀ piece ∈ Split.splitLoop sep count rounds splits str, piece.length ≤ str.length := by
  induction rounds generalizing splits str with
  | zero => omega
  | succ rounds ih =>
    obtain ⟨_, none_left⟩ | ⟨_, _, last⟩ | ⟨_, _, _, last⟩ | ⟨first, left, parts, _, _, goes_on⟩ :=
      SplitJoin.round_cases sep count rounds splits str
    · rw [none_left]
      exact fun piece member => absurd member List.not_mem_nil
    · rw [last]
      exact List.forall_mem_singleton.mpr le_rfl
    · rw [last]
      exact List.forall_mem_singleton.mpr le_rfl
    · have whole : str.length = first.length + (left.length + 1) := by rw [parts, List.length_append, List.length_cons]
      rw [goes_on]
      refine List.forall_mem_cons.mpr ⟨by omega, fun piece member => ?_⟩
      have shorter := ih (splits + 1) (SplitJoin.shorter_left parts enough) piece member
      omega

theorem parts_short {str : Bytes} (short : SplitJoin.Short str) (sep : UInt8) :
    ∀ part ∈ SplitJoin.split str sep 0, SplitJoin.Short part := by
  have by_rest : SplitJoin.split str sep 0 = Split.split str sep 0 := SplitJoin.split_eq short sep 0
  rw [by_rest]
  intro part member
  exact lt_of_le_of_lt (splitLoop_short 0 (Nat.lt_succ_self str.length) part member) short

end Logging

section Options

/-- How many arguments at the end are `-b`. -/
def danglers (argv : List Bytes) : Nat := (argv.reverse.takeWhile (fun arg => arg = ascii "-b")).length

theorem danglers_le (argv : List Bytes) : danglers argv ≤ argv.length := by
  have shorter := (List.takeWhile_sublist (fun arg => decide (arg = ascii "-b")) (l := argv.reverse)).length_le
  rwa [List.length_reverse] at shorter

theorem danglers_cons (arg : Bytes) (argv : List Bytes) : danglers (arg :: argv) =
    if danglers argv = argv.length ∧ arg = ascii "-b" then argv.length + 1 else danglers argv := by
  rw [danglers, List.reverse_cons, List.takeWhile_append, List.length_reverse, ← danglers]
  by_cases all : danglers argv = argv.length
  · rw [if_pos all, List.length_append, List.length_reverse]
    by_cases option : arg = ascii "-b"
    · rw [if_pos ⟨all, option⟩]
      simp [option]
    · rw [if_neg (fun both => option both.2), all]
      simp [option]
  · rw [if_neg all, if_neg (fun both => all both.1)]
    rfl

theorem danglers_pair (next : Bytes) (argv : List Bytes) :
    danglers (ascii "-b" :: next :: argv) % 2 = danglers argv % 2 := by
  have few := danglers_le argv
  rw [danglers_cons, danglers_cons next, List.length_cons]
  by_cases both : danglers argv = argv.length ∧ next = ascii "-b"
  · rw [if_pos both, if_pos ⟨rfl, rfl⟩, both.1]
    omega
  · rw [if_neg both, if_neg (fun all => by omega)]

/-- The options are read in pairs, so a `-b` at the end lacks its value when it is one of an odd number. -/
theorem arguments_ends (argv : List Bytes) (launch : Launch) :
    Ends (arguments argv) launch (fun _ after => danglers argv % 2 = 0 ∧ after = launch)
      (fun _ _ => danglers argv % 2 ≠ 0) := by
  induction argv using arguments.induct with
  | case1 => exact ⟨rfl, rfl⟩
  | case2 =>
    rw [arguments, if_pos rfl]
    exact Nat.one_ne_zero
  | case3 arg other =>
    rw [arguments, if_neg other, danglers_cons, if_neg (fun both => other both.2)]
    exact ⟨rfl, rfl⟩
  | case4 next args ih =>
    rw [arguments, if_pos rfl, danglers_pair]
    exact ih
  | case5 arg next args other ih =>
    rw [arguments, if_neg other, ends_bind, danglers_cons, if_neg (fun both => other both.2)]
    exact ih

end Options

section Starts

def texts (tree : Tree) : List Bytes :=
  tree.sections.filterMap fun name => if isSlave name then (xaddrOf tree name).map cStr else none

structure Complete (tree : Tree) (argv : List Bytes) : Prop where
  options : danglers argv % 2 = 0
  logging : ∀ part ∈ SplitJoin.split (logconfig tree) 0x3A 0, Readable part
  device : (tree.string (ascii "port.device")).isSome = true
  usb : (tree.bool (ascii "port.usb")).isSome = true
  addrs : ∀ name ∈ tree.sections, isSlave name = true → (xaddrOf tree name).isSome = true

theorem xparse_ends (tree : Tree) (launch : Launch) :
    Ends (ofExcept (xparseConfig tree) : Starting Parsed) launch
      (fun parsed after => ((tree.string (ascii "port.device")).isSome = true ∧
        (tree.bool (ascii "port.usb")).isSome = true) ∧ xparseConfig tree = .ok parsed ∧ after = launch)
      (fun _ _ => ¬((tree.string (ascii "port.device")).isSome = true ∧
        (tree.bool (ascii "port.usb")).isSome = true)) := by
  unfold xparseConfig
  cases device : tree.string (ascii "port.device") with
  | none => exact fun both => Bool.false_ne_true both.1
  | some portname =>
    cases usb : tree.bool (ascii "port.usb") with
    | none => exact fun both => Bool.false_ne_true both.2
    | some usb => exact ⟨⟨rfl, rfl⟩, rfl, rfl⟩

def withSection (tree : Tree) (launch : Launch) (name : Bytes) : Launch :=
  if isSlave name then (xaddrOf tree name).elim launch (addAnnounced launch) else launch

theorem readSection_ends (tree : Tree) (name : Bytes) (launch : Launch) :
    Ends (readSection tree name) launch
      (fun _ after => (isSlave name = true → (xaddrOf tree name).isSome = true) ∧ after = withSection tree launch name)
      (fun _ _ => ¬(isSlave name = true → (xaddrOf tree name).isSome = true)) := by
  unfold readSection withSection
  cases slave : isSlave name with
  | false => exact ⟨fun other => absurd other Bool.false_ne_true, rfl⟩
  | true =>
    cases there : xaddrOf tree name with
    | none => exact fun needed => Bool.false_ne_true (needed rfl)
    | some xaddr => exact ⟨fun _ => rfl, rfl⟩

theorem sections_added (tree : Tree) (launch : Launch) :
    (tree.sections.foldl (withSection tree) launch).slaves = launch.slaves ++ (texts tree).map addSlave ∧
    (tree.sections.foldl (withSection tree) launch).published =
      launch.published ++ (texts tree).map fun text => Slave.declareOnline (addSlave text) false := by
  unfold texts
  induction tree.sections generalizing launch with
  | nil => exact ⟨(List.append_nil _).symm, (List.append_nil _).symm⟩
  | cons name names ih =>
    rw [List.foldl_cons, List.filterMap_cons, (ih _).1, (ih _).2, withSection]
    cases isSlave name with
    | false => exact ⟨rfl, rfl⟩
    | true =>
      cases xaddrOf tree name with
      | none => exact ⟨rfl, rfl⟩
      | some xaddr => exact ⟨List.append_assoc _ _ _, List.append_assoc _ _ _⟩

theorem parts_slaves (parts : List Bytes) (launch : Launch) :
    (parts.foldl withPart launch).slaves = launch.slaves ∧
      (parts.foldl withPart launch).published = launch.published := by
  induction parts generalizing launch with
  | nil => exact ⟨rfl, rfl⟩
  | cons part parts ih => exact ih (withPart launch part)

def processOf (parsed : Parsed) (memory : Int) (tree : Tree) : System Process WholeProcess.Action Note :=
  process parsed.settings parsed.config parsed.port parsed.port2 memory (texts tree)

/-- The thread starts where a run of the process does, and what `main` has published is the startup of the run. -/
structure Started (tree : Tree) (memory : Int) (p : Process) (launch : Launch) (parsed : Parsed) : Prop where
  parses : xparseConfig tree = .ok parsed
  start : p = (processOf parsed memory tree).start
  startup : (processOf parsed memory tree).startup =
    launch.published.zipIdx.map fun numbered => .slave (numbered.2, .published numbered.1)

theorem startup_published (config : SerialConfig) (texts : List Bytes) : (bus config texts).startup =
    (texts.map fun text => Slave.declareOnline (addSlave text) false).zipIdx.map fun numbered =>
      (numbered.2, .published numbered.1) := by
  rw [List.zipIdx_map, List.map_map]
  rfl

theorem main_ends (tree : Tree) (argv : List Bytes) (memory : Int) (short : SplitJoin.Short (logconfig tree)) :
    Ends (main tree argv memory) Launch.new
      (fun p launch => Complete tree argv ∧ ∃ parsed, Started tree memory p launch parsed)
      (fun _ _ => ¬Complete tree argv) := by
  unfold main
  rw [ends_bind]
  refine (arguments_ends argv Launch.new).mono ?_ (fun _ _ odd complete => odd complete.options)
  rintro _ _ ⟨options, rfl⟩
  rw [ends_bind]
  refine (ends_forM Readable withPart _ _ fun part member => readAppender_ends (parts_short short 0x3A part member)).mono
    ?_ ?_
  · rintro _ _ ⟨logging, rfl⟩
    rw [ends_bind]
    refine (xparse_ends tree _).mono ?_ (fun _ _ lacking complete => lacking ⟨complete.device, complete.usb⟩)
    rintro parsed _ ⟨⟨device, usb⟩, parses, rfl⟩
    rw [ends_bind]
    refine (ends_forM _ (withSection tree) _ _ fun name _ => readSection_ends tree name).mono ?_ ?_
    · rintro _ _ ⟨addrs, rfl⟩
      refine ⟨⟨options, logging, device, usb, addrs⟩, parsed, parses, ?_, ?_⟩
      · rw [(sections_added tree _).1, (parts_slaves _ _).1]
        rfl
      · show (bus parsed.config (texts tree)).startup.map Note.slave = _
        rw [(sections_added tree _).2, (parts_slaves _ _).2, startup_published, List.map_map]
        rfl
    · rintro _ _ ⟨name, member, lacking⟩ complete
      exact lacking (complete.addrs name member)
  · rintro _ _ ⟨part, member, unreadable⟩ complete
    exact unreadable (complete.logging part member)

/-- `main` gets to the poll thread exactly for complete configurations and command lines, and then the thread
starts where a run of the process does. -/
theorem main_starts (tree : Tree) (argv : List Bytes) (memory : Int) (short : SplitJoin.Short (logconfig tree)) :
    (Complete tree argv → ∃ p launch parsed, main tree argv memory Launch.new = .ok p launch ∧
      Started tree memory p launch parsed) ∧
    (¬Complete tree argv → ∃ failure launch, main tree argv memory Launch.new = .error failure launch) := by
  have ends := main_ends tree argv memory short
  cases run : main tree argv memory Launch.new with
  | ok p launch =>
    obtain ⟨complete, parsed, started⟩ := ends.of_ok run
    exact ⟨fun _ => ⟨p, launch, parsed, rfl, started⟩, fun lacking => absurd complete lacking⟩
  | error failure launch => exact ⟨fun complete => absurd complete (ends.of_error run), fun _ => ⟨failure, launch, rfl⟩⟩

def oneSlave (parity : Option Bytes) : Tree where
  sections := [ascii "logging", ascii "port", ascii "slave1"]
  string path :=
    if path = ascii "port.device" then some (ascii "a")
    else if path = ascii "slave1.addr" then some (ascii "5")
    else if path = ascii "logging.config" then some (ascii "console:file=log")
    else if path = ascii "port.parity" then parity
    else none
  int _ := none
  bool path := if path = ascii "port.usb" then some true else none

theorem main_starts_slave :
    (∃ p launch parsed, main (oneSlave none) [ascii "-b", ascii "9600"] 0 Launch.new = .ok p launch ∧
      Started (oneSlave none) 0 p launch parsed) ∧
    ∃ failure launch, main (oneSlave none) [ascii "-b"] 0 Launch.new = .error failure launch :=
  ⟨(main_starts (oneSlave none) [ascii "-b", ascii "9600"] 0 (by decide)).1
      ⟨by decide, by decide, by decide, by decide, by decide⟩,
    (main_starts (oneSlave none) [ascii "-b"] 0 (by decide)).2 fun complete => absurd complete.options (by decide)⟩

end Starts

section Opens

/-- The settings that `prepcom` takes, by what the configuration gives. What it does not give, or does not give as
a number, has a default that is taken; a number counts by its low byte, a text by its first character. -/
structure Usable (tree : Tree) : Prop where
  flow : ∀ text, tree.string (ascii "port.flow") = some text → flowKnown (firstChar text) = true
  parity : ∀ text, tree.string (ascii "port.parity") = some text → parityKnown (firstChar text) = true
  bits : ∀ value, tree.int (ascii "port.data") = some value → value % 256 = 7 ∨ value % 256 = 8
  stop : ∀ value, tree.int (ascii "port.stop") = some value → value % 256 = 1 ∨ value % 256 = 2
  baud : tree.int (ascii "port.baud") ≠ some 0

theorem getD_forall {α : Type} (taken : α → Prop) {default : α} (fallback : taken default) (given : Option α) :
    taken (given.getD default) ↔ ∀ value, given = some value → taken value := by
  cases given with
  | none => exact iff_of_true fallback (fun _ none => nomatch none)
  | some value => exact ⟨fun holds _ same => Option.some.inj same ▸ holds, fun all => all value rfl⟩

theorem char_eq (value : Int) (char : UInt8) : UInt8.ofInt value = char ↔ value % 256 = char.toNat := by
  have byte : (UInt8.ofInt value).toNat = (value % 256).toNat := by
    rw [UInt8.ofInt, UInt8.toNat_ofNat']
    omega
  rw [← UInt8.toNat_inj, byte]
  omega

theorem supported_iff {tree : Tree} {parsed : Parsed} (parses : xparseConfig tree = .ok parsed) :
    supported parsed.settings = true ∧ parsed.settings.baud ≠ 0 ↔ Usable tree := by
  have settings : parsed.settings.flow = firstChar ((tree.string (ascii "port.flow")).getD (ascii "N")) ∧
      parsed.settings.parity = firstChar ((tree.string (ascii "port.parity")).getD (ascii "N")) ∧
      parsed.settings.bits = UInt8.ofInt ((tree.int (ascii "port.data")).getD 8) ∧
      parsed.settings.stop = UInt8.ofInt ((tree.int (ascii "port.stop")).getD 1) ∧
      parsed.settings.baud = (tree.int (ascii "port.baud")).getD 57600 := by
    unfold xparseConfig at parses
    cases device : tree.string (ascii "port.device") with
    | none =>
      rw [device] at parses
      cases parses
    | some portname =>
      cases usb : tree.bool (ascii "port.usb") with
      | none =>
        rw [device, usb] at parses
        cases parses
      | some usb' =>
        rw [device, usb] at parses
        cases parses
        exact ⟨rfl, rfl, rfl, rfl, rfl⟩
  obtain ⟨flow, parity, bits, stop, baud⟩ := settings
  have flows := getD_forall (fun text => flowKnown (firstChar text) = true)
    (by decide : flowKnown (firstChar (ascii "N")) = true) (tree.string (ascii "port.flow"))
  have parities := getD_forall (fun text => parityKnown (firstChar text) = true)
    (by decide : parityKnown (firstChar (ascii "N")) = true) (tree.string (ascii "port.parity"))
  have sizes := getD_forall (fun value : Int => value % 256 = 7 ∨ value % 256 = 8)
    (by decide : (8 : Int) % 256 = 7 ∨ (8 : Int) % 256 = 8) (tree.int (ascii "port.data"))
  have stops := getD_forall (fun value : Int => value % 256 = 1 ∨ value % 256 = 2)
    (by decide : (1 : Int) % 256 = 1 ∨ (1 : Int) % 256 = 2) (tree.int (ascii "port.stop"))
  have rates := getD_forall (fun value : Int => value ≠ 0) (by decide : (57600 : Int) ≠ 0)
    (tree.int (ascii "port.baud"))
  simp only [supported, flow, parity, bits, stop, baud, Bool.and_eq_true, decide_eq_true_eq, char_eq]
  constructor
  · rintro ⟨⟨⟨⟨known_flow, known_parity⟩, size⟩, stop_bits⟩, rate⟩
    exact ⟨flows.mp known_flow, parities.mp known_parity, sizes.mp size, stops.mp stop_bits,
      fun zero => rates.mp rate 0 zero rfl⟩
  · rintro ⟨known_flow, known_parity, size, stop_bits, rate⟩
    exact ⟨⟨⟨⟨flows.mpr known_flow, parities.mpr known_parity⟩, sizes.mpr size⟩, stops.mpr stop_bits⟩,
      rates.mpr fun value given zero => rate (zero ▸ given)⟩

theorem prepcom_baud {settings : PortSettings} {device : Device} {port after : Port}
    (done : prepcom settings device port = .ok () after) : settings.baud ≠ 0 := by
  unfold prepcom at done
  obtain ⟨_, _, _, done⟩ := ok_of_bind done
  obtain ⟨_, _, _, done⟩ := ok_of_bind done
  obtain ⟨_, _, _, done⟩ := ok_of_bind done
  obtain ⟨_, _, _, done⟩ := ok_of_bind done
  obtain ⟨_, _, _, done⟩ := ok_of_bind done
  obtain ⟨_, _, _, done⟩ := ok_of_bind done
  obtain ⟨_, _, set, _⟩ := ok_of_bind done
  intro zero
  rw [setBaud, zero, if_neg (by decide)] at set
  cases read : device.getSerial with
  | none =>
    rw [read] at set
    cases set
  | some baudBase =>
    rw [read] at set
    obtain ⟨_, _, divided, _⟩ := ok_of_bind set
    cases divided

structure Working (device : Device) (port : Port) : Prop where
  opens : ∃ fd : Nat, device.opens = some fd ∧ (fd : Int) ∉ port.descriptors
  calls : (device.tcgetattr && device.setSerial && device.cfsetispeed && device.cfsetospeed && device.tcsetattr &&
    device.setRs485 && device.tcflush) = true
  base : ∃ baudBase, device.getSerial = some baudBase ∧ baudBase ≠ -2147483648

theorem prepcom_works {settings : PortSettings} {device : Device} {port : Port} (works : Working device port)
    (good : supported settings = true) (baud : settings.baud ≠ 0) :
    ∃ after, prepcom settings device port = .ok () after := by
  obtain ⟨⟨fd, opens, _⟩, calls, baudBase, base, lowest⟩ := works
  simp only [Bool.and_eq_true] at calls
  obtain ⟨⟨⟨⟨⟨⟨getattr, setSerial⟩, ispeed⟩, ospeed⟩, setattr⟩, rs485⟩, flush⟩ := calls
  simp only [supported, Bool.and_eq_true, decide_eq_true_eq] at good
  obtain ⟨⟨⟨flow, parity⟩, bits⟩, stop⟩ := good
  have ratio : divides baudBase settings.baud = true := by
    rw [divides, decide_eq_true_eq]
    exact ⟨baud, fun both => lowest both.1⟩
  have passes {passed : Bool} (message : String) (holds : passed = true) : ensure passed message = pure () := if_pos holds
  have rate : setBaud settings device = pure () := by
    rw [setBaud]
    split
    · rw [passes _ ispeed, passes _ ospeed]
      rfl
    · rw [base]
      dsimp only
      rw [if_pos ratio, passes _ setSerial]
  rw [prepcom, openPort, opens, passes _ getattr, passes _ flow, passes _ parity, passes _ (decide_eq_true bits),
    passes _ (decide_eq_true stop), rate, passes _ setattr, passes _ rs485, passes _ flush]
  cases settings.usb with
  | true => exact ⟨_, rfl⟩
  | false => exact ⟨_, rfl⟩

variable {settings : PortSettings} {name : Bytes} {name2 : Option Bytes} {p p' : Process} {history notes : List Note}
  {action : WholeProcess.Action}

/-- Where the port was never open, not a byte has gone out and no call has begun. -/
structure Shut (settings : PortSettings) (name : Bytes) (name2 : Option Bytes) (p : Process) (history : List Note) :
    Prop where
  turns : InTurn settings name name2 p history
  closed : p.run.stage ≠ .polling
  wire : p.run.port.protocol.wire = []
  quiet : ∀ tagged, .slave tagged ∈ history → inCall tagged.2 = false

theorem attempt_shut {device : Device} {s s' : BusRun} {events : List Prepcom.Event}
    (refused : ¬(supported settings = true ∧ settings.baud ≠ 0)) (attempt : Attempt settings device s s' events) :
    s'.stage ≠ .polling ∧ s'.port.protocol = s.port.protocol := by
  cases attempt with
  | opened done =>
    obtain ⟨_, _, accepted, _⟩ := prepcom_ok done
    exact absurd ⟨supported_of_accepts accepted, prepcom_baud done⟩ refused
  | again message thrown retries =>
    constructor
    · intro polling
      rw [polling] at retries
      cases retries
    · obtain ⟨_, same⟩ | ⟨_, _, _, same⟩ := prepcom_throws thrown
      · rw [same]
      · rw [same]
  | gone stop stopped not_thrown stage =>
    obtain ⟨_, _, _, same⟩ := prepcom_stops stopped not_thrown
    constructor
    · rw [stage]
      exact fun polling => nomatch polling
    · rw [same]

theorem step_shut (refused : ¬(supported settings = true ∧ settings.baud ≠ 0)) (shut : Shut settings name name2 p history)
    (stepped : WholeProcess.step settings p action = some (p', notes)) : Shut settings name name2 p' (history ++ notes) := by
  have turns := step_turns shut.turns stepped
  cases step_stepped stepped with
  | tried device run reports attempt =>
    obtain ⟨closed, same⟩ := attempt_shut refused (step_prepcom attempt).2
    refine ⟨turns, closed, same ▸ shut.wire, fun tagged member => ?_⟩
    rcases List.mem_append.mp member with earlier | now
    · exact shut.quiet tagged earlier
    · obtain ⟨_, _, other⟩ := List.mem_map.mp now
      cases other
  | polled t master events called run reports left => exact absurd (step_poll left).1 shut.closed
  | told topic payload alive master events worked =>
    refine ⟨turns, shut.closed, shut.wire, fun tagged member => ?_⟩
    rcases List.mem_append.mp member with earlier | now
    · exact shut.quiet tagged earlier
    · obtain ⟨_, inside, same⟩ := List.mem_map.mp now
      cases same
      exact told_quiet worked tagged inside

theorem start_shut (settings : PortSettings) (config : SerialConfig) (name : Bytes) (name2 : Option Bytes) (memory : Int)
    (texts : List Bytes) : Shut settings name name2 (process settings config name name2 memory texts).start
      (process settings config name name2 memory texts).startup where
  turns := process_turns .start
  closed := fun polling => nomatch polling
  wire := rfl
  quiet := by
    intro tagged member
    obtain ⟨_, startup, same⟩ := List.mem_map.mp member
    cases same
    obtain ⟨_, _, rfl⟩ := List.mem_map.mp startup
    rfl

theorem attempt_works {device : Device} (good : supported settings = true) (baud : settings.baud ≠ 0)
    (retrying : Stage.retrying p.run.stage = true) (works : Working device p.run.port) :
    ∃ p' notes, WholeProcess.step settings p (.prepcom device) = some (p', notes) ∧ p'.run.stage = .polling := by
  obtain ⟨after, done⟩ := prepcom_works works good baud
  obtain ⟨fd, opens, new⟩ := works.opens
  have fresh : device.fresh p.run.port = true := by
    rw [Device.fresh, opens]
    exact decide_eq_true new
  simp only [WholeProcess.step, Prepcom.step, if_pos fresh, done]
  cases stage : p.run.stage with
  | starting first => exact ⟨_, _, rfl, rfl⟩
  | recovering => exact ⟨_, _, rfl, rfl⟩
  | polling =>
    rw [stage] at retrying
    cases retrying
  | fault =>
    rw [stage] at retrying
    cases retrying

/-- Whether the port can be opened is up to the configuration: with a usable one, any attempt at a device that works
opens it, in every run and from wherever the loops stand; with any other no attempt ever does, and no frame goes
out. -/
theorem opened_if_usable (tree : Tree) (parsed : Parsed) (memory : Int) (parses : xparseConfig tree = .ok parsed) :
    (Usable tree → ∀ p history, Run (processOf parsed memory tree) free p history →
      Stage.retrying p.run.stage = true → ∀ device, Working device p.run.port →
      ∃ p' notes, (processOf parsed memory tree).step p (.prepcom device) = some (p', notes) ∧
        isOpen (history ++ notes) = true) ∧
    (¬Usable tree → ∀ p history, Run (processOf parsed memory tree) free p history →
      isOpen history = false ∧ p.run.port.protocol.wire = [] ∧
        ∀ tagged, .slave tagged ∈ history → inCall tagged.2 = false) := by
  constructor
  · intro usable p history run retrying device works
    obtain ⟨good, baud⟩ := (supported_iff parses).mpr usable
    obtain ⟨p', notes, stepped, polling⟩ := attempt_works good baud retrying works
    have turns := step_turns (process_turns run) stepped
    exact ⟨p', notes, stepped, turns.opened.mpr polling⟩
  · intro unusable p history run
    have refused : ¬(supported parsed.settings = true ∧ parsed.settings.baud ≠ 0) :=
      fun taken => unusable ((supported_iff parses).mp taken)
    have shut : Shut parsed.settings parsed.port parsed.port2 p history :=
      run.invariant (start_shut parsed.settings parsed.config parsed.port parsed.port2 memory (texts tree))
        fun _ _ _ _ _ _ shut _ stepped => step_shut refused shut stepped
    exact ⟨Bool.eq_false_iff.mpr fun standing => shut.closed (shut.turns.opened.mp standing), shut.wire, shut.quiet⟩

def parsedSlave (parity : UInt8) : Parsed := ⟨ascii "a", none, ⟨57600, parity, 8, 1, 0x4E, true⟩, ⟨0, 0, 100000, 300, 300⟩⟩

theorem opened_if_usable_slave :
    (∃ p notes, (processOf (parsedSlave 0x4E) 0 (oneSlave none)).step (processOf (parsedSlave 0x4E) 0 (oneSlave none)).start
        (.prepcom (working 3)) = some (p, notes) ∧
      isOpen ((processOf (parsedSlave 0x4E) 0 (oneSlave none)).startup ++ notes) = true) ∧
    ∃ p history, Run (processOf (parsedSlave 0x58) 0 (oneSlave (some (ascii "X")))) free p history ∧
      .port (.threw (ascii "a") "Unsupported parity setting" [3]) ∈ history ∧ isOpen history = false := by
  constructor
  · have no_flow : (oneSlave none).string (ascii "port.flow") = none := by decide
    have no_parity : (oneSlave none).string (ascii "port.parity") = none := by decide
    have usable : Usable (oneSlave none) := {
      flow := fun text given => nomatch no_flow.symm.trans given
      parity := fun text given => nomatch no_parity.symm.trans given
      bits := fun value given => nomatch given
      stop := fun value given => nomatch given
      baud := fun given => nomatch given }
    exact (opened_if_usable (oneSlave none) (parsedSlave 0x4E) 0 rfl).1 usable _ _ .start rfl (working 3)
      ⟨⟨3, rfl, by decide⟩, by decide, 115200, rfl, by decide⟩
  · have checked : (replay (processOf (parsedSlave 0x58) 0 (oneSlave (some (ascii "X")))) free
        (processOf (parsedSlave 0x58) 0 (oneSlave (some (ascii "X")))).start
        (processOf (parsedSlave 0x58) 0 (oneSlave (some (ascii "X")))).startup [.prepcom (working 3)]).any
          (fun reached => decide (.port (.threw (ascii "a") "Unsupported parity setting" [3]) ∈ reached.2)) = true := by
      decide +kernel
    obtain ⟨p, history, run, thrown⟩ := exists_run checked
    have unusable : ¬Usable (oneSlave (some (ascii "X"))) :=
      fun usable => absurd (usable.parity (ascii "X") rfl) (by decide)
    exact ⟨p, history, run, of_decide_eq_true thrown,
      ((opened_if_usable (oneSlave (some (ascii "X"))) (parsedSlave 0x58) 0 rfl).2 unusable p history run).1⟩

end Opens

end OsdpMaster.Startup
