import EScp.ControlChannel
import EScp.WriteError

/-!
# Errors of the receiver

Any thread of the receiver leaves its error in a ring.  The thread of the log takes the errors out
of the ring and, at a server, sends them to the other end between the messages of the main thread.
The sender goes through what arrives and exits with the first error that it meets.  At either end a
panic ends the whole program.
-/

namespace EScp
namespace ReceiverErrors

open ControlMessage (EscpFileList FlatBuffers fromHeader toHeader msgFileStat)
open Layout (bytesAt)
open LogRing (Channel Given catchUp msgCount msgSz readPtr slotBytes)
open MetaConnection (Ready metaSends doMeta)
open Network (NetworkObj)
open ReceiveFiles (FileInformation)
open Text (size fromUtf8 splitAt trim)
open WriteError (BoundedZstd Failure MessageBuffers Readable Site initializeClog isWhitespace
  msgKeepalive msgMessage parseError vrfy)

/-! ## The receiver -/

/-- The libraries of both ends. -/
structure Libraries where
  zstd : BoundedZstd
  flat : FlatBuffers
  messages : MessageBuffers

def msgSessionComplete : UInt16 := 1

/-- What the receiver hands to `meta_send`. -/
inductive Told where
  | keepalive
  | sessionComplete
  /-- `send_file_completions`. -/
  | completions (files : List FileInformation)
  /-- `send_file_error`. -/
  | fileError (fino : UInt64) (name errmsg : String) (errno : Int32)
  /-- `parse_error`. -/
  | error (message : WriteError.Message)

section Receiver

variable (lib : Libraries)

/-- The call of `meta_send`, unless `expect` panics. -/
def Told.send : Told → Option (List UInt8)
  | .keepalive => some (ControlMessage.metaSend [] (toHeader 0 msgKeepalive))
  | .sessionComplete => some (ControlMessage.metaSend [] (toHeader 0 msgSessionComplete))
  | .completions files =>
      (ControlMessage.Message.fileCompletions files).send lib.zstd.toZstd lib.flat
  | .fileError fino name errmsg errno =>
      (ControlMessage.Message.fileError fino name errmsg errno).send lib.zstd.toZstd lib.flat
  | .error message => message.send lib.zstd lib.messages

def Told.error? : Told → Option WriteError.Message
  | .error message => some message
  | _ => none

/-- Where the thread of the log looks next. -/
inductive Clog where
  | log
  | err

structure State where
  rings : LogRing.State Unit
  clog : Clog
  /-- A thread has panicked. -/
  aborted : Bool
  /-- What has been handed to `meta_send`, in the order of its lock. -/
  told : List Told

def State.errors (state : State) : List WriteError.Message := state.told.filterMap Told.error?

inductive Label where
  /-- A thread calls `dtn_log` or `dtn_error`. -/
  | log (channel : Channel) (msg : List UInt8)
  /-- The main thread tells the sender something. -/
  | tell (told : Told)
  /-- The thread of the log goes on. -/
  | clog

/-- What `dtn_log_getnext` and `dtn_err_getnext` return. -/
def found (args : Nat) (rings : LogRing.State Unit) (channel : Channel) : Option (List UInt8) :=
  let ring := rings.rings channel
  let head := ring.count.toInt64
  if ring.cursor () ≥ head then none
  else some (bytesAt rings.memory (readPtr args channel (catchUp head (ring.cursor ()))) msgSz)

/-- What `parse_error` makes of an error that `dtn_err_getnext` has returned. -/
def parse (ret : List UInt8) : Option WriteError.Message := (initializeClog ret).bind parseError

def State.tell (state : State) (told : Told) : State :=
  match told.send lib with
  | none => { state with aborted := true }
  | some _ => { state with told := state.told ++ [told] }

/-- `initialize_clog` with what `dtn_log_getnext` has returned. -/
def State.readLog (state : State) (ret : List UInt8) : State :=
  match initializeClog ret with
  | none => { state with aborted := true }
  | some _ => { state with clog := .log }

/-- `initialize_clog` with what `dtn_err_getnext` has returned. -/
def State.readErr (doServer : Bool) (state : State) (ret : List UInt8) : State :=
  match initializeClog ret with
  | none => { state with aborted := true }
  | some errmsg =>
      let state := { state with clog := .log }
      if doServer then
        match parseError errmsg with
        | none => { state with aborted := true }
        | some message => state.tell lib (.error message)
      else state

/-- A call of `dtn_log_getnext` or `dtn_err_getnext`, with what is done with its result. -/
def State.poll (args : Nat) (doServer : Bool) (state : State) : State :=
  match state.clog with
  | .log =>
      match found args state.rings .debug with
      | none => { state with clog := .err }
      | some ret =>
          { state with rings := state.rings.getnext args .debug () }.readLog ret
  | .err =>
      match found args state.rings .msg with
      | none => { state with clog := .log }
      | some ret =>
          { state with rings := state.rings.getnext args .msg () }.readErr lib doServer ret

def next (args : Nat) (doServer : Bool) (state : State) (label : Label) : Option State :=
  if state.aborted then none
  else
    match label with
    | .log channel msg => some { state with rings := state.rings.log args channel msg }
    | .tell told => if told.error?.isNone then some (state.tell lib told) else none
    | .clog => some (state.poll lib args doServer)

/-- A receiver whose log is on. -/
def machine (args : Nat) (doServer : Bool) : Machine State Label where
  initial state := ∃ memory, state = ⟨LogRing.State.init memory, .log, false, []⟩
  next := next lib args doServer

end Receiver

/-! ## The sender -/

/-- What the sender exits with. -/
inductive Exit where
  /-- The file number and the error of each message, if it has them. -/
  | message (codes : List (Option (UInt64 × Int32)))
  | file (file : ControlMessage.File)

/-- What the sender does with a message. -/
inductive Handled where
  | ignored
  | files (list : EscpFileList)
  | exit (exit : Exit)
  | panic

/-- The arrays of `handle_msg_from_receiver` before they are written, and what lies behind the
message in the ring. -/
structure Arrays where
  small : List UInt8
  large : List UInt8
  beyond : List UInt8
  small_length : small.length = 16384
  large_length : large.length = 131072

/-- The first entry that reports an error. -/
def firstError (list : EscpFileList) : Option ControlMessage.File :=
  list.files.find? fun file => 0 < file.errno

section Sender

variable (lib : Libraries)

/-- `handle_msg_from_receiver` up to the entries that it confirms. -/
def handle (arrays : Arrays) (image : MetaRing.Message) : Handled :=
  let memory := image.1 ++ image.2 ++ arrays.beyond
  let t := (fromHeader (memory.take 6)).2
  if t ≠ msgFileStat then
    if t = msgKeepalive then .ignored
    else if t &&& 0x1f = msgMessage then
      match WriteError.handleMsgFromReceiver lib.zstd lib.messages arrays.small memory with
      | none => .panic
      | some codes => .exit (.message codes)
    else .ignored
  else
    match ControlMessage.handleMsgFromReceiver lib.zstd.toZstd lib.flat arrays.large memory with
    | none => .panic
    | some list =>
        match firstError list with
        | none => .files list
        | some file =>
            if file.errmsg.isSome ∧ file.name.isSome then .exit (.file file) else .panic

/-- The lists that the sender has gone through, and what it has exited with. -/
structure Outcome where
  lists : List EscpFileList
  exit : Option Exit

/-- The sender goes through the messages up to an error; it fails when it panics. -/
def goThrough (arrays : Nat → Arrays) : List MetaRing.Message → Option Outcome
  | [] => some ⟨[], none⟩
  | image :: images =>
      match handle lib (arrays 0) image with
      | .ignored => goThrough (fun index => arrays (index + 1)) images
      | .files list =>
          (goThrough (fun index => arrays (index + 1)) images).map fun outcome =>
            { outcome with lists := list :: outcome.lists }
      | .exit exit => some ⟨[], some exit⟩
      | .panic => none

end Sender

/-! ## What the sender should do -/

/-- The message of files. -/
def Told.files? : Told → Option ControlMessage.Message
  | .completions files => some (.fileCompletions files)
  | .fileError fino name errmsg errno => some (.fileError fino name errmsg errno)
  | _ => none

/-- The error that the sender is told of. -/
def Told.exit? : Told → Option Exit
  | .fileError fino name errmsg errno =>
      if 0 < errno then
        some (.file { fino := fino, name := some name, errmsg := some errmsg, errno := errno })
      else none
  | .error message => some (.message message.codes.toList)
  | _ => none

/-- The messages are gone through up to the first error. -/
def outcome (told : List Told) : Outcome where
  lists := ((told.takeWhile fun told => told.exit?.isNone).filterMap Told.files?).map
    ControlMessage.Message.table
  exit := told.findSome? Told.exit?

/-! ## The log ring -/

section Rings

variable {args : Nat} {rings : LogRing.State Unit} {channel : Channel} {ret : List UInt8}

theorem log_returned (msg : List UInt8) (other : Channel) :
    ((rings.log args channel msg).rings other).returned = (rings.rings other).returned := by
  rcases eq_or_ne other channel with rfl | apart
  · simp only [LogRing.State.log, Function.update_self]
    rfl
  · simp only [LogRing.State.log, Function.update_of_ne apart]

/-- A call that returns nothing changes nothing. -/
theorem getnext_of_none (nothing : found args rings channel = none) :
    rings.getnext args channel () = rings := by
  simp only [found, ite_eq_left_iff, reduceCtorEq, imp_false, not_not] at nothing
  rw [LogRing.State.getnext, if_pos nothing]

theorem getnext_of_some (taken : found args rings channel = some ret) :
    ¬(rings.rings channel).cursor () ≥ (rings.rings channel).count.toInt64 ∧
      rings.getnext args channel () =
        { rings with
          rings := Function.update rings.rings channel ((rings.rings channel).give ()
            (catchUp (rings.rings channel).count.toInt64 ((rings.rings channel).cursor ())) ret) }
    := by
  simp only [found] at taken
  split at taken
  · cases taken
  · rename_i behind
    obtain rfl := Option.some.inj taken
    exact ⟨behind, if_neg behind⟩

theorem length_of_found (taken : found args rings channel = some ret) : ret.length = msgSz := by
  simp only [found] at taken
  split at taken
  · cases taken
  · obtain rfl := Option.some.inj taken
    exact Layout.length_bytesAt _ _ _

theorem getnext_returned (taken : found args rings channel = some ret) :
    ((rings.getnext args channel ()).rings channel).returned () =
      (rings.rings channel).returned () ++ [ret] := by
  rw [(getnext_of_some taken).2]
  simp [LogRing.Ring.give]

theorem getnext_of_ne {other : Channel} (apart : other ≠ channel) :
    (rings.getnext args channel ()).rings other = rings.rings other := by
  cases taken : found args rings channel with
  | none => rw [getnext_of_none taken]
  | some ret =>
      rw [(getnext_of_some taken).2]
      exact Function.update_of_ne apart _ _

theorem getnext_messages (other : Channel) :
    ((rings.getnext args channel ()).rings other).messages = (rings.rings other).messages := by
  rcases eq_or_ne other channel with rfl | apart
  · cases taken : found args rings other with
    | none => rw [getnext_of_none taken]
    | some ret =>
        rw [(getnext_of_some taken).2]
        simp [LogRing.Ring.give]
  · rw [getnext_of_ne apart]

end Rings

/-! ## What a poll does -/

/-- The ring that the thread of the log looks at. -/
def Clog.channel : Clog → Channel
  | .log => .debug
  | .err => .msg

section Polls

variable (lib : Libraries) (args : Nat) (doServer : Bool)

/-- What one call of `dtn_log_getnext` or `dtn_err_getnext` leads to. -/
inductive Polls (state : State) : State → Prop
  | idle (clog : Clog) : found args state.rings state.clog.channel = none →
      clog.channel ≠ state.clog.channel → Polls state { state with clog := clog }
  | abort (clog : Clog) (ret : List UInt8) :
      found args state.rings state.clog.channel = some ret →
      Polls state { state with
        rings := state.rings.getnext args state.clog.channel (), clog := clog, aborted := true }
  | log (ret : List UInt8) : state.clog = .log → found args state.rings .debug = some ret →
      Polls state { state with rings := state.rings.getnext args .debug (), clog := .log }
  | silent (ret : List UInt8) : state.clog = .err → found args state.rings .msg = some ret →
      doServer = false →
      Polls state { state with rings := state.rings.getnext args .msg (), clog := .log }
  | error (ret : List UInt8) (message : WriteError.Message) :
      state.clog = .err → found args state.rings .msg = some ret → doServer = true →
      parse ret = some message → ((Told.error message).send lib).isSome →
      Polls state { state with
        rings := state.rings.getnext args .msg (), clog := .log
        told := state.told ++ [.error message] }

theorem polls (state : State) : Polls lib args doServer state (state.poll lib args doServer) := by
  obtain ⟨rings, clog, aborted, told⟩ := state
  cases clog with
  | log =>
      simp only [State.poll]
      cases taken : found args rings .debug with
      | none => exact .idle .err taken Channel.noConfusion
      | some ret =>
          dsimp only [State.readLog]
          cases shown : initializeClog ret with
          | none => exact .abort _ ret taken
          | some errmsg => exact .log ret rfl taken
  | err =>
      simp only [State.poll]
      cases taken : found args rings .msg with
      | none => exact .idle .log taken Channel.noConfusion
      | some ret =>
          dsimp only [State.readErr]
          cases shown : initializeClog ret with
          | none => exact .abort _ ret taken
          | some errmsg =>
              cases server : doServer with
              | false => exact .silent ret rfl taken rfl
              | true =>
                  simp only [if_true]
                  cases parsed : parseError errmsg with
                  | none => exact .abort _ ret taken
                  | some message =>
                      have whole : parse ret = some message := by
                        rw [parse, shown, Option.bind_some, parsed]
                      simp only [State.tell]
                      cases sent : (Told.error message).send lib with
                      | none => exact .abort _ ret taken
                      | some frame =>
                          exact .error ret message rfl taken rfl whole (by rw [sent]; rfl)

end Polls

/-! ## What is sent -/

/-- A message of `parse_error`, with its two codes. -/
def Sendable (message : WriteError.Message) : Prop :=
  ∃ text fino, ∃ errno : Int32,
    message = ⟨true, some [Int32.toInt64 fino, errno.toInt64], some text⟩ ∧ size text ≤ 1024

theorem size_of_fromUtf8 {bytes : List UInt8} {text : List Char}
    (read : fromUtf8 bytes = some text) : size text = bytes.length := by
  rw [← Text.length_toUtf8, Text.toUtf8_of_fromUtf8 read]

theorem size_le_of_initializeClog {ret : List UInt8} {errmsg : List Char}
    (shown : initializeClog ret = some errmsg) : size errmsg ≤ max ret.length 22 := by
  obtain ⟨parts, cut, rfl⟩ := Option.map_eq_some_iff.mp shown
  have kept := Text.size_le_of_splitAt cut
  have trimmed := Text.size_trim_le isWhitespace
    ((fromUtf8 (ret.takeWhile fun byte => byte ≠ 0)).getD "Error decoding message".toList)
  have decoded : size ((fromUtf8 (ret.takeWhile fun byte => byte ≠ 0)).getD
      "Error decoding message".toList) ≤ max ret.length 22 := by
    cases read : fromUtf8 (ret.takeWhile fun byte => byte ≠ 0) with
    | none => exact le_max_right _ _
    | some text =>
        rw [Option.getD_some, size_of_fromUtf8 read]
        exact (List.takeWhile_prefix _).length_le.trans (le_max_left _ _)
  omega

theorem sendable_of_parse {ret : List UInt8} {message : WriteError.Message}
    (short : ret.length = msgSz) (parsed : parse ret = some message) : Sendable message := by
  obtain ⟨errmsg, shown, parsed⟩ := Option.bind_eq_some_iff.mp parsed
  rw [parseError] at parsed
  obtain ⟨errno, -, parsed⟩ := Option.bind_eq_some_iff.mp parsed
  obtain ⟨fino, -, parsed⟩ := Option.bind_eq_some_iff.mp parsed
  obtain ⟨parts, cut, rfl⟩ := Option.map_eq_some_iff.mp parsed
  have bound := size_le_of_initializeClog shown
  have kept := Text.size_le_of_splitAt cut
  have slot : msgSz = 128 := rfl
  exact ⟨parts.2, fino.2, errno.2, rfl, by omega⟩

/-! ## Invariants -/

/-- The errors that have been taken out of the ring were sent, but for one that has made the
receiver panic. -/
def State.Answered (state : State) : Prop :=
  ∃ before last, (state.rings.rings .msg).returned () = before ++ last ∧
    before.map parse = state.errors.map some ∧ last.length ≤ 1 ∧
      (state.aborted = false → last = [])

structure Inv (lib : Libraries) (args : Nat) (doServer : Bool) (state : State) : Prop where
  rings : (LogRing.machine args Unit).Reached state.rings
  called : ∀ told ∈ state.told, (told.send lib).isSome
  sendable : ∀ message, .error message ∈ state.told → Sendable message
  silent : doServer = false → state.errors = []
  answered : doServer = true → state.Answered

section Invariants

variable {lib : Libraries} {args : Nat} {doServer : Bool} {state after : State}

theorem reached_getnext {rings : LogRing.State Unit}
    (reached : (LogRing.machine args Unit).Reached rings) (channel : Channel) :
    (LogRing.machine args Unit).Reached (rings.getnext args channel ()) :=
  @Machine.ReachedUnder.step _ _ (LogRing.machine args Unit) _ _ _ (.getnext channel ()) reached
    trivial rfl

theorem Inv.init (memory : Layout.Memory) :
    Inv lib args doServer ⟨LogRing.State.init memory, .log, false, []⟩ where
  rings := .start ⟨memory, rfl⟩
  called := by simp
  sendable := by simp
  silent _ := rfl
  answered _ := ⟨[], [], rfl, rfl, Nat.zero_le 1, fun _ => rfl⟩

theorem Inv.log (inv : Inv lib args doServer state) (channel : Channel) (msg : List UInt8) :
    Inv lib args doServer { state with rings := state.rings.log args channel msg } where
  rings := @Machine.ReachedUnder.step _ _ (LogRing.machine args Unit) _ _ _ (.log channel msg)
    inv.rings trivial rfl
  called := inv.called
  sendable := inv.sendable
  silent := inv.silent
  answered server := by
    obtain ⟨before, last, returned, rest⟩ := inv.answered server
    exact ⟨before, last, by rw [log_returned, returned], rest⟩

theorem Inv.tell (inv : Inv lib args doServer state) (running : state.aborted = false)
    {told : Told} (own : told.error? = none) : Inv lib args doServer (state.tell lib told) := by
  rw [State.tell]
  cases sent : told.send lib with
  | none =>
      refine ⟨inv.rings, inv.called, inv.sendable, inv.silent, fun server => ?_⟩
      obtain ⟨before, last, returned, parsed, short, all⟩ := inv.answered server
      exact ⟨before, last, returned, parsed, short, fun _ => all running⟩
  | some frame =>
      have errors_eq : State.errors { state with told := state.told ++ [told] } =
          state.errors := by
        simp [State.errors, own]
      refine ⟨inv.rings, ?_, ?_, ?_, ?_⟩
      · intro other mem
        rcases List.mem_append.mp mem with earlier | last
        · exact inv.called other earlier
        · rw [List.mem_singleton.mp last, sent]
          rfl
      · intro message mem
        rcases List.mem_append.mp mem with earlier | last
        · exact inv.sendable message earlier
        · rw [← List.mem_singleton.mp last] at own
          cases own
      · rw [errors_eq]
        exact inv.silent
      · intro server
        obtain ⟨before, last, returned, parsed, rest⟩ := inv.answered server
        exact ⟨before, last, returned, by rw [errors_eq, parsed], rest⟩

/-- Reading the log is not reading an error. -/
theorem State.Answered.of_debug (answered : state.Answered) (clog : Clog) (aborted : Bool)
    (running : state.aborted = false) :
    State.Answered ⟨state.rings.getnext args .debug (), clog, aborted, state.told⟩ := by
  obtain ⟨before, last, returned, parsed, short, all⟩ := answered
  refine ⟨before, last, ?_, parsed, short, fun _ => all running⟩
  rw [getnext_of_ne Channel.noConfusion, returned]

/-- An error is taken out of the ring. -/
theorem State.Answered.read (answered : state.Answered) (running : state.aborted = false)
    {ret : List UInt8} (taken : found args state.rings .msg = some ret) :
    ∃ before, before.map parse = state.errors.map some ∧
      ((state.rings.getnext args .msg ()).rings .msg).returned () = before ++ [ret] := by
  obtain ⟨before, last, returned, parsed, -, all⟩ := answered
  rw [all running, List.append_nil] at returned
  exact ⟨before, parsed, (getnext_returned taken).trans (congrArg (· ++ [ret]) returned)⟩

theorem Inv.poll (inv : Inv lib args doServer state) (running : state.aborted = false) :
    Inv lib args doServer (state.poll lib args doServer) := by
  have polled := polls lib args doServer state
  generalize state.poll lib args doServer = after at polled
  cases polled with
  | idle clog nothing other =>
      exact ⟨inv.rings, inv.called, inv.sendable, inv.silent, inv.answered⟩
  | abort clog ret taken =>
      refine ⟨reached_getnext inv.rings _, inv.called, inv.sendable, inv.silent, fun server => ?_⟩
      have answered := inv.answered server
      cases place : state.clog with
      | log => exact answered.of_debug clog true running
      | err =>
          rw [place] at taken
          obtain ⟨before, parsed, returned⟩ := answered.read running taken
          exact ⟨before, [ret], returned, parsed, le_rfl, Bool.noConfusion⟩
  | log ret place taken =>
      exact ⟨reached_getnext inv.rings _, inv.called, inv.sendable, inv.silent, fun server =>
        (inv.answered server).of_debug .log state.aborted running⟩
  | silent ret place taken client =>
      refine ⟨reached_getnext inv.rings _, inv.called, inv.sendable, inv.silent, fun server => ?_⟩
      rw [client] at server
      cases server
  | error ret message place taken server parsed sent =>
      have errors_eq : State.errors ⟨state.rings.getnext args .msg (), .log, state.aborted,
          state.told ++ [.error message]⟩ = state.errors ++ [message] := by
        simp [State.errors, Told.error?]
      refine ⟨reached_getnext inv.rings _, ?_, ?_, ?_, fun _ => ?_⟩
      · intro other mem
        rcases List.mem_append.mp mem with earlier | last
        · exact inv.called other earlier
        · rwa [List.mem_singleton.mp last]
      · intro other mem
        rcases List.mem_append.mp mem with earlier | last
        · exact inv.sendable other earlier
        · obtain rfl := Told.error.inj (List.mem_singleton.mp last)
          exact sendable_of_parse (length_of_found taken) parsed
      · intro client
        rw [client] at server
        cases server
      · obtain ⟨before, parsed_before, returned⟩ := (inv.answered server).read running taken
        refine ⟨before ++ [ret], [], ?_, ?_, Nat.zero_le 1, fun _ => rfl⟩
        · rw [List.append_nil]
          exact returned
        · rw [errors_eq, List.map_append, List.map_append, parsed_before]
          exact congrArg _ (by rw [List.map_singleton, parsed, List.map_singleton])

theorem running_of_next {label : Label} (taken : next lib args doServer state label = some after) :
    state.aborted = false := by
  by_contra aborted
  rw [Bool.not_eq_false] at aborted
  simp [next, aborted] at taken

theorem inv_reached (reached : (machine lib args doServer).Reached state) :
    Inv lib args doServer state := by
  refine reached.invariant (Inv lib args doServer) ?_ ?_
  · rintro _ ⟨memory, rfl⟩
    exact Inv.init memory
  · intro before label after inv _ taken
    have running : before.aborted = false := running_of_next taken
    simp only [machine, next] at taken
    rw [if_neg (by simp [running])] at taken
    cases label with
    | log channel msg =>
        obtain rfl := Option.some.inj taken
        exact inv.log channel msg
    | tell told =>
        dsimp only at taken
        split at taken
        · obtain rfl := Option.some.inj taken
          exact inv.tell running (Option.isNone_iff_eq_none.mp ‹_›)
        · cases taken
    | clog =>
        obtain rfl := Option.some.inj taken
        exact inv.poll running

end Invariants

/-! ## Everything is read -/

/-- Nothing is left in the rings. -/
def State.AllRead (args : Nat) (state : State) : Prop :=
  ∀ channel, found args state.rings channel = none

/-- The messages of a ring that have not been read. -/
def unread (rings : LogRing.State Unit) (channel : Channel) : Nat :=
  (rings.rings channel).messages.length - ((rings.rings channel).cursor ()).toInt.toNat

def State.Few (state : State) : Prop :=
  ∀ channel, (state.rings.rings channel).messages.length ≤ 2 ^ 31 + 1

section Progress

variable {lib : Libraries} {args : Nat} {doServer : Bool} {state after : State}

/-- What is read is no longer to be read. -/
theorem unread_getnext {rings : LogRing.State Unit} {channel : Channel} {ret : List UInt8}
    (reached : (LogRing.machine args Unit).Reached rings)
    (few : ∀ channel, (rings.rings channel).messages.length ≤ 2 ^ 31 + 1)
    (taken : found args rings channel = some ret) :
    unread (rings.getnext args channel ()) channel < unread rings channel := by
  have inv := LogRing.inv_reached reached
  have counted := inv.counted channel
  have bound := few channel
  have follows := (inv.kept few channel).follows ()
  have head := counted.head (by omega)
  obtain ⟨behind, next_eq⟩ := getnext_of_some taken
  have low := follows.low
  have high := follows.high
  rw [ge_iff_le, Int64.le_iff_toInt_le, head] at behind
  have caught := LogRing.catchUp_toInt low (by rw [head]; exact high)
  rw [head] at caught
  have one : (1 : Int64).toInt = 1 := rfl
  have moved : (catchUp (rings.rings channel).count.toInt64 ((rings.rings channel).cursor ()) +
      1).toInt = max ((rings.rings channel).cursor ()).toInt
        ((rings.rings channel).messages.length - 16384) + 1 := by
    rw [Int64.toInt_add, one, caught]
    exact Int.bmod_eq_of_le (by omega) (by omega)
  have cursor_eq : ((rings.getnext args channel ()).rings channel).cursor () =
      catchUp (rings.rings channel).count.toInt64 ((rings.rings channel).cursor ()) + 1 := by
    rw [next_eq]
    simp [LogRing.Ring.give]
  rw [unread, unread, cursor_eq, moved, getnext_messages]
  omega

theorem poll_step (running : state.aborted = false) :
    (machine lib args doServer).PathBy (fun label => label = .clog) state
      (state.poll lib args doServer) := by
  refine Machine.PathBy.single .clog rfl ?_
  simp [machine, next, running]

/-- What a look at a ring with a message leads to. -/
theorem poll_of_found {ret : List UInt8}
    (taken : found args state.rings state.clog.channel = some ret) :
    (state.poll lib args doServer).rings =
      state.rings.getnext args state.clog.channel () := by
  have polled := polls lib args doServer state
  generalize state.poll lib args doServer = after at polled
  cases polled with
  | idle clog nothing => rw [taken] at nothing; cases nothing
  | abort => rfl
  | log ret place | silent ret place | error ret message place => rw [place]; rfl

theorem poll_of_none (nothing : found args state.rings state.clog.channel = none) :
    ∃ clog : Clog, clog.channel ≠ state.clog.channel ∧
      state.poll lib args doServer = { state with clog := clog } := by
  have polled := polls lib args doServer state
  generalize state.poll lib args doServer = after at polled
  cases polled with
  | idle clog nothing other => exact ⟨clog, other, rfl⟩
  | abort clog ret taken => rw [nothing] at taken; cases taken
  | log ret place taken | silent ret place taken | error ret message place taken =>
      rw [place] at nothing
      rw [Clog.channel, taken] at nothing
      cases nothing

theorem other_channel {channel other third : Channel} (apart : other ≠ channel)
    (third_apart : third ≠ channel) : third = other := by
  cases channel <;> cases other <;> cases third <;> trivial

/-- As long as something is left, the thread of the log reads something. -/
theorem reads_next (running : state.aborted = false) (left : ¬state.AllRead args) :
    ∃ middle channel ret,
      (machine lib args doServer).PathBy (fun label => label = .clog) state middle ∧
        found args state.rings channel = some ret ∧
          middle.rings = state.rings.getnext args channel () := by
  cases taken : found args state.rings state.clog.channel with
  | some ret => exact ⟨_, _, ret, poll_step running, taken, poll_of_found taken⟩
  | none =>
      obtain ⟨clog, apart, polled⟩ := @poll_of_none lib args doServer state taken
      obtain ⟨channel, some_left⟩ := not_forall.mp left
      obtain ⟨ret, taken_other⟩ := Option.ne_none_iff_exists'.mp some_left
      have third_apart : channel ≠ state.clog.channel := by
        rintro rfl
        rw [taken] at taken_other
        cases taken_other
      obtain rfl := other_channel apart third_apart
      have first := @poll_step lib args doServer state running
      rw [polled] at first
      have second := @poll_step lib args doServer { state with clog := clog } running
      exact ⟨_, _, ret, first.trans second, taken_other, poll_of_found taken_other⟩

theorem unread_other {rings : LogRing.State Unit} {channel other : Channel}
    (apart : other ≠ channel) :
    unread (rings.getnext args channel ()) other = unread rings other := by
  rw [unread, unread, getnext_of_ne apart]

/-- By itself, the thread of the log reads everything or panics. -/
theorem reads_all (reached : (machine lib args doServer).Reached state) (few : state.Few)
    (running : state.aborted = false) :
    ∃ after, (machine lib args doServer).PathBy (fun label => label = .clog) state after ∧
      (after.aborted = true ∨ after.AllRead args) := by
  obtain ⟨total, total_eq⟩ : ∃ total, total = unread state.rings .debug + unread state.rings .msg :=
    ⟨_, rfl⟩
  induction total using Nat.strong_induction_on generalizing state with
  | _ total ih =>
      by_cases left : state.AllRead args
      · exact ⟨state, .refl, .inr left⟩
      · obtain ⟨middle, channel, ret, path, taken, rings_eq⟩ :=
          @reads_next lib args doServer state running left
        have reached_middle := path.reached reached
        cases aborted : middle.aborted with
        | true => exact ⟨middle, path, .inl aborted⟩
        | false =>
            have fewer := unread_getnext (inv_reached reached).rings few taken
            have few_middle : middle.Few := by
              intro other
              rw [rings_eq, getnext_messages]
              exact few other
            have less : unread middle.rings .debug + unread middle.rings .msg < total := by
              rw [rings_eq, total_eq]
              cases channel with
              | debug =>
                  rw [unread_other (show Channel.msg ≠ .debug by decide)]
                  exact Nat.add_lt_add_right fewer _
              | msg =>
                  rw [unread_other (show Channel.debug ≠ .msg by decide)]
                  exact Nat.add_lt_add_left fewer _
            obtain ⟨after, rest, ended⟩ := ih _ less reached_middle few_middle aborted rfl
            exact ⟨after, path.trans rest, ended⟩

end Progress

/-! ## The sender learns of it -/

section Learning

variable (lib : Libraries)

/-- A message is sent by this call of `meta_send`. -/
def Calls (told : Told) (call : MetaConnection.Message) : Prop :=
  told.send lib = some (call.head ++ call.buf)

/-- A list of files fits the arrays of both ends. -/
def Told.Fits (told : Told) : Prop :=
  ∀ message, told.files? = some message → ControlMessage.Fits lib.zstd.toZstd lib.flat message

/-- What the sender should do with a message. -/
def Told.handled (told : Told) : Handled :=
  match told.exit?, told.files? with
  | some exit, _ => .exit exit
  | none, some message => .files message.table
  | none, none => .ignored

variable {lib} {told : Told} {call : MetaConnection.Message}

theorem exists_call {frame : List UInt8} (sent : told.send lib = some frame) :
    ∃ call : MetaConnection.Message, frame = call.head ++ call.buf ∧
      call.typ ≠ MetaConnection.byeType ∧ call.buf.length ≤ 1024 * 1024 := by
  cases told with
  | keepalive =>
      obtain rfl := Option.some.inj sent
      exact ⟨⟨msgKeepalive, []⟩, rfl, by decide, by decide⟩
  | sessionComplete =>
      obtain rfl := Option.some.inj sent
      exact ⟨⟨msgSessionComplete, []⟩, rfl, by decide, by decide⟩
  | completions files =>
      have list_sent : (ControlMessage.Message.fileCompletions files).send lib.zstd.toZstd
        lib.flat = some frame := sent
      exact ControlChannel.exists_call list_sent
  | fileError fino name errmsg errno =>
      have list_sent : (ControlMessage.Message.fileError fino name errmsg errno).send
        lib.zstd.toZstd lib.flat = some frame := sent
      exact ControlChannel.exists_call list_sent
  | error message =>
      obtain ⟨dst, packed, rfl⟩ := Option.map_eq_some_iff.mp sent
      have bounded := lib.zstd.length_compress _ _ _ packed
      have plain : msgMessage ||| ControlMessage.msgCompressed ≠ MetaConnection.byeType := by decide
      refine ⟨⟨msgMessage ||| ControlMessage.msgCompressed, dst⟩,
        (MetaConnection.head_append_buf ⟨_, dst⟩).symm, plain, ?_⟩
      dsimp only
      omega

theorem Calls.bounds (calls : Calls lib told call) :
    call.typ ≠ MetaConnection.byeType ∧ call.buf.length ≤ 1024 * 1024 := by
  obtain ⟨other, same, bounds⟩ := exists_call calls
  rw [ControlChannel.eq_of_image same]
  exact bounds

/-- The type of a message with a compressed buffer. -/
theorem typ_of_sendCompressed {room : Nat} {typ : UInt16} {buf frame : List UInt8}
    (limit : room ≤ 100000)
    (sent : ControlMessage.sendCompressed lib.zstd.toZstd room typ buf = some frame)
    (beyond : List UInt8) : (fromHeader ((frame ++ beyond).take 6)).2 = typ := by
  obtain ⟨dst, packed, rfl⟩ := Option.map_eq_some_iff.mp sent
  have bounded := lib.zstd.length_compress _ _ _ packed
  rw [(ControlMessage.read_metaSend dst typ beyond (by omega)).1]

/-- A message without a body is passed over. -/
theorem handle_of_bare {typ : UInt16} (other : typ ≠ msgFileStat)
    (plain : typ = msgKeepalive ∨ typ &&& 0x1f ≠ msgMessage) (arrays : Arrays)
    {image : MetaRing.Message}
    (same : image.1 ++ image.2 = ControlMessage.metaSend [] (toHeader 0 typ)) :
    handle lib arrays image = .ignored := by
  have header : (fromHeader ((image.1 ++ image.2 ++ arrays.beyond).take 6)).2 = typ := by
    rw [same]
    exact congrArg Prod.snd (ControlMessage.read_metaSend [] typ arrays.beyond (by decide)).1
  simp only [handle, header]
  rw [if_pos other]
  rcases plain with keepalive | plain
  · rw [if_pos keepalive]
  · rw [if_neg plain, ite_self]

/-- The sender looks for an error in a list of files. -/
theorem handle_of_files {message : ControlMessage.Message} {frame : List UInt8}
    (sent : message.send lib.zstd.toZstd lib.flat = some frame)
    (packed : message.send lib.zstd.toZstd lib.flat = ControlMessage.sendCompressed lib.zstd.toZstd
      message.room msgFileStat (lib.flat.finishedData message.table))
    (receives : ∀ dst memory, message.receive lib.zstd.toZstd lib.flat dst memory =
      ControlMessage.handleMsgFromReceiver lib.zstd.toZstd lib.flat dst memory)
    (fits : ControlMessage.Fits lib.zstd.toZstd lib.flat message) (arrays : Arrays)
    (image : MetaRing.Message) (same : image.1 ++ image.2 = frame) :
    handle lib arrays image =
      match firstError message.table with
      | none => .files message.table
      | some file =>
          if file.errmsg.isSome ∧ file.name.isSome then .exit (.file file) else .panic := by
  obtain ⟨other, other_sent, read⟩ := ControlMessage.delivered_of_fits fits
  obtain rfl := Option.some.inj (sent.symm.trans other_sent)
  have header := typ_of_sendCompressed message.room_le (packed ▸ sent) arrays.beyond
  have read_here := read arrays.large arrays.beyond arrays.large_length
  rw [receives] at read_here
  simp only [handle, same, header, ne_eq, not_true_eq_false, if_false, read_here]

theorem firstError_completions (files : List FileInformation) :
    firstError (ControlMessage.Message.fileCompletions files).table = none := by
  rw [firstError, List.find?_eq_none]
  intro file mem
  obtain ⟨fi, -, rfl⟩ := List.mem_map.mp mem
  simp

/-- What has been sent is handled as it should. -/
theorem handle_of_calls (calls : Calls lib told call) (fits : told.Fits lib)
    (sendable : ∀ message, told = .error message → Sendable message) (arrays : Arrays) :
    handle lib arrays (ControlChannel.imageOf call) = told.handled := by
  cases told with
  | keepalive =>
      exact handle_of_bare (by decide) (.inl rfl) arrays (Option.some.inj calls).symm
  | sessionComplete =>
      exact handle_of_bare (by decide) (.inr (by decide)) arrays (Option.some.inj calls).symm
  | completions files =>
      have sent : (ControlMessage.Message.fileCompletions files).send lib.zstd.toZstd lib.flat =
        some (call.head ++ call.buf) := calls
      rw [handle_of_files sent rfl (fun _ _ => rfl) (fits _ rfl) arrays
        (ControlChannel.imageOf call) rfl, firstError_completions]
      rfl
  | fileError fino name errmsg errno =>
      have sent : (ControlMessage.Message.fileError fino name errmsg errno).send lib.zstd.toZstd
        lib.flat = some (call.head ++ call.buf) := calls
      rw [handle_of_files sent rfl (fun _ _ => rfl) (fits _ rfl) arrays
        (ControlChannel.imageOf call) rfl]
      by_cases positive : 0 < errno
      · simp [firstError, ControlMessage.Message.table, Told.handled, Told.exit?, positive]
      · simp [firstError, ControlMessage.Message.table, Told.handled, Told.exit?, Told.files?,
          positive]
  | error message =>
      obtain ⟨text, fino, errno, rfl, short⟩ := sendable message rfl
      obtain ⟨frame, sent, read⟩ := @WriteError.exists_frame lib.zstd lib.messages text
        fino.toInt64 errno.toInt64 short
      have frame_eq : frame = call.head ++ call.buf := Option.some.inj (sent.symm.trans calls)
      have header := typ_of_sendCompressed (by decide) sent arrays.beyond
      have read_here := read arrays.small arrays.beyond arrays.small_length
      rw [frame_eq] at header read_here
      have other : msgMessage ||| ControlMessage.msgCompressed ≠ msgFileStat := by decide
      have not_keepalive : msgMessage ||| ControlMessage.msgCompressed ≠ msgKeepalive := by decide
      have typ : (msgMessage ||| ControlMessage.msgCompressed) &&& 0x1f = msgMessage := by decide
      simp only [handle, ControlChannel.imageOf, header, if_pos other, if_neg not_keepalive,
        if_pos typ, read_here]
      rfl

theorem outcome_of_exit {exit : Exit} (exits : told.exit? = some exit) (rest : List Told) :
    outcome (told :: rest) = ⟨[], some exit⟩ := by
  simp [outcome, exits]

theorem outcome_of_files {message : ControlMessage.Message} (stays : told.exit? = none)
    (lists : told.files? = some message) (rest : List Told) :
    outcome (told :: rest) =
      { outcome rest with lists := message.table :: (outcome rest).lists } := by
  simp [outcome, stays, lists]

theorem outcome_of_neither (stays : told.exit? = none) (bare : told.files? = none)
    (rest : List Told) : outcome (told :: rest) = outcome rest := by
  simp [outcome, stays, bare]

/-- The sender goes through the messages up to the first error. -/
theorem goThrough_of_calls {all : List Told} {calls : List MetaConnection.Message}
    (called : List.Forall₂ (Calls lib) all calls) (fits : ∀ told ∈ all, told.Fits lib)
    (sendable : ∀ message, .error message ∈ all → Sendable message) (arrays : Nat → Arrays) :
    goThrough lib arrays (calls.map ControlChannel.imageOf) = some (outcome all) := by
  induction called generalizing arrays with
  | nil => rfl
  | @cons told call others other_calls call_of called_others ih =>
      have tail := ih (fun other mem => fits other (List.mem_cons_of_mem _ mem))
        (fun message mem => sendable message (List.mem_cons_of_mem _ mem))
        (fun index => arrays (index + 1))
      have handled := handle_of_calls call_of (fits told (List.mem_cons_self ..))
        (fun message same => sendable message (same ▸ List.mem_cons_self ..)) (arrays 0)
      rw [List.map_cons, goThrough, handled, Told.handled]
      cases exits : told.exit? with
      | some exit => rw [outcome_of_exit exits]
      | none =>
          cases lists : told.files? with
          | some message =>
              rw [outcome_of_files exits lists]
              exact congrArg (Option.map _) tail
          | none =>
              rw [outcome_of_neither exits lists]
              exact tail

theorem exists_calls {all : List Told} (called : ∀ told ∈ all, (told.send lib).isSome) :
    ∃ calls, List.Forall₂ (Calls lib) all calls := by
  induction all with
  | nil => exact ⟨[], .nil⟩
  | cons told others ih =>
      obtain ⟨call_of, others_called⟩ := List.forall_mem_cons.mp called
      obtain ⟨frame, sent⟩ := Option.isSome_iff_exists.mp call_of
      obtain ⟨call, rfl, -⟩ := exists_call sent
      obtain ⟨calls, called_others⟩ := ih others_called
      exact ⟨call :: calls, .cons sent called_others⟩

theorem bounds_of_calls {all : List Told} {calls : List MetaConnection.Message}
    (called : List.Forall₂ (Calls lib) all calls) :
    ∀ call ∈ calls, call.typ ≠ MetaConnection.byeType ∧ call.buf.length ≤ 1024 * 1024 := by
  induction called with
  | nil => simp
  | cons call_of _ ih => exact List.forall_mem_cons.mpr ⟨call_of.bounds, ih⟩

end Learning

/-! ## From a failed write to the exit of the sender -/

/-- The errors that the receiver has sent are those that its threads have recorded. -/
structure Recorded (doServer : Bool) (state : State) : Prop where
  silent : doServer = false → state.errors = []
  /-- They are sent in order and each once, and what has been passed over is older than the newest
  by more than the ring. -/
  in_order : doServer = true → ∃ indices,
    Given msgCount (state.rings.rings .msg).messages.length
      ((state.rings.rings .msg).cursor ()).toInt.toNat indices ∧
    state.errors.map some <+: indices.map (fun index =>
      parse (slotBytes ((state.rings.rings .msg).messages.getD index []))) ∧
    (state.aborted = false → state.errors.length = indices.length)
  /-- A write that has failed is sent with the numbers of its file and its error. -/
  writes : doServer = true → state.aborted = false → ∀ site failure, Readable site failure →
    failure.fileNo.toNat < 2 ^ 31 →
    slotBytes (vrfy site failure.text) ∈ (state.rings.rings .msg).returned () →
      ∃ message, .error message ∈ state.told ∧
        message.codes = some (some (failure.fileNo, failure.errno))

/-- What the sender does with what comes out of the connection. -/
structure Learns (lib : Libraries) (told : List Told) (run : DataConnection.RxRun) : Prop where
  carried : ∃ coming, ControlChannel.Carries coming run.arrivals
  /-- At any time it has gone through some of the messages. -/
  goes : ∀ coming, ControlChannel.Carries coming run.arrivals → ∀ reader,
    (ControlChannel.machine coming).Reached reader → ∃ count, ∀ arrays,
      goThrough lib arrays reader.ring.received = some (outcome (told.take count))
  /-- And it can go on to their end, or to the first error. -/
  ends : ∀ coming, ControlChannel.Carries coming run.arrivals → ∀ reader,
    (ControlChannel.machine coming).Reached reader →
      ∃ after, (ControlChannel.machine coming).PathBy (fun _ => True) reader after ∧ ∀ arrays,
        goThrough lib arrays after.ring.received = some (outcome told)

section Whole

variable {lib : Libraries} {args : Nat} {doServer : Bool} {state : State}

/-- The codes of a write that has failed. -/
theorem codes_of_failure {site : Site} {failure : Failure} (readable : Readable site failure)
    (small : failure.fileNo.toNat < 2 ^ 31) :
    ∃ message, parse (slotBytes (vrfy site failure.text)) = some message ∧
      message.codes = some (some (failure.fileNo, failure.errno)) := by
  obtain ⟨kept, -, shown⟩ := WriteError.initializeClog_of_readable readable
  refine ⟨_, by rw [parse, shown, Option.bind_some, WriteError.parseError_lead failure small], ?_⟩
  simp [WriteError.Message.codes]

theorem Inv.recorded (inv : Inv lib args doServer state) (few : state.Few) :
    Recorded doServer state where
  silent := inv.silent
  in_order server := by
    obtain ⟨before, last, returned, parsed, -, all⟩ := inv.answered server
    obtain ⟨indices, given, returned_eq⟩ :=
      (((LogRing.inv_reached inv.rings).kept few .msg).follows ()).in_order
    have whole : state.errors.map some ++ last.map parse = indices.map fun index =>
        parse (slotBytes ((state.rings.rings .msg).messages.getD index [])) := by
      rw [← parsed, ← List.map_append, ← returned, returned_eq, List.map_map, Function.comp_def]
    refine ⟨indices, given, ⟨_, whole⟩, fun running => ?_⟩
    have lengths := congrArg List.length whole
    rw [all running, List.map_nil, List.append_nil, List.length_map, List.length_map] at lengths
    exact lengths
  writes := by
    intro server running site failure readable small read
    obtain ⟨before, last, returned, parsed, -, all⟩ := inv.answered server
    obtain ⟨message, message_eq, codes⟩ := codes_of_failure readable small
    rw [returned, all running, List.append_nil] at read
    have sent := List.mem_map_of_mem (f := parse) read
    rw [parsed, message_eq] at sent
    obtain ⟨other, mem, same⟩ := List.mem_map.mp sent
    obtain rfl := Option.some.inj same
    obtain ⟨told, told_mem, is_error⟩ := List.mem_filterMap.mp mem
    cases told with
    | error told =>
        obtain rfl := Option.some.inj is_error
        exact ⟨told, told_mem, codes⟩
    | keepalive | sessionComplete | completions | fileError => cases is_error

theorem learns_of_heard {told : List Told} {calls : List MetaConnection.Message}
    {run : DataConnection.RxRun} {ending : DataConnection.Ending}
    (called : List.Forall₂ (Calls lib) told calls) (fits : ∀ told' ∈ told, told'.Fits lib)
    (sendable : ∀ message, .error message ∈ told → Sendable message)
    (heard : ControlChannel.Heard (calls.map ControlChannel.imageOf) ending run) :
    Learns lib told run where
  carried := heard.carried
  goes := by
    intro coming carries reader reached
    obtain ⟨count, received⟩ : ∃ count, reader.ring.received =
        (calls.take count).map ControlChannel.imageOf := by
      have in_order := List.prefix_iff_eq_take.mp (heard.in_order coming carries reader reached)
      rw [← List.map_take] at in_order
      exact ⟨_, in_order⟩
    refine ⟨count, fun arrays => received ▸ ?_⟩
    exact goThrough_of_calls (List.forall₂_take count called)
      (fun other mem => fits other (List.mem_of_mem_take mem))
      (fun message mem => sendable message (List.mem_of_mem_take mem)) arrays
  ends := by
    intro coming carries reader reached
    obtain ⟨after, path, received⟩ := heard.delivers coming carries reader reached
    exact ⟨after, path, fun arrays => received ▸ goThrough_of_calls called fits sendable arrays⟩

end Whole

/-! ## A write on a full disk -/

theorem known_noSpace : 1 ≤ (28 : Int32).toInt ∧ (28 : Int32).toInt ≤ 4095 := by decide

/-- The third file, when the disk is full. -/
def thirdFile : Failure := ⟨0, 28, 3, 7, 0, 1048576, known_noSpace⟩

def thirdText : List Char :=
  ("[ERR] [ 0] [en: 28] [fn: 3] Writing File fd=7 os=0 sz=1048576 [dtn.c:967]: " ++
    "No space left on device\n").toList

theorem readable_thirdFile : Readable WriteError.noSpace thirdFile := by
  have stored : (slotBytes (vrfy WriteError.noSpace thirdFile.text)).takeWhile
      (fun byte => byte ≠ 0) = Text.toUtf8 thirdText := by
    decide +kernel
  rw [Readable, stored, Text.fromUtf8_toUtf8]
  rfl

/-- The rings when the error of the third file has been recorded. -/
def thirdRings : LogRing.State Unit :=
  (LogRing.State.init fun _ => 0).log 0 .msg (vrfy WriteError.noSpace thirdFile.text)

theorem thirdRings_debug : found 0 thirdRings .debug = none := by
  simp [found, thirdRings, LogRing.State.log, LogRing.State.init]

theorem thirdRings_msg : found 0 thirdRings .msg =
    some (slotBytes (vrfy WriteError.noSpace thirdFile.text)) := by
  have first : catchUp (0 + 1 : UInt64).toInt64 0 = 0 := by decide
  have behind : ¬(0 : Int64) ≥ (0 + 1 : UInt64).toInt64 := by decide
  have ring : (thirdRings.rings .msg).cursor () = 0 ∧ (thirdRings.rings .msg).count = 0 + 1 := by
    simp [thirdRings, LogRing.State.log, LogRing.State.init, LogRing.Ring.log]
  have place : readPtr 0 .msg 0 = LogRing.slot 0 .msg 0 := LogRing.readPtr_eq (by decide)
  have memory : thirdRings.memory = (Layout.Write.ofBytes (LogRing.slot 0 .msg 0)
      (slotBytes (vrfy WriteError.noSpace thirdFile.text))).apply fun _ => 0 :=
    congrArg (fun write : Layout.Write => write.apply fun _ => 0)
      (LogRing.logWrite_eq (Nat.zero_le _) _)
  simp only [found, ring.1, ring.2, if_neg behind, first, place, memory]
  rw [LogRing.bytesAt_slot]

/-- An error that is parsed is sent. -/
theorem poll_of_parse {lib : Libraries} {args : Nat} {state : State} {ret frame : List UInt8}
    {message : WriteError.Message} (place : state.clog = .err)
    (taken : found args state.rings .msg = some ret) (parsed : parse ret = some message)
    (sent : (Told.error message).send lib = some frame) :
    state.poll lib args true =
      ⟨state.rings.getnext args .msg (), .log, state.aborted, state.told ++ [.error message]⟩ := by
  obtain ⟨errmsg, shown, parsed⟩ := Option.bind_eq_some_iff.mp parsed
  simp only [State.poll, place, taken, State.readErr, shown, if_true, parsed, State.tell, sent]

/-- A call of `meta_send` with a counter that is not used up. -/
theorem exists_metaSend (gcm : Gcm) {lead : Nat} {knob : NetworkObj} (ready : Ready lead knob)
    (below : (knob.count Network.fihdrMeta).ivIncr.getLsbD 61 = false)
    {message : MetaConnection.Message} (small : message.buf.length ≤ 1024 * 1024) :
    ∃ sent, MetaConnection.metaSend gcm knob message = some sent := by
  have head_length : 0 < message.head.length ∧ message.head.length < 2 ^ 31 := by
    rw [MetaConnection.length_head]
    decide
  rw [MetaConnection.metaSend, if_neg (by omega)]
  by_cases empty : message.buf = []
  · rw [if_pos empty, Replay.sendCalls,
      Network.sendWhole_eq ready.crypto Network.fihdrMeta head_length, below]
    exact ⟨_, rfl⟩
  · have buf_length : 0 < message.buf.length ∧ message.buf.length < 2 ^ 31 :=
      ⟨List.length_pos_of_ne_nil empty, by omega⟩
    rw [if_neg empty, Replay.sendCalls,
      Network.sendFrame_eq ready.crypto Network.fihdrMeta head_length buf_length, below]
    exact ⟨_, rfl⟩

/-- The thread of the log sends the error of the third file. -/
theorem exists_thirdState (lib : Libraries) : ∃ message state, (machine lib 0 true).Reached state ∧
    state.told = [.error message] ∧ state.Few ∧ message.codes = some (some (3, 28)) := by
  obtain ⟨message, parsed, codes⟩ :=
    codes_of_failure readable_thirdFile (show thirdFile.fileNo.toNat < 2 ^ 31 by decide)
  obtain ⟨text, fino, errno, shape, short⟩ :=
    sendable_of_parse (LogRing.length_slotBytes _) parsed
  obtain ⟨frame, sent, -⟩ := @WriteError.exists_frame lib.zstd lib.messages text fino.toInt64
    errno.toInt64 short
  rw [← shape] at sent
  have first : (machine lib 0 true).next ⟨LogRing.State.init fun _ => 0, .log, false, []⟩
      (.log .msg (vrfy WriteError.noSpace thirdFile.text)) =
        some ⟨thirdRings, .log, false, []⟩ := rfl
  have looked : State.poll lib 0 true ⟨thirdRings, .log, false, []⟩ =
      ⟨thirdRings, .err, false, []⟩ := by
    simp only [State.poll, thirdRings_debug]
  have second : (machine lib 0 true).next ⟨thirdRings, .log, false, []⟩ .clog =
      some ⟨thirdRings, .err, false, []⟩ := congrArg some looked
  have third : (machine lib 0 true).next ⟨thirdRings, .err, false, []⟩ .clog =
      some ⟨thirdRings.getnext 0 .msg (), .log, false, [.error message]⟩ :=
    congrArg some (@poll_of_parse lib 0 ⟨thirdRings, .err, false, []⟩ _ frame message rfl
      thirdRings_msg parsed sent)
  refine ⟨message, ⟨thirdRings.getnext 0 .msg (), .log, false, [.error message]⟩,
    Machine.reached_of_run ⟨fun _ => 0, rfl⟩
      [.log .msg (vrfy WriteError.noSpace thirdFile.text), .clog, .clog] ?_, rfl, ?_, codes⟩
  · rw [Machine.run_cons, first, Option.bind_some, Machine.run_cons, second, Option.bind_some,
      Machine.run_cons, third]
    rfl
  · intro channel
    rw [getnext_messages]
    cases channel <;> simp [thirdRings, LogRing.State.log, LogRing.State.init, LogRing.Ring.log]

end ReceiverErrors
end EScp
