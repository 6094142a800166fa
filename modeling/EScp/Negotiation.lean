import EScp.ControlMessage
import EScp.FilesOverConnections
import EScp.PortRange

/-!
# How the ends of a session agree

The sender draws a key and sends its parameters over the channel of `ssh`; the receiver takes them
over, binds a port and answers with it; and the sender connects to the port of the answer.  The
bytes of the channel come in pieces, and other bytes may follow.
-/

namespace EScp
namespace Negotiation

open ControlMessage (fromHeader toHeader)
open Network (Delivery Stream)
open DataConnection (RxRun rxWorker txWorker)
open Session (AllSent Source deliveries fileOf files_of_connections)

/-! ## Messages -/

def msgSessionInit : UInt16 := 8

/-- The table `Session_Init`, with the values of fields that are not given. -/
structure SessionInit where
  versionMajor : Int32 := 0
  versionMinor : Int32 := 0
  sessionId : UInt64 := 0
  cryptoKey : Option (List UInt8) := none
  doHash : UInt8 := 0
  doCrypto : Bool := false
  doVerbose : Bool := false
  doCompression : Bool := false
  doPreserve : Bool := false
  doSparse : Bool := false
  noDirect : Bool := false
  isError : Bool := false
  logFile : Option String := none
  message : Option String := none
  bindInterface : Option String := none
  portStart : Int32 := 0
  portEnd : Int32 := 0
  ioEngine : Int32 := 0
  threadCount : Int32 := 0
  blockSz : Int32 := 0
  ipMode : UInt8 := 0

/-- The flat buffers of these tables: what a builder has finished, and `root`, which fails on what
it does not accept.  What has been built is read again. -/
structure FlatBuffers where
  finishedData : SessionInit → List UInt8
  root : List UInt8 → Option SessionInit
  root_finishedData : ∀ init, (finishedData init).length < 2 ^ 31 →
    root (finishedData init) = some init

/-- What is written to the channel for a buffer. -/
def frame (buf : List UInt8) : List UInt8 :=
  toHeader (UInt32.ofNat buf.length) msgSessionInit ++ buf

/-! ## The ends -/

/-- What the ends read and write of `struct dtn_args`, and the global `verbose_logging`. -/
structure Args where
  doServer : Bool
  doCrypto : Bool
  doHash : UInt8
  doPreserve : Bool
  nodirect : Bool
  ipMode : UInt8
  block : Int32
  flags : UInt32
  compression : Int32
  sparse : Int32
  ioEngineTx : Int32
  ioEngineRx : Int32
  sessionId : UInt64
  cryptoKey : List UInt8
  /-- The port in the first address of `sock_store`. -/
  sockStore : Option UInt16
  sockStoreCount : Int32
  threadCount : Int32
  activePort : UInt16
  verboseLogging : UInt64

/-- The command line of the sender, with the host of its destination. -/
structure Flags where
  host : String
  escpPortrange : UInt16
  ipv4 : Bool
  ipv6 : Bool
  logFile : String

/-- `O_CREAT|O_WRONLY|O_TRUNC`. -/
def writeFlags : UInt32 := 0o1101

/-- What `escp_sender` sets before it sends its parameters; `tx_init` draws the key. -/
def Args.begin (args : Args) (flags : Flags) (key : List UInt8) (sessionId : UInt64) : Args :=
  let ipMode := if flags.ipv4 then args.ipMode ||| 1 else args.ipMode
  { args with
    doCrypto := true
    cryptoKey := key
    sessionId := sessionId
    ipMode := if flags.ipv6 then ipMode ||| 2 else ipMode }

/-- The parameters of the sender. -/
def Args.sessionInit (args : Args) (flags : Flags) : SessionInit where
  versionMajor := 0
  versionMinor := 9
  sessionId := args.sessionId
  portStart := args.activePort.toUInt32.toInt32
  portEnd := flags.escpPortrange.toUInt32.toInt32
  doVerbose := 0 < args.verboseLogging
  doCrypto := true
  cryptoKey := some (args.cryptoKey.take 16)
  ioEngine := args.ioEngineRx
  noDirect := args.nodirect
  doHash := args.doHash
  threadCount := args.threadCount
  blockSz := args.block
  doCompression := 0 < args.compression
  doSparse := 0 < args.sparse
  doPreserve := args.doPreserve
  logFile := some flags.logFile
  ipMode := args.ipMode
  bindInterface := some flags.host

/-- The answer of the receiver. -/
def answer (port : Int) : SessionInit := { versionMinor := 9, portStart := Int32.ofInt port }

/-- `read_stdin_or_mgmt`, unless it panics: a buffer and what is left on the channel. -/
def readStdinOrMgmt (pieces : List (List UInt8)) : Option (List UInt8 × List (List UInt8)) :=
  (readFixed 6 pieces).bind fun (header, pieces) =>
    let (sz, t) := fromHeader header
    if t ≠ msgSessionInit then none else readFixed sz.toNat pieces

/-- The parameters that `initialize_receiver` takes over, apart from the key. -/
def Args.parameters (args : Args) (helo : SessionInit) : Args :=
  { args with
    sessionId := helo.sessionId
    verboseLogging := if helo.doVerbose then 1 else args.verboseLogging
    compression := if helo.doCompression then 1 else args.compression
    sparse := if helo.doSparse then 1 else args.sparse
    doPreserve := helo.doPreserve
    ioEngineTx := if 0 < helo.ioEngine then helo.ioEngine else args.ioEngineTx
    block := helo.blockSz
    threadCount := helo.threadCount
    doHash := helo.doHash
    nodirect := helo.noDirect
    ipMode := helo.ipMode }

/-- `initialize_receiver` with the parameters of the sender.  It panics without a key; from a key
that is shorter than 16 bytes it would read on behind the end. -/
def Args.takeOver (args : Args) (helo : SessionInit) : Option Args :=
  if helo.doCrypto then
    match helo.cryptoKey with
    | none => none
    | some key =>
        if key.length < 16 then none
        else some { args.parameters helo with cryptoKey := key.take 16, doCrypto := true }
  else some (args.parameters helo)

/-- What the search for a port reads of the parameters. -/
def SessionInit.ports (helo : SessionInit) : PortRange.SessionInit where
  portStart := helo.portStart
  portEnd := helo.portEnd
  bindInterface := (helo.bindInterface.getD "").toList

/-- What the receiver has in `dtn_args` when `rx_start` listens on a port. -/
def Args.listen (args : Args) (port : UInt16) : Args :=
  { args with
    sockStore := some port
    sockStoreCount := 1
    flags := args.flags ||| writeFlags
    activePort := port }

/-- What `initialize_receiver` comes to. -/
inductive Received where
  | panicked
  | exited (failure : PortRange.Failure)
  /-- It waits for ever. -/
  | silent
  /-- It has answered; `later` is left on the channel. -/
  | answered (args : Args) (reply : List UInt8) (later : List (List UInt8))

section Ends

variable (flat : FlatBuffers) (resolver : PortRange.Resolver)

/-- What the sender writes to the channel. -/
def Args.hello (args : Args) (flags : Flags) : List UInt8 :=
  frame (flat.finishedData (args.sessionInit flags))

/-- `initialize_receiver`. -/
def initializeReceiver (kernel : PortRange.Kernel) (args : Args) (pieces : List (List UInt8)) :
    Received :=
  match readStdinOrMgmt pieces with
  | none => .panicked
  | some (buf, later) =>
      match flat.root buf with
      | none => .panicked
      | some helo =>
          match args.takeOver helo with
          | none => .panicked
          | some args =>
              match PortRange.initializeReceiver resolver kernel helo.ports with
              | .exited failure => .exited failure
              | .silent => .silent
              | .announced port =>
                  .answered (args.listen (UInt16.ofInt port))
                    (frame (flat.finishedData (answer port))) later

/-- What `escp_sender` comes to with the answer. -/
inductive Started where
  /-- It has read to the end of the channel, and returns. -/
  | returned
  | panicked
  /-- `dns_lookup` fails. -/
  | exited
  /-- It calls `tx_start`. -/
  | started (args : Args)

/-- `to_string`. -/
def decimal (number : Int32) : List Char :=
  if number < 0 then '-' :: Nat.toDigits 10 number.toInt.natAbs
  else Nat.toDigits 10 number.toInt.natAbs

/-- `escp_sender` from the answer to `tx_start`. -/
def Args.readAnswer (args : Args) (flags : Flags) (pieces : List (List UInt8)) : Started :=
  match readFixed 6 pieces with
  | none => .returned
  | some (header, pieces) =>
      match readFixed (fromHeader header).1.toNat pieces with
      | none => .returned
      | some (buf, _) =>
          match flat.root buf with
          | none => .panicked
          | some helo =>
              if Char.ofNat 0 ∈ flags.host.toList then .panicked
              else
                match PortRange.dnsLookup resolver flags.host.toList (decimal helo.portStart) with
                | none => .exited
                | some port =>
                    .started { args with
                      sockStore := some port
                      sockStoreCount := 1
                      activePort := helo.portStart.toUInt32.toUInt16 }

end Ends

/-! ## The messages are read -/

theorem fromHeader_toHeader (sz : UInt32) (typ : UInt16) :
    fromHeader (toHeader sz typ) = (sz, typ) := by
  have size := ControlMessage.fst_fromHeader sz typ []
  have kind := ControlMessage.snd_fromHeader sz typ []
  rw [List.append_nil] at size kind
  exact Prod.ext size kind

section Read

variable {pieces : List (List UInt8)} {buf rest : List UInt8}

/-- The header of a message is read, and then the whole message. -/
theorem exists_read (small : buf.length < 2 ^ 31) (stream : Stream pieces (frame buf ++ rest)) :
    ∃ body later, readFixed 6 pieces =
        some (toHeader (UInt32.ofNat buf.length) msgSessionInit, body) ∧
      readFixed (UInt32.ofNat buf.length).toNat body = some (buf, later) ∧ Stream later rest := by
  rw [frame, List.append_assoc] at stream
  have six : (toHeader (UInt32.ofNat buf.length) msgSessionInit).length = 6 := rfl
  obtain ⟨body, header_read, stream_body⟩ := stream.read six
  have size : buf.length = (UInt32.ofNat buf.length).toNat := by
    rw [UInt32.toNat_ofNat', Nat.mod_eq_of_lt (by omega)]
  obtain ⟨later, body_read, stream_rest⟩ := stream_body.read size
  exact ⟨body, later, header_read, body_read, stream_rest⟩

theorem readStdinOrMgmt_frame (small : buf.length < 2 ^ 31)
    (stream : Stream pieces (frame buf ++ rest)) :
    ∃ later, readStdinOrMgmt pieces = some (buf, later) ∧ Stream later rest := by
  obtain ⟨body, later, header_read, body_read, stream_rest⟩ := exists_read small stream
  refine ⟨later, ?_, stream_rest⟩
  rw [readStdinOrMgmt, header_read, Option.bind_some]
  simp only [fromHeader_toHeader, ne_eq, not_true_eq_false, if_false]
  exact body_read

end Read

/-! ## The parameters are taken over -/

/-- A receiver that was started with `--server` and none of the options of the sender. -/
structure Server (args : Args) : Prop where
  doServer : args.doServer = true
  compression : args.compression = 0
  sparse : args.sparse = 0

/-- The ends have the same parameters. -/
structure Agree (sender receiver : Args) : Prop where
  doCrypto : sender.doCrypto = true ∧ receiver.doCrypto = true
  cryptoKey : receiver.cryptoKey = sender.cryptoKey
  sessionId : receiver.sessionId = sender.sessionId
  block : receiver.block = sender.block
  threadCount : receiver.threadCount = sender.threadCount
  doHash : receiver.doHash = sender.doHash
  doPreserve : receiver.doPreserve = sender.doPreserve
  nodirect : receiver.nodirect = sender.nodirect
  ipMode : receiver.ipMode = sender.ipMode
  compression : 0 < receiver.compression ↔ 0 < sender.compression
  sparse : 0 < receiver.sparse ↔ 0 < sender.sparse
  /-- The engine that the sender names second. -/
  ioEngine : 0 < sender.ioEngineRx → receiver.ioEngineTx = sender.ioEngineRx
  /-- Only one of them writes. -/
  doServer : receiver.doServer = true

section Parameters

variable {args : Args} {key : List UInt8}

/-- What the sender has sent is taken over. -/
theorem exists_takeOver (own : Args) (flags : Flags) (sessionId : UInt64) (server : Server args)
    (key_length : key.length = 16) :
    ∃ after, args.takeOver ((own.begin flags key sessionId).sessionInit flags) = some after ∧
      Agree (own.begin flags key sessionId) after := by
  have whole : key.take 16 = key := List.take_of_length_le key_length.le
  have taken : args.takeOver ((own.begin flags key sessionId).sessionInit flags) =
      some { args.parameters ((own.begin flags key sessionId).sessionInit flags) with
        cryptoKey := key, doCrypto := true } := by
    simp [Args.takeOver, Args.sessionInit, Args.begin, whole, key_length]
  refine ⟨_, taken, ?_⟩
  constructor
  case compression =>
    by_cases compressed : 0 < own.compression
    · simp [Args.parameters, Args.sessionInit, Args.begin, compressed]
    · simp [Args.parameters, Args.sessionInit, Args.begin, compressed, server.compression]
  case sparse =>
    by_cases holes : 0 < own.sparse
    · simp [Args.parameters, Args.sessionInit, Args.begin, holes]
    · simp [Args.parameters, Args.sessionInit, Args.begin, holes, server.sparse]
  case ioEngine => exact fun named => if_pos named
  case doServer => exact server.doServer
  case doCrypto => exact ⟨rfl, rfl⟩
  all_goals rfl

end Parameters

/-! ## The port -/

/-- An announced port is one that the receiver has bound. -/
theorem exists_bound {resolver : PortRange.Resolver} {kernel : PortRange.Kernel}
    {init : PortRange.SessionInit} {port : Int}
    (announced : PortRange.initializeReceiver resolver kernel init = .announced port) :
    Char.ofNat 0 ∉ init.bindInterface ∧
      ∃ bound : UInt16, port = bound.toNat ∧ kernel.tryPort bound = .bound := by
  by_cases found : ∃ addr activePort, PortRange.address resolver init = some addr ∧
      PortRange.rxStart kernel addr = .ok activePort
  · obtain ⟨addr, activePort, at_addr, started⟩ := found
    rw [PortRange.initializeReceiver_of_bound at_addr started] at announced
    obtain ⟨-, count, -, finds, activePort_eq⟩ := PortRange.rxStart_eq_ok_iff.mp started
    rw [PortRange.address] at at_addr
    split_ifs at at_addr with interface
    split_ifs at announced
    exact ⟨interface, activePort, (PortRange.Outcome.announced.inj announced).symm,
      activePort_eq ▸ finds.2⟩
  · obtain ⟨failure, exited⟩ := @PortRange.initializeReceiver_of_failure resolver kernel init
      fun addr activePort at_addr started => found ⟨addr, activePort, at_addr, started⟩
    rw [exited] at announced
    cases announced

/-- The address of a host has the port that was asked for. -/
theorem toNat_dnsLookup {resolver : PortRange.Resolver} {host : List Char} {number : Nat}
    {port : UInt16} (small : number < 65536)
    (found : PortRange.dnsLookup resolver host (Nat.toDigits 10 number) = some port) :
    port.toNat = number := by
  rw [PortRange.dnsLookup] at found
  split_ifs at found with nobody
  · rw [PortRange.strtol_decimal (Numeral.decimal_toDigits number) (by omega), Option.map_some,
      Option.some.injEq] at found
    rw [← found, UInt16.ofInt, UInt16.toNat_ofNat']
    omega
  · exact resolver.numeric host number port small found

section Port

variable (port : UInt16)

theorem toInt_ofInt : (Int32.ofInt port.toNat).toInt = port.toNat := by
  have small := port.toNat_lt
  exact Int32.toInt_ofInt_of_le (by omega) (by omega)

theorem decimal_ofInt : decimal (Int32.ofInt port.toNat) = Nat.toDigits 10 port.toNat := by
  have positive : ¬Int32.ofInt port.toNat < 0 := by
    rw [Int32.lt_iff_toInt_lt, toInt_ofInt]
    exact not_lt.mpr (Int.natCast_nonneg _)
  rw [decimal, if_neg positive, toInt_ofInt, Int.natAbs_natCast]

theorem toUInt16_ofInt : (Int32.ofInt port.toNat).toUInt32.toUInt16 = port := by
  have small := port.toNat_lt
  rw [Int32.ofInt_eq_ofNat, Int32.toUInt32_ofNat']
  apply UInt16.toNat_inj.mp
  rw [UInt32.toNat_toUInt16, UInt32.toNat_ofNat']
  omega

theorem ofInt_toNat : UInt16.ofInt port.toNat = port := by
  have small := port.toNat_lt
  apply UInt16.toNat_inj.mp
  rw [UInt16.ofInt, UInt16.toNat_ofNat']
  omega

end Port

/-! ## The exchange -/

/-- What the init functions of the connections read. -/
def Args.crypto (args : Args) : CryptoInit.CryptoArgs where
  doCrypto := args.doCrypto
  sessionId := args.sessionId.toBitVec
  cryptoKey := args.cryptoKey

/-- What the calls of the network read. -/
def Args.dtn (args : Args) : Network.DtnArgs where
  doServer := args.doServer
  block := args.block.toUInt32

/-- The sender connects to the port on which the receiver listens. -/
structure Connected (kernel : PortRange.Kernel) (sender receiver : Args) : Prop where
  agree : Agree sender receiver
  address : sender.sockStore = some receiver.activePort
  activePort : sender.activePort = receiver.activePort
  bound : kernel.tryPort receiver.activePort = .bound

/-- Whatever the workers of the sender send over their connections, in whatever pieces they come,
the receiver ends up with the files. -/
def Carries (zstd : Network.Zstd) (aes : List UInt8 → Gcm) (sender receiver : Args) : Prop :=
  ∀ {total threads : Nat} {source : Source total} {senders : Fin total → SendFile.State}
    {blocks : Fin threads → List Network.Block} {globalIv : Fin threads → BitVec 64}
    {key bytes : Fin threads → List UInt8} {pieces : Fin threads → List (List UInt8)},
    source.block = sender.block.toBitVec → 4096 ∣ source.block.toNat →
    AllSent source threads senders blocks → (∀ thread, (key thread).length = 20) →
    (∀ thread, txWorker zstd aes sender.crypto (0 < sender.compression) source.block.toNat
      (globalIv thread) (key thread) (blocks thread) = some (bytes thread)) →
    (∀ thread, Stream (pieces thread) (bytes thread)) →
    ∃ rx : Fin threads → RxRun,
      (∀ thread, rxWorker zstd aes receiver.crypto receiver.dtn (pieces thread) =
        some (rx thread) ∧ (rx thread).ending = .bye) ∧
      ((List.finRange threads).map fun thread => (rx thread).totals.bytesDisk).sum =
        BitVec.ofNat 64
          ((List.finRange total).map fun index => (source.content index).length).sum ∧
      ∀ arrived : List (Delivery × (Nat → UInt8)),
        (arrived.map Prod.fst).Perm
          ((List.finRange threads).flatMap fun thread => deliveries (rx thread)) →
        ∀ sparse, ∀ index : Fin total,
          fileOf sparse (index + 1) arrived (source.content index).length =
            File.ofBytes (source.content index)

/-- What has been agreed on is what the connections need. -/
theorem Agree.carries {sender receiver : Args} (agree : Agree sender receiver)
    (zstd : Network.Zstd) (aes : List UInt8 → Gcm) : Carries zstd aes sender receiver := by
  intro total threads source senders blocks globalIv key bytes pieces block_eq multiple sent
    key_length written stream
  have same : receiver.crypto = sender.crypto := by
    rw [Args.crypto, Args.crypto, agree.doCrypto.1, agree.doCrypto.2, agree.cryptoKey,
      agree.sessionId]
  have fits : receiver.dtn.block.toNat = source.block.toNat := by
    rw [block_eq, ← agree.block]
    rfl
  rw [same]
  exact files_of_connections zstd (0 < sender.compression) aes receiver.dtn agree.doCrypto.1 sent
    multiple fits key_length written stream

section Exchange

variable {flat : FlatBuffers} {far near : PortRange.Resolver} {kernel : PortRange.Kernel}
  {own args receiver : Args} {flags : Flags} {key : List UInt8} {sessionId : UInt64}
  {pieces replies later : List (List UInt8)} {reply rest : List UInt8}

/-- The receiver does not panic, and with a port it answers and has the parameters. -/
theorem received_hello (server : Server args) (key_length : key.length = 16)
    (short : (flat.finishedData ((own.begin flags key sessionId).sessionInit flags)).length <
      2 ^ 31)
    (stream : Stream pieces ((own.begin flags key sessionId).hello flat flags ++ rest)) :
    initializeReceiver flat far kernel args pieces ≠ .panicked ∧
      ∀ receiver reply later,
        initializeReceiver flat far kernel args pieces = .answered receiver reply later →
          Stream later rest ∧ Agree (own.begin flags key sessionId) receiver ∧
            kernel.tryPort receiver.activePort = .bound ∧ Char.ofNat 0 ∉ flags.host.toList ∧
              reply = frame (flat.finishedData (answer receiver.activePort.toNat)) := by
  obtain ⟨left, read, stream_left⟩ := readStdinOrMgmt_frame short stream
  obtain ⟨after, taken, agree⟩ := exists_takeOver own flags sessionId server key_length
  have root := flat.root_finishedData _ short
  rw [initializeReceiver, read]
  simp only [root, taken]
  cases found : PortRange.initializeReceiver far kernel
      ((own.begin flags key sessionId).sessionInit flags).ports with
  | exited failure => exact ⟨by simp, by simp⟩
  | silent => exact ⟨by simp, by simp⟩
  | announced port =>
      obtain ⟨interface, bound, rfl, at_bound⟩ := exists_bound found
      refine ⟨by simp, fun receiver reply later answered => ?_⟩
      obtain ⟨rfl, rfl, rfl⟩ := Received.answered.inj answered
      rw [ofInt_toNat]
      exact ⟨stream_left, { agree with }, at_bound, interface, rfl⟩

/-- The sender finds the port in the answer. -/
theorem readAnswer_reply {port : UInt16}
    (short : (flat.finishedData (answer port.toNat)).length < 2 ^ 31)
    (plain : Char.ofNat 0 ∉ flags.host.toList)
    (stream : Stream replies (frame (flat.finishedData (answer port.toNat)) ++ rest)) :
    own.readAnswer flat near flags replies = .exited ∨
      own.readAnswer flat near flags replies =
        .started { own with sockStore := some port, sockStoreCount := 1, activePort := port } := by
  obtain ⟨body, later, header_read, body_read, -⟩ := exists_read short stream
  have root := flat.root_finishedData _ short
  have portStart : (answer port.toNat).portStart = Int32.ofInt port.toNat := rfl
  rw [Args.readAnswer, header_read]
  simp only [fromHeader_toHeader, body_read, root, if_neg plain, portStart, decimal_ofInt,
    toUInt16_ofInt]
  split
  · exact .inl rfl
  · rename_i address found
    have same := toNat_dnsLookup port.toNat_lt found
    exact .inr (by rw [UInt16.toNat_inj.mp same])

end Exchange

/-! ## A session with one file -/

/-- The buffer of the parameters. -/
def helloData : List UInt8 :=
  [52, 0, 0, 0, 0, 0, 0, 0, 44, 0, 56, 0, 0, 0, 8, 0, 44, 0, 12, 0, 5, 0, 6, 0, 0, 0, 7, 0, 0, 0, 0,
    0, 0, 0, 0, 0, 16, 0, 0, 0, 20, 0, 24, 0, 28, 0, 32, 0, 36, 0, 40, 0, 44, 0, 0, 0, 0, 2, 1, 1,
    9, 0, 0, 0, 44, 0, 0, 0, 60, 0, 0, 0, 64, 0, 0, 0, 208, 4, 0, 0, 10, 0, 0, 0, 1, 0, 0, 0, 1, 0,
    0, 0, 0, 0, 16, 0, 136, 119, 102, 85, 68, 51, 34, 17, 0, 0, 0, 0, 16, 0, 0, 0, 16, 17, 18, 19,
    20, 21, 22, 23, 24, 25, 26, 27, 28, 29, 30, 31, 0, 0, 0, 0, 0, 0, 0, 0, 1, 0, 0, 0, 104, 0, 0,
    0]

/-- The buffer of the answer. -/
def answerData : List UInt8 :=
  [40, 0, 0, 0, 36, 0, 12, 0, 0, 0, 4, 0, 0, 0, 0, 0, 0, 0, 0, 0, 0, 0, 0, 0, 0, 0, 0, 0, 0, 0, 0,
    0, 0, 0, 0, 0, 0, 0, 8, 0, 36, 0, 0, 0, 9, 0, 0, 0, 208, 4, 0, 0]

/-- `escp -C --writechecksum -t 1` before its session begins. -/
def oneSender : Args where
  doServer := false
  doCrypto := false
  doHash := 2
  doPreserve := false
  nodirect := false
  ipMode := 0
  block := 1048576
  flags := 0
  compression := 1
  sparse := 0
  ioEngineTx := 1
  ioEngineRx := 1
  sessionId := 0
  cryptoKey := List.replicate 16 0
  sockStore := none
  sockStoreCount := 0
  threadCount := 1
  activePort := 1232
  verboseLogging := 0

/-- `escp --server`. -/
def oneServer : Args :=
  { oneSender with doServer := true, doHash := 0, compression := 0, threadCount := 4 }

def oneFlags : Flags := ⟨"h", 10, false, false, ""⟩

/-- All ports are free. -/
def idleKernel : PortRange.Kernel where
  tryPort _ := .bound
  listens := true
  connected := true

def oneBegun : Args := oneSender.begin oneFlags CryptoInit.firstArgs.cryptoKey 0x1122334455667788


instance countableUInt8 : Countable UInt8 :=
  Function.Injective.countable (f := UInt8.toNat) fun _ _ same => UInt8.toNat_inj.mp same

instance : Countable SessionInit := by
  have numbers : Function.Injective fun init : SessionInit =>
      ((init.versionMajor.toInt, init.versionMinor.toInt, init.sessionId.toNat, init.cryptoKey,
        init.doHash), (init.doCrypto, init.doVerbose, init.doCompression,
          init.doPreserve, init.doSparse), (init.noDirect, init.isError, init.logFile,
            init.message, init.bindInterface), init.portStart.toInt, init.portEnd.toInt,
              init.ioEngine.toInt, init.threadCount.toInt, init.blockSz.toInt, init.ipMode) := by
    intro left right same
    cases left
    cases right
    simpa [UInt64.toNat_inj, Int32.toInt_inj, and_assoc] using same
  exact numbers.countable

/-- The sender has the port of the answer. -/
def oneStarted : Args :=
  { oneBegun with sockStore := some 1232, sockStoreCount := 1, activePort := 1232 }

/-- An encoding can be changed so that an item has some bytes. -/
theorem exists_changed {Item : Type*} {data : Item → List UInt8} (injective : data.Injective)
    (item : Item) (bytes : List UInt8) : ∃ changed : Item → List UInt8, changed.Injective ∧
      changed item = bytes ∧
        ∀ other, other ≠ item → data other ≠ bytes → changed other = data other := by
  refine ⟨Equiv.swap (data item) bytes ∘ data, (Equiv.injective _).comp injective,
    Equiv.swap_apply_left .., fun other apart differs => ?_⟩
  exact Equiv.swap_apply_of_ne_of_ne (fun same => apart (injective same)) differs

/-- Both messages come in two pieces. -/
def helloPieces : List (List UInt8) := [(frame helloData).take 70, (frame helloData).drop 70]

def answerPieces : List (List UInt8) := [(frame answerData).take 3, (frame answerData).drop 3]

/-- Flat buffers with these bytes. -/
structure Known (flat : FlatBuffers) : Prop where
  hello : flat.finishedData (oneBegun.sessionInit oneFlags) = helloData
  answer : flat.finishedData (answer 1232) = answerData

theorem exists_known : ∃ flat : FlatBuffers, Known flat := by
  obtain ⟨number, injective⟩ := Countable.exists_injective_nat SessionInit
  have numbered : Function.Injective fun init => List.replicate (number init) (1 : UInt8) :=
    fun left right same => injective (by simpa using congrArg List.length same)
  obtain ⟨first, first_injective, first_hello, -⟩ :=
    exists_changed numbered (oneBegun.sessionInit oneFlags) helloData
  obtain ⟨data, data_injective, data_answer, kept⟩ :=
    exists_changed first_injective (answer 1232) answerData
  have apart : oneBegun.sessionInit oneFlags ≠ answer 1232 :=
    fun same => absurd (congrArg SessionInit.portEnd same) (by decide)
  have data_hello : data (oneBegun.sessionInit oneFlags) = helloData :=
    (kept _ apart (by rw [first_hello]; decide)).trans first_hello
  refine ⟨⟨data, Function.partialInv data, fun init _ => ?_⟩, data_hello, data_answer⟩
  exact Function.partialInv_left data_injective init

section Known

variable {flat : FlatBuffers}

theorem length_helloData : helloData.length < 2 ^ 31 := by decide +kernel

theorem length_answerData : answerData.length < 2 ^ 31 := by decide +kernel

theorem Known.root_hello (known : Known flat) :
    flat.root helloData = some (oneBegun.sessionInit oneFlags) := by
  have root := flat.root_finishedData _ (known.hello ▸ length_helloData)
  rwa [known.hello] at root

theorem Known.root_answer (known : Known flat) :
    flat.root answerData = some (Negotiation.answer 1232) := by
  have root := flat.root_finishedData _ (known.answer ▸ length_answerData)
  rwa [known.answer] at root

theorem server_oneServer : Server oneServer := ⟨rfl, rfl, rfl⟩

/-- The receiver binds the first port. -/
theorem Known.answered (known : Known flat) : ∃ receiver,
    initializeReceiver flat .everyHost idleKernel oneServer helloPieces =
      .answered receiver (frame answerData) [] := by
  have announced : PortRange.initializeReceiver .everyHost idleKernel
      (oneBegun.sessionInit oneFlags).ports = .announced 1232 := by
    decide +kernel
  have read : readStdinOrMgmt helloPieces = some (helloData, []) := by decide +kernel
  obtain ⟨taken, taken_eq, -⟩ : ∃ taken,
      oneServer.takeOver (oneBegun.sessionInit oneFlags) = some taken ∧ Agree oneBegun taken :=
    exists_takeOver oneSender oneFlags 0x1122334455667788 server_oneServer rfl
  refine ⟨taken.listen 1232, ?_⟩
  rw [initializeReceiver, read]
  simp only [known.root_hello, taken_eq, announced, known.answer]
  rfl

/-- The sender finds it. -/
theorem Known.started (known : Known flat) :
    oneBegun.readAnswer flat .everyHost oneFlags answerPieces = .started oneStarted := by
  have header_read : readFixed 6 answerPieces = some ([0, 0, 0, 52, 0, 8], [answerData]) := by
    decide +kernel
  have body_read : readFixed (fromHeader [0, 0, 0, 52, 0, 8]).1.toNat [answerData] =
      some (answerData, []) := by
    decide +kernel
  have plain : Char.ofNat 0 ∉ oneFlags.host.toList := by decide
  have found : PortRange.dnsLookup .everyHost oneFlags.host.toList
      (decimal (Negotiation.answer 1232).portStart) = some 1232 := by
    decide +kernel
  rw [Args.readAnswer, header_read]
  simp only [body_read, known.root_answer, if_neg plain, found]
  rfl

end Known

end Negotiation
end EScp
