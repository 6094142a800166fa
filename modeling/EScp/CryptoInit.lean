import EScp.ConnectionNonce
import EScp.DataFrame

/-!
# The first message of a connection

A `tx_worker` draws a key and a salt for its connection and sends them, encrypted under the key of
the session, as the first message.  The `rx_worker` that accepts the connection reads that message,
in whatever pieces it arrives, and goes on with the same key and salt.  All messages of a session
are encrypted under one key, so their nonces count up; the receiver keeps no account of the messages
that it has accepted.
-/

namespace EScp
namespace CryptoInit

open Network Layout

/-- What the init functions read of `struct dtn_args`.  The key is drawn in `tx_init` and reaches
the receiver in the session init message. -/
structure CryptoArgs where
  doCrypto : Bool
  sessionId : BitVec 64
  cryptoKey : List UInt8

/-- The object of a connection with its `gkey`, which is set on an encrypted connection. -/
structure KeyedObj where
  knob : NetworkObj
  gkey : Option Gcm

def fihdrCinit : Nat := 1

/-- `sizeof( struct crypto_session_init )`. -/
def csiSize : Nat := 52

/-- The first 16 bytes of `struct crypto_session_init`: `hdr_type`, `hdr_sz` and `iv`. -/
def csiHead (sessionId globalIv : BitVec 64) : List UInt8 :=
  bytesOf 2 fihdrCinit ++ bytesOf 2 csiSize ++
    (bytesOf 4 (sessionId.setWidth 32).toNat ++ bytesOf 8 globalIv.toNat)

/-- `csi.hdr_sz`. -/
def hdrSz (head : List UInt8) : Nat := numberOf ((head.drop 2).take 2)

/-- `csi.iv`. -/
def csiIv (head : List UInt8) : List UInt8 := (head.drop 4).take 12

/-- `*(uint32_t*) &key[16]`. -/
def saltOf (key : List UInt8) : BitVec 32 := BitVec.ofNat 32 (numberOf ((key.drop 16).take 4))

/-- What a `tx_worker` has begun: its object and the message it has sent. -/
structure Opening where
  object : KeyedObj
  message : List UInt8

/-- What an `rx_worker` has accepted: its object, and the bytes of the message that the tag is
for. -/
structure Acceptance where
  object : KeyedObj
  authentic : List UInt8

variable (aes : List UInt8 → Gcm) (args : CryptoArgs) (dtn : DtnArgs)

/-- `network_inittx`, where `file_randrd` returns `key` and `write` returns `written`; nothing when
`VRFY` ends the process. -/
def networkInittx (globalIv : BitVec 64) (key : List UInt8) (written : Int) : Option Opening :=
  if args.doCrypto then
    if key.length ≠ 20 then
      none
    else
      let head := csiHead args.sessionId globalIv
      let gcm := aes args.cryptoKey
      let sealedKey := gcm.encrypt (csiIv head) head key []
      if written = csiSize then
        some ⟨⟨networkInitTx (saltOf key), some (aes (key.take 16))⟩,
          head ++ sealedKey ++ gcm.tag (csiIv head) head sealedKey⟩
      else
        none
  else
    some ⟨⟨NetworkObj.ofSalt false 0, none⟩, []⟩

/-- `network_initrx`, with the pointer that `rx_worker` sets next. -/
def networkInitrx (buf : List UInt8) (pieces : List (List UInt8)) :
    Option (Acceptance × List (List UInt8)) :=
  if args.doCrypto then
    if hdrSz buf ≠ csiSize then
      none
    else
      match readFixed (hdrSz buf - 16) pieces with
      | none => none
      | some (rest, later) =>
          let gcm := aes args.cryptoKey
          let (context, key) := gcm.decUpdate (Gcm.init (csiIv buf) buf) (rest.take 20)
          if gcm.finalize context = rest.drop 20 then
            some (⟨⟨networkInitRx (saltOf key) dtn, some (aes (key.take 16))⟩,
              buf ++ rest.take 20⟩, later)
          else
            none
  else
    some (⟨⟨{ NetworkObj.ofSalt false 0 with dtn := some dtn }, none⟩, buf⟩, pieces)

/-- What `rx_worker` does with a connection before its loop. -/
def acceptConnection (pieces : List (List UInt8)) : Option (Acceptance × List (List UInt8)) :=
  match readFixed 16 pieces with
  | none => none
  | some (readBuf, pieces) => networkInitrx aes args dtn readBuf pieces

/-! ## The message -/

variable {aes} {args} {dtn}

theorem length_csiHead (sessionId globalIv : BitVec 64) :
    (csiHead sessionId globalIv).length = 16 := by
  simp [csiHead, length_bytesOf]

theorem csiIv_csiHead (sessionId globalIv : BitVec 64) : csiIv (csiHead sessionId globalIv) =
    bytesOf 4 (sessionId.setWidth 32).toNat ++ bytesOf 8 globalIv.toNat := by
  have front : (bytesOf 2 fihdrCinit ++ bytesOf 2 csiSize).length = 4 := by decide
  rw [csiIv, csiHead, List.drop_left' front]
  exact List.take_of_length_le (by simp [length_bytesOf])

theorem hdrSz_csiHead (sessionId globalIv : BitVec 64) :
    hdrSz (csiHead sessionId globalIv) = csiSize := by
  have front : (bytesOf 2 fihdrCinit).length = 2 := by decide
  rw [hdrSz, csiHead, List.append_assoc, List.drop_left' front, List.take_left' (by decide)]
  decide

/-- Two counters below 2^64 give two nonces. -/
theorem csiIv_injective {sessionId first second : BitVec 64}
    (same : csiIv (csiHead sessionId first) = csiIv (csiHead sessionId second)) :
    first = second := by
  rw [csiIv_csiHead, csiIv_csiHead] at same
  have number_eq := congrArg numberOf (List.append_cancel_left same)
  rw [numberOf_bytesOf, numberOf_bytesOf] at number_eq
  apply BitVec.eq_of_toNat_eq
  have first_wide := first.isLt
  have second_wide := second.isLt
  omega

/-- A message that has gone out, with the key in it. -/
theorem networkInittx_cases {globalIv : BitVec 64} {key : List UInt8} {written : Int}
    {opening : Opening} (crypto : args.doCrypto = true)
    (begun : networkInittx aes args globalIv key written = some opening) :
    key.length = 20 ∧
      opening.object = ⟨networkInitTx (saltOf key), some (aes (key.take 16))⟩ ∧
      ∃ sealedKey tag, opening.message = csiHead args.sessionId globalIv ++ sealedKey ++ tag ∧
        sealedKey = (aes args.cryptoKey).mask
          (Gcm.init (csiIv (csiHead args.sessionId globalIv))
            (csiHead args.sessionId globalIv)) key ∧
        tag = (aes args.cryptoKey).tag (csiIv (csiHead args.sessionId globalIv))
          (csiHead args.sessionId globalIv) sealedKey := by
  rw [networkInittx, if_pos crypto] at begun
  split at begun
  · cases begun
  · rename_i length_eq
    dsimp only at begun
    split at begun
    · obtain rfl := Option.some.inj begun
      refine ⟨not_not.mp length_eq, rfl, _, _, rfl, ?_, rfl⟩
      rw [Gcm.encrypt_eq, List.append_nil]
    · cases begun

theorem length_message {globalIv : BitVec 64} {key : List UInt8} {written : Int}
    {opening : Opening} (crypto : args.doCrypto = true)
    (begun : networkInittx aes args globalIv key written = some opening) :
    opening.message.length = csiSize := by
  obtain ⟨length_eq, -, sealedKey, tag, message_eq, sealed_eq, tag_eq⟩ :=
    networkInittx_cases crypto begun
  rw [message_eq, List.length_append, List.length_append, length_csiHead, sealed_eq,
    Gcm.length_mask, length_eq, tag_eq, Gcm.length_tag, csiSize]

/-- The ends of a connection after its first message. -/
structure Agree (dtn : DtnArgs) (sender receiver : KeyedObj) : Prop where
  gkey_eq : receiver.gkey = sender.gkey
  salt_eq : ∃ salt, sender.knob = networkInitTx salt ∧ receiver.knob = networkInitRx salt dtn

/-- What the receiver decrypts of an authentic message is the key that was drawn. -/
theorem agree_of_authentic {globalIv : BitVec 64} {key buf : List UInt8} {written : Int}
    {opening : Opening} (crypto : args.doCrypto = true)
    (begun : networkInittx aes args globalIv key written = some opening)
    {pieces later : List (List UInt8)} {acceptance : Acceptance} (buf_length : buf.length = 16)
    (accepted : networkInitrx aes args dtn buf pieces = some (acceptance, later))
    (same : opening.message.take 36 = acceptance.authentic) :
    Agree dtn opening.object acceptance.object := by
  obtain ⟨length_eq, object_eq, sealedKey, tag, message_eq, sealed_eq, -⟩ :=
    networkInittx_cases crypto begun
  have sealed_length : sealedKey.length = 20 := by rw [sealed_eq, Gcm.length_mask, length_eq]
  have front_length : (csiHead args.sessionId globalIv ++ sealedKey).length = 36 := by
    rw [List.length_append, length_csiHead, sealed_length]
  rw [message_eq, List.take_left' front_length] at same
  rw [networkInitrx, if_pos crypto] at accepted
  split at accepted
  · cases accepted
  · split at accepted
    · cases accepted
    · rename_i rest after found
      dsimp only [Gcm.decUpdate] at accepted
      split at accepted
      · obtain ⟨rfl, rfl⟩ := Prod.mk.inj (Option.some.inj accepted)
        obtain ⟨rfl, rest_eq⟩ :=
          List.append_inj same ((length_csiHead _ _).trans buf_length.symm)
        have key_eq : (aes args.cryptoKey).mask (Gcm.init
            (csiIv (csiHead args.sessionId globalIv)) (csiHead args.sessionId globalIv))
            (rest.take 20) = key := by
          rw [← rest_eq, sealed_eq, Gcm.mask_mask]
        rw [object_eq, key_eq]
        exact ⟨rfl, saltOf key, rfl, rfl⟩
      · cases accepted

variable (dtn) in
/-- The message of a `tx_worker` is accepted, in whatever pieces it arrives, and both ends then have
the same key and salt. -/
theorem acceptConnection_of_message {globalIv : BitVec 64} {key : List UInt8} {written : Int}
    {opening : Opening} (crypto : args.doCrypto = true)
    (begun : networkInittx aes args globalIv key written = some opening)
    {pieces : List (List UInt8)} {rest : List UInt8}
    (stream : Stream pieces (opening.message ++ rest)) :
    ∃ acceptance later, acceptConnection aes args dtn pieces = some (acceptance, later) ∧
      Stream later rest ∧ acceptance.authentic = opening.message.take 36 ∧
      Agree dtn opening.object acceptance.object := by
  obtain ⟨length_eq, -, sealedKey, tag, message_eq, sealed_eq, tag_eq⟩ :=
    networkInittx_cases crypto begun
  have sealed_length : sealedKey.length = 20 := by rw [sealed_eq, Gcm.length_mask, length_eq]
  have tag_length : tag.length = 16 := by rw [tag_eq, Gcm.length_tag]
  have front_length : (csiHead args.sessionId globalIv ++ sealedKey).length = 36 := by
    rw [List.length_append, length_csiHead, sealed_length]
  rw [message_eq, List.append_assoc, List.append_assoc] at stream
  obtain ⟨pieces_key, found_head, stream_key⟩ := stream.read (length_csiHead _ _)
  rw [← List.append_assoc] at stream_key
  obtain ⟨later, found_key, stream_rest⟩ := stream_key.read
    (show (sealedKey ++ tag).length = csiSize - 16 by
      rw [List.length_append, sealed_length, tag_length]
      rfl)
  have accepted : networkInitrx aes args dtn (csiHead args.sessionId globalIv) pieces_key =
      some (⟨⟨networkInitRx (saltOf key) dtn, some (aes (key.take 16))⟩,
        csiHead args.sessionId globalIv ++ sealedKey⟩, later) := by
    have key_eq : (aes args.cryptoKey).mask (Gcm.init
        (csiIv (csiHead args.sessionId globalIv)) (csiHead args.sessionId globalIv)) sealedKey =
          key := by
      rw [sealed_eq, Gcm.mask_mask]
    have tag_fits : (aes args.cryptoKey).finalize ((aes args.cryptoKey).decUpdate (Gcm.init
        (csiIv (csiHead args.sessionId globalIv)) (csiHead args.sessionId globalIv))
          sealedKey).1 = tag := by
      rw [tag_eq]
      simp [Gcm.finalize, Gcm.decUpdate, Gcm.init]
    rw [networkInitrx, if_pos crypto, hdrSz_csiHead, if_neg (by simp), found_key]
    dsimp only
    rw [List.take_left' sealed_length, List.drop_left' sealed_length, tag_fits, if_pos rfl]
    simp only [Gcm.decUpdate, key_eq]
  have authentic_eq : opening.message.take 36 = csiHead args.sessionId globalIv ++ sealedKey := by
    rw [message_eq, List.take_left' front_length]
  refine ⟨_, later, ?_, stream_rest, authentic_eq.symm,
    agree_of_authentic crypto begun (length_csiHead _ _) accepted authentic_eq⟩
  rw [acceptConnection, found_head]
  exact accepted

/-! ## All connections of a session -/

/-- Both ends of a session, with the connections that they have begun and accepted, oldest
first. -/
structure State where
  globalIv : BitVec 64
  opened : List Opening
  accepted : List Acceptance
  senderExited : Bool
  receiverExited : Bool

/-- One step. -/
inductive Label where
  /-- A `tx_worker` calls `network_inittx`. -/
  | connect (key : List UInt8) (written : Int)
  /-- An `rx_worker` begins with the bytes that the adversary delivers. -/
  | accept (pieces : List (List UInt8))

variable (aes) (args) (dtn)

/-- One step. -/
def next (state : State) : Label → Option State
  | .connect key written =>
      if state.senderExited then
        none
      else
        match networkInittx aes args state.globalIv key written with
        | none => some { state with globalIv := state.globalIv + 1, senderExited := true }
        | some opening =>
            some { state with
              globalIv := state.globalIv + 1
              opened := state.opened ++ [opening] }
  | .accept pieces =>
      if state.receiverExited then
        none
      else
        match acceptConnection aes args dtn pieces with
        | none => some { state with receiverExited := true }
        | some (acceptance, _) =>
            some { state with accepted := state.accepted ++ [acceptance] }

def State.init : State := ⟨0, [], [], false, false⟩

/-- One session. -/
def machine : Machine State Label where
  initial state := state = .init
  next := next aes args dtn

/-- The encryption is ideal: a message is taken for authentic only if a `tx_worker` has sent its
header and its ciphertext. -/
def Ideal (state : State) : Label → Prop
  | .connect _ _ => True
  | .accept pieces =>
      match acceptConnection aes args dtn pieces with
      | none => True
      | some (acceptance, _) =>
          ∃ opening ∈ state.opened, opening.message.take 36 = acceptance.authentic

instance (state : State) (label : Label) : Decidable (Ideal aes args dtn state label) := by
  unfold Ideal
  split
  · infer_instance
  · split <;> infer_instance

variable {aes} {args} {dtn}

/-- The nonce of the message that has begun a connection. -/
def Opening.iv (opening : Opening) : List UInt8 := csiIv opening.message

/-- The nonces are those of the counters from 0 on, and the accepted connections have been begun. -/
structure Inv (aes : List UInt8 → Gcm) (args : CryptoArgs) (dtn : DtnArgs) (state : State) :
    Prop where
  counted : state.senderExited = false → state.globalIv = BitVec.ofNat 64 state.opened.length
  ivs : state.opened.map Opening.iv = (List.range state.opened.length).map fun count =>
    csiIv (csiHead args.sessionId (BitVec.ofNat 64 count))
  begun : ∀ opening ∈ state.opened, ∃ globalIv key written,
    networkInittx aes args globalIv key written = some opening
  agree : ∀ acceptance ∈ state.accepted, ∃ opening ∈ state.opened,
    Agree dtn opening.object acceptance.object

theorem iv_of_begun {globalIv : BitVec 64} {key : List UInt8} {written : Int} {opening : Opening}
    (crypto : args.doCrypto = true)
    (begun : networkInittx aes args globalIv key written = some opening) :
    opening.iv = csiIv (csiHead args.sessionId globalIv) := by
  obtain ⟨-, -, sealedKey, tag, message_eq, -, -⟩ := networkInittx_cases crypto begun
  have head_length := length_csiHead args.sessionId globalIv
  rw [Opening.iv, csiIv, message_eq, List.append_assoc,
    List.drop_append_of_le_length (by omega),
    List.take_append_of_le_length (by rw [List.length_drop]; omega), csiIv]

theorem Inv.init : Inv aes args dtn .init where
  counted _ := rfl
  ivs := rfl
  begun _ mem := by cases mem
  agree _ mem := by cases mem

variable {state after : State}

theorem Inv.connect (inv : Inv aes args dtn state) (crypto : args.doCrypto = true)
    (alive : state.senderExited = false) {key : List UInt8} {written : Int} {opening : Opening}
    (begun : networkInittx aes args state.globalIv key written = some opening) :
    Inv aes args dtn { state with
      globalIv := state.globalIv + 1
      opened := state.opened ++ [opening] } where
  counted _ := by
    change state.globalIv + 1 = BitVec.ofNat 64 (state.opened ++ [opening]).length
    rw [inv.counted alive, List.length_append, BitVec.ofNat_add]
    rfl
  ivs := by
    rw [List.map_append, List.length_append, List.length_singleton, List.range_succ,
      List.map_append, inv.ivs]
    simp only [List.map_cons, List.map_nil, iv_of_begun crypto begun, inv.counted alive]
  begun other mem := by
    rcases List.mem_append.mp mem with mem | mem
    · exact inv.begun other mem
    · rw [List.mem_singleton.mp mem]
      exact ⟨_, _, _, begun⟩
  agree acceptance mem := by
    obtain ⟨other, found, agree⟩ := inv.agree acceptance mem
    exact ⟨other, List.mem_append_left _ found, agree⟩

theorem Inv.accept (inv : Inv aes args dtn state) (crypto : args.doCrypto = true)
    {pieces later : List (List UInt8)} {acceptance : Acceptance}
    (accepted : acceptConnection aes args dtn pieces = some (acceptance, later))
    (ideal : ∃ opening ∈ state.opened, opening.message.take 36 = acceptance.authentic) :
    Inv aes args dtn { state with accepted := state.accepted ++ [acceptance] } where
  counted := inv.counted
  ivs := inv.ivs
  begun := inv.begun
  agree other mem := by
    rcases List.mem_append.mp mem with mem | mem
    · exact inv.agree other mem
    · rw [List.mem_singleton.mp mem]
      obtain ⟨opening, found, same⟩ := ideal
      obtain ⟨globalIv, key, written, begun⟩ := inv.begun opening found
      rw [acceptConnection] at accepted
      split at accepted
      · cases accepted
      · rename_i buf pieces_after read
        exact ⟨opening, found,
          agree_of_authentic crypto begun (readFixed_sound read).1 accepted same⟩

theorem Inv.next (inv : Inv aes args dtn state) (crypto : args.doCrypto = true) {label : Label}
    (ideal : Ideal aes args dtn state label)
    (taken : CryptoInit.next aes args dtn state label = some after) :
    Inv aes args dtn after := by
  cases label with
  | connect key written =>
      rw [CryptoInit.next] at taken
      split at taken
      · cases taken
      · rename_i alive
        split at taken
        · obtain rfl := Option.some.inj taken
          exact ⟨fun running => (Bool.noConfusion running), inv.ivs, inv.begun, inv.agree⟩
        · rename_i opening begun
          obtain rfl := Option.some.inj taken
          exact inv.connect crypto (Bool.eq_false_iff.mpr alive) begun
  | accept pieces =>
      rw [CryptoInit.next] at taken
      split at taken
      · cases taken
      · split at taken
        · obtain rfl := Option.some.inj taken
          exact ⟨inv.counted, inv.ivs, inv.begun, inv.agree⟩
        · rename_i acceptance later accepted
          obtain rfl := Option.some.inj taken
          rw [Ideal, accepted] at ideal
          exact inv.accept crypto accepted ideal

/-- What holds of the connections of a session. -/
structure Sound (dtn : DtnArgs) (state : State) : Prop where
  /-- No nonce is used twice under the key of the session. -/
  nodup : state.opened.length ≤ 2 ^ 64 → (state.opened.map Opening.iv).Nodup
  /-- Each accepted connection has the key and the salt of one that has been begun. -/
  agree : ∀ acceptance ∈ state.accepted, ∃ opening ∈ state.opened,
    Agree dtn opening.object acceptance.object

/-- Whatever bytes the adversary delivers, the receiver only takes keys that the sender has drawn,
and the sender never repeats a nonce in 2^64 connections. -/
theorem keys_of_reached (crypto : args.doCrypto = true)
    (reached : (machine aes args dtn).ReachedUnder (Ideal aes args dtn) state) :
    Sound dtn state := by
  have inv : Inv aes args dtn state := by
    refine reached.invariant _ ?_ ?_
    · rintro _ rfl
      exact .init
    · intro before label after inv ideal taken
      exact inv.next crypto ideal taken
  refine ⟨fun few => ?_, inv.agree⟩
  rw [inv.ivs]
  refine List.Nodup.map_on ?_ List.nodup_range
  intro first first_mem second second_mem same
  have number_eq := congrArg BitVec.toNat (csiIv_injective same)
  rw [List.mem_range] at first_mem second_mem
  rw [BitVec.toNat_ofNat, BitVec.toNat_ofNat, Nat.mod_eq_of_lt (by omega),
    Nat.mod_eq_of_lt (by omega)] at number_eq
  exact number_eq

/-! ## A message delivered twice -/

/-- AES-128-GCM under the key 10 11 .. 1f for the first connection of a session, and under the key
00 01 .. 0f for the first frame of that connection. -/
def firstAes (key : List UInt8) : Gcm :=
  if key = [16, 17, 18, 19, 20, 21, 22, 23, 24, 25, 26, 27, 28, 29, 30, 31] then
    { keystream := fun nonce index =>
        if nonce = [136, 119, 102, 85, 0, 0, 0, 0, 0, 0, 0, 0] then
          [212, 207, 192, 67, 75, 84, 209, 191, 241, 220, 9, 88, 18, 19, 45, 182, 13, 105, 102,
            206].getD index 0
        else
          0
      tag := fun nonce _ _ =>
        if nonce = [136, 119, 102, 85, 0, 0, 0, 0, 0, 0, 0, 0] then
          [170, 33, 240, 246, 169, 25, 155, 228, 219, 160, 163, 122, 26, 56, 5, 214]
        else
          List.replicate 16 0
      length_tag := by
        intro nonce aad ciphertext
        split <;> rfl }
  else
    firstFrameGcm

def firstArgs : CryptoArgs where
  doCrypto := true
  sessionId := 0x1122334455667788
  cryptoKey := [16, 17, 18, 19, 20, 21, 22, 23, 24, 25, 26, 27, 28, 29, 30, 31]

/-- The key 00 01 .. 0f and the salt 0x5eed. -/
def firstKey : List UInt8 :=
  [0, 1, 2, 3, 4, 5, 6, 7, 8, 9, 10, 11, 12, 13, 14, 15, 0xed, 0x5e, 0, 0]

def firstMessage : List UInt8 :=
  [1, 0, 52, 0, 136, 119, 102, 85, 0, 0, 0, 0, 0, 0, 0, 0, 212, 206, 194, 64, 79, 81, 215, 184,
    249, 213, 3, 83, 30, 30, 35, 185, 224, 55, 102, 206, 170, 33, 240, 246, 169, 25, 155, 228, 219,
    160, 163, 122, 26, 56, 5, 214]

/-- The adversary delivers the first message of a connection to two `rx_worker`. -/
def repeatedLabels : List Label :=
  [.connect firstKey 52, .accept [firstMessage.take 30, firstMessage.drop 30],
    .accept [firstMessage]]

theorem repeated_run : ∃ state, ((machine firstAes firstArgs ⟨true, 262144⟩).restrict
    (Ideal firstAes firstArgs ⟨true, 262144⟩)).run .init repeatedLabels = some state ∧
    state.opened.length = 1 ∧ state.accepted.length = 2 :=
  ⟨_, rfl, by decide +kernel, by decide +kernel⟩

/-- Two `rx_worker` hold the key of one connection. -/
theorem keys_of_repeated : ∃ state, ((machine firstAes firstArgs ⟨true, 262144⟩).restrict
    (Ideal firstAes firstArgs ⟨true, 262144⟩)).run .init repeatedLabels = some state ∧
    state.opened.length = 1 ∧ state.accepted.length = 2 ∧ Sound ⟨true, 262144⟩ state := by
  obtain ⟨state, run, begun, accepted⟩ := repeated_run
  exact ⟨state, run, begun, accepted, keys_of_reached rfl (.of_restrict
    (Machine.reached_of_run rfl repeatedLabels run))⟩

end CryptoInit
end EScp
