import EScp.FrameReplay

/-!
# What a call of network_recv takes from a connection

A frame that `network_recv` returns lies at the front of the connection: the IV header, the
ciphertext and the tag.  The value returned counts the bytes of a data frame; of a metadata frame it
leaves the first part and the body out.  A frame of metadata or a BYE comes back as it was sent,
like a block.
-/

namespace EScp
namespace Network

open Layout
open Replay (sendWhole frameNonce nonce_eq_frameNonce recvFrame_genuine recvMeta_opened
  recvShort_opened)

/-- `mi->hdr == 0xB43`. -/
def isBye (head : List UInt8) : Bool := decide (numberOf ((head.drop 4).take 2) = 0xB43)

/-- What `network_recv` returns for a metadata frame. -/
def metaValue (head : List UInt8) : BitVec 64 := (if isBye head then 8 ||| byeFlag else 8) + 16

theorem metaValue_eq (head : List UInt8) :
    (if numberOf ((head.drop 4).take 2) = 0xB43 then 8 ||| byeFlag else 8) + 16 =
      metaValue head := by
  simp only [metaValue, isBye, decide_eq_true_eq]

/-- What a frame that is returned has taken from the connection. -/
structure Taken (pieces later : List (List UInt8)) (value : BitVec 64) (subheader : UInt16)
    (opened : Opened) : Prop where
  wire : ∃ header tag : List UInt8, header.length = 8 ∧ tag.length = 16 ∧
    opened.aad = BitVec.ofNat 64 (numberOf header) ∧
    pieces.flatten = header ++ (opened.ciphertext ++ (tag ++ later.flatten))
  length_eq : opened.ciphertext.length = opened.head.length + opened.body.length
  kind : (subheader = fihdrShort ∧ opened.head.length = 20 ∧ opened.body.length < 2 ^ 31 ∧
      value = BitVec.ofNat 64 (44 + opened.body.length)) ∨
    (subheader = fihdrMeta ∧ opened.head.length = 16 ∧ value = metaValue opened.head)

variable {gcm : Gcm} {zstd : Zstd}

theorem recvTag_sound {context : Gcm.Context} {pieces later : List (List UInt8)}
    (received : recvTag gcm context pieces = some later) :
    ∃ tag : List UInt8, tag.length = 16 ∧ pieces.flatten = tag ++ later.flatten := by
  rw [recvTag] at received
  split at received
  · cases received
  · rename_i tag after read
    obtain ⟨length_eq, flatten_eq⟩ := readFixed_sound read
    split at received
    · obtain rfl := Option.some.inj received
      exact ⟨tag, length_eq, flatten_eq⟩
    · cases received

/-- The two parts of a frame and its tag, put together. -/
theorem Taken.of_parts {pieces middle last later : List (List UInt8)} {header : List UInt8}
    {opened : Opened} {value : BitVec 64} {subheader : UInt16} {sealedHead sealedBody : List UInt8}
    {begin : List (List UInt8)} (header_length : header.length = 8)
    (aad_eq : opened.aad = BitVec.ofNat 64 (numberOf header))
    (header_read : pieces.flatten = header ++ begin.flatten)
    (head_read : begin.flatten = sealedHead ++ middle.flatten)
    (body_read : middle.flatten = sealedBody ++ last.flatten)
    (tag_read : ∃ tag : List UInt8, tag.length = 16 ∧ last.flatten = tag ++ later.flatten)
    (ciphertext_eq : opened.ciphertext = sealedHead ++ sealedBody)
    (head_length : sealedHead.length = opened.head.length)
    (body_length : sealedBody.length = opened.body.length)
    (kind : (subheader = fihdrShort ∧ opened.head.length = 20 ∧ opened.body.length < 2 ^ 31 ∧
        value = BitVec.ofNat 64 (44 + opened.body.length)) ∨
      (subheader = fihdrMeta ∧ opened.head.length = 16 ∧ value = metaValue opened.head)) :
    Taken pieces later value subheader opened := by
  obtain ⟨tag, tag_length, last_eq⟩ := tag_read
  refine ⟨⟨header, tag, header_length, tag_length, aad_eq, ?_⟩, ?_, kind⟩
  · rw [header_read, head_read, body_read, last_eq, ciphertext_eq, List.append_assoc]
  · rw [ciphertext_eq, List.length_append, head_length, body_length]

/-- A length without the mark is below 2^31. -/
theorem lt_of_unmarked {sz : BitVec 32} (unmarked : ¬sz.signExtend 64 &&& compressedFlag ≠ 0) :
    (sz.signExtend 64).toNat < 2 ^ 31 := by
  refine Nat.lt_pow_two_of_testBit _ fun index high => ?_
  by_cases inside : index < 64
  · have bit : (sz.signExtend 64 &&& compressedFlag).getLsbD index = false := by
      rw [not_not.mp unmarked]
      simp
    rw [BitVec.getLsbD_and, compressedFlag_getLsbD inside, decide_eq_true high,
      Bool.and_true] at bit
    rw [BitVec.testBit_toNat]
    exact bit
  · rw [BitVec.testBit_toNat]
    exact BitVec.getLsbD_of_ge _ _ (by omega)

/-- A length whose mark has been cleared is below 2^31. -/
theorem and_not_flag_lt (value : BitVec 64) : (value &&& ~~~compressedFlag).toNat < 2 ^ 31 := by
  refine Nat.lt_pow_two_of_testBit _ fun index high => ?_
  rw [BitVec.testBit_toNat]
  by_cases inside : index < 64
  · rw [BitVec.getLsbD_and, BitVec.getLsbD_not, compressedFlag_getLsbD inside]
    simp [high]
  · exact BitVec.getLsbD_of_ge _ _ (by omega)

theorem recvShort_value {blockSz : BitVec 64} (length : Nat) (length_eq : length = blockSz.toNat) :
    8 + 20 + blockSz + 16 = BitVec.ofNat 64 (44 + length) := by
  apply BitVec.eq_of_toNat_eq
  rw [length_eq, BitVec.toNat_add, BitVec.toNat_add, BitVec.toNat_ofNat]
  change ((28 + blockSz.toNat) % 2 ^ 64 + 16) % 2 ^ 64 = _
  omega

variable {receiver after : Receiver} {pieces later : List (List UInt8)} {value : BitVec 64}
  {subheader : UInt16} {opened : Opened}

theorem recvShort_taken {aad : BitVec 64} {context : Gcm.Context} {whole : List (List UInt8)}
    {header : List UInt8} (header_length : header.length = 8)
    (aad_eq : aad = BitVec.ofNat 64 (numberOf header))
    (header_read : whole.flatten = header ++ pieces.flatten)
    (received : recvShort gcm zstd receiver aad context pieces =
      .frame value after subheader opened later) : Taken whole later value subheader opened := by
  rw [recvShort] at received
  split at received
  · cases received
  · rename_i sealedHead middle head_found
    obtain ⟨head_length, head_read⟩ := readFixed_sound head_found
    dsimp only at received
    split at received
    · cases received
    · split at received
      · split at received
        · cases received
        · rename_i sealedBody last body_found
          obtain ⟨body_length, body_read⟩ := readFixed_sound body_found
          split at received
          · cases received
          · split at received
            · cases received
            · rename_i tag_found
              obtain ⟨rfl, -, rfl, rfl, rfl⟩ := Received.frame.inj received
              refine Taken.of_parts header_length aad_eq header_read head_read body_read
                (recvTag_sound tag_found) rfl (Gcm.length_mask _ _).symm (Gcm.length_mask _ _).symm
                (.inl ⟨rfl, (Gcm.length_mask _ _).trans head_length, ?_, ?_⟩)
              · refine (Gcm.length_mask _ _).trans_lt ?_
                rw [body_length]
                exact and_not_flag_lt _
              · exact recvShort_value _ ((Gcm.length_mask _ _).trans body_length)
      · rename_i unmarked
        split at received
        · cases received
        · split at received
          · cases received
          · rename_i sealedBody last body_found
            obtain ⟨body_length, body_read⟩ := readFixed_sound body_found
            split at received
            · cases received
            · rename_i tag_found
              obtain ⟨rfl, -, rfl, rfl, rfl⟩ := Received.frame.inj received
              refine Taken.of_parts header_length aad_eq header_read head_read body_read
                (recvTag_sound tag_found) rfl (Gcm.length_mask _ _).symm (Gcm.length_mask _ _).symm
                (.inl ⟨rfl, (Gcm.length_mask _ _).trans head_length, ?_, ?_⟩)
              · refine (Gcm.length_mask _ _).trans_lt ?_
                rw [body_length]
                exact lt_of_unmarked unmarked
              · exact recvShort_value _ ((Gcm.length_mask _ _).trans body_length)

theorem recvMeta_taken {aad : BitVec 64} {context : Gcm.Context} {whole : List (List UInt8)}
    {header : List UInt8} (header_length : header.length = 8)
    (aad_eq : aad = BitVec.ofNat 64 (numberOf header))
    (header_read : whole.flatten = header ++ pieces.flatten)
    (received : recvMeta gcm receiver aad context pieces =
      .frame value after subheader opened later) : Taken whole later value subheader opened := by
  rw [recvMeta] at received
  split at received
  · cases received
  · rename_i sealedHead middle head_found
    obtain ⟨head_length, head_read⟩ := readFixed_sound head_found
    dsimp only at received
    split at received
    · cases received
    · split at received
      · cases received
      · rename_i sealedBody last body_found
        obtain ⟨body_length, body_read⟩ := readFixed_sound body_found
        split at received
        · cases received
        · rename_i tag_found
          obtain ⟨rfl, -, rfl, rfl, rfl⟩ := Received.frame.inj received
          refine Taken.of_parts header_length aad_eq header_read head_read body_read
            (recvTag_sound tag_found) rfl (Gcm.length_mask _ _).symm (Gcm.length_mask _ _).symm
            (.inr ⟨rfl, (Gcm.length_mask _ _).trans head_length, metaValue_eq _⟩)

/-- What `network_recv` has taken from the connection for a frame. -/
theorem recvFrame_taken (received : recvFrame gcm zstd receiver pieces =
    .frame value after subheader opened later) : Taken pieces later value subheader opened := by
  rw [recvFrame] at received
  split at received
  · cases received
  · rename_i header middle header_found
    obtain ⟨header_length, header_read⟩ := readFixed_sound header_found
    dsimp only at received
    split at received
    · exact recvShort_taken header_length rfl header_read received
    · exact recvMeta_taken header_length rfl header_read received

theorem Taken.length (taken : Taken pieces later value subheader opened) :
    pieces.flatten.length =
      24 + opened.head.length + opened.body.length + later.flatten.length := by
  obtain ⟨header, tag, header_length, tag_length, -, flatten_eq⟩ := taken.wire
  rw [flatten_eq, List.length_append, List.length_append, List.length_append, taken.length_eq,
    header_length, tag_length]
  omega

/-! ## Frames that come back as they were sent -/

variable {lead : Nat} {counted : NetworkObj} {head body rest : List UInt8}

theorem header_number (counted : NetworkObj) :
    BitVec.ofNat 64 (numberOf (bytesOf 8 counted.ivIncr.toNat)) = counted.ivIncr := by
  have wide := counted.ivIncr.isLt
  have value : counted.ivIncr.toNat % 256 ^ 8 = counted.ivIncr.toNat := by omega
  rw [numberOf_bytesOf, value, BitVec.ofNat_toNat, BitVec.setWidth_eq]

/-- What is taken for a frame that stands at the front is that frame. -/
theorem Taken.sent_eq (taken : Taken pieces later value subheader opened)
    (whole : pieces.flatten = frameBytes gcm counted head body ++ rest)
    (left : later.flatten = rest) :
    opened.aad = counted.ivIncr ∧ opened.ciphertext =
      gcm.encrypt counted.nonce (bytesOf 8 counted.ivIncr.toNat) head body := by
  obtain ⟨header, tag, header_length, tag_length, aad_eq, flatten_eq⟩ := taken.wire
  rw [flatten_eq, frameBytes, List.append_assoc, List.append_assoc, left] at whole
  obtain ⟨rfl, ciphertext_eq⟩ :=
    List.append_inj whole (header_length.trans (length_bytesOf _ _).symm)
  rw [← List.append_assoc, ← List.append_assoc] at ciphertext_eq
  have tags_length : tag.length = (gcm.tag counted.nonce (bytesOf 8 counted.ivIncr.toNat)
      (gcm.encrypt counted.nonce (bytesOf 8 counted.ivIncr.toNat) head body)).length := by
    rw [tag_length, gcm.length_tag]
  exact ⟨aad_eq.trans (header_number counted),
    (List.append_inj' (List.append_cancel_right ciphertext_eq) tags_length).1⟩

/-- A frame that stands at the front is decrypted to what was encrypted. -/
theorem opened_of_stream (lead_eq : receiver.knob.lead = lead) (counted_lead : counted.lead = lead)
    (received : recvFrame gcm zstd receiver pieces = .frame value after subheader opened later)
    (whole : pieces.flatten = frameBytes gcm counted head body ++ rest)
    (left : later.flatten = rest) : opened.head ++ opened.body = head ++ body := by
  obtain ⟨aad_eq, ciphertext_eq⟩ := (recvFrame_taken received).sent_eq whole left
  have text_eq : opened.head ++ opened.body =
      gcm.mask (Gcm.init (frameNonce lead opened.aad) []) opened.ciphertext :=
    (recvFrame_genuine lead_eq received).2
  have nonce_eq := nonce_eq_frameNonce counted
  rw [counted_lead] at nonce_eq
  rw [text_eq, ciphertext_eq, Gcm.encrypt_eq, aad_eq, ← nonce_eq]
  exact Gcm.mask_mask _ _

/-- The object after a call is the one that the header has left. -/
theorem recvFrame_knob (received : recvFrame gcm zstd receiver pieces =
    .frame value after subheader opened later) :
    after.knob = (networkRecv receiver.knob opened.aad).1 := by
  rw [recvFrame] at received
  split at received
  · cases received
  · dsimp only at received
    split at received
    · obtain ⟨knob_eq, aad_eq, -⟩ := recvShort_opened received
      rw [knob_eq, aad_eq]
    · obtain ⟨knob_eq, aad_eq, -⟩ := recvMeta_opened received
      rw [knob_eq, aad_eq]

/-- The block of the next frame is returned with what it was sent as. -/
theorem recvFrame_block {blkSz : Nat} (ready : Ready lead blkSz receiver) (small : blkSz < 2 ^ 31)
    (counted_lead : counted.lead = lead) (short : counted.ivIncr.getLsbD 62 = true) {block : Block}
    (fits : Fits blkSz block) {sz : BitVec 32} (encodes : Encodes zstd blkSz block sz body)
    (stream : Stream pieces (frameBytes gcm counted (infoBytes block sz) body ++ rest)) :
    ∃ after opened later, recvFrame gcm zstd receiver pieces =
        .frame (BitVec.ofNat 64 (44 + body.length)) after fihdrShort opened later ∧
      opened.head = infoBytes block sz ∧ opened.body = body ∧
      after.knob.block.toNat = blkSz ∧ Stream later rest ∧
      after.delivery fihdrShort = block.delivery ∧
      Ready lead blkSz { after with fetched := after.fetched - 1 } := by
  obtain ⟨value, after, opened, later, received, left, delivery_eq, ready_after⟩ :=
    recvFrame_of_stream ready small counted_lead short fits encodes stream
  have text_eq := opened_of_stream ready.lead_eq counted_lead received stream.whole left.whole
  have not_meta : fihdrShort ≠ fihdrMeta := by decide
  have knob_eq := recvFrame_knob received
  rw [((recvFrame_taken received).sent_eq stream.whole left.whole).1,
    networkRecv_short short] at knob_eq
  obtain ⟨dtn, found_dtn, dtn_block, known⟩ := ready.block_eq
  have block_eq : after.knob.block.toNat = blkSz := by
    rw [knob_eq, (attach_block (receiver.knob.setIvIncr counted.ivIncr) found_dtn known).1,
      dtn_block]
  obtain ⟨-, head_length, -, value_eq⟩ | ⟨type_eq, -⟩ := (recvFrame_taken received).kind
  · obtain ⟨head_eq, body_eq⟩ :=
      List.append_inj text_eq (head_length.trans (length_infoBytes block sz).symm)
    rw [value_eq, body_eq] at received
    exact ⟨after, opened, later, received, head_eq, body_eq, block_eq, left, delivery_eq,
      ready_after⟩
  · exact (not_meta type_eq).elim

/-- The one call of `network_send` for a frame in one part. -/
theorem sendPayload_whole {length : Nat} (positive : 0 < length) (small : length < 2 ^ 31)
    (subheader : UInt16) (header : Int) :
    ∃ value, sendPayload ⟨false, subheader⟩ ⟨header, length, 16⟩ 8 = (value, false) ∧
      0 < value.toInt := by
  have value_eq := ofInt_length_toNat small
  have not_less : ¬BitVec.ofInt 64 (length : Int) < 1 := by
    intro less
    rw [BitVec.lt_def, value_eq] at less
    change length < 1 at less
    omega
  have tagged : (BitVec.ofInt 64 (length : Int) + BitVec.ofInt 64 16).toNat = length + 16 := by
    rw [BitVec.toNat_add, value_eq]
    change (length + 16) % 2 ^ 64 = length + 16
    omega
  have not_less_tagged : ¬BitVec.ofInt 64 (length : Int) + BitVec.ofInt 64 16 < 1 := by
    intro less
    rw [BitVec.lt_def, tagged] at less
    change length + 16 < 1 at less
    omega
  refine ⟨8 + BitVec.ofInt 64 length + (BitVec.ofInt 64 length + BitVec.ofInt 64 16), ?_, ?_⟩
  · simp only [sendPayload, if_neg not_less, if_neg not_less_tagged, Bool.false_eq_true, if_false]
  · have sum : (8 + BitVec.ofInt 64 (length : Int) +
        (BitVec.ofInt 64 (length : Int) + BitVec.ofInt 64 16)).toNat = 2 * length + 24 := by
      rw [BitVec.toNat_add, BitVec.toNat_add, value_eq, tagged]
      change ((8 + length) % 2 ^ 64 + (length + 16)) % 2 ^ 64 = _
      omega
    exact toInt_pos (by omega) (by omega)

/-- A frame in one part goes out unless the counter has come to its end. -/
theorem sendWhole_eq {knob : NetworkObj} (crypto : knob.doCrypto = true) (subheader : UInt16)
    (head_length : 0 < head.length ∧ head.length < 2 ^ 31) :
    sendWhole gcm knob subheader head =
      if (knob.count subheader).ivIncr.getLsbD 61 then
        none
      else
        some (knob.count subheader, frameBytes gcm (knob.count subheader) head []) := by
  obtain ⟨value, written, value_pos⟩ :=
    sendPayload_whole head_length.1 head_length.2 subheader 8
  have header_written : ¬(8 : BitVec 64) < 8 := by decide
  have eight : BitVec.ofInt 64 8 = 8 := by decide
  have call : networkSend knob false ⟨false, subheader⟩ ⟨8, head.length, 16⟩ =
      if (knob.count subheader).ivIncr.getLsbD 61 then
        .exit
      else
        .done (knob.count subheader) false value (some (knob.count subheader).nonce) := by
    simp only [networkSend, crypto, if_true, Bool.false_eq_true, if_false, header_written, eight,
      written]
  rw [sendWhole, call]
  split_ifs with exceeded
  · rfl
  · simp only [if_pos value_pos]
    rfl

/-- The first part of a metadata frame tells how long its body is. -/
structure Framed (head body : List UInt8) : Prop where
  head_length : head.length = 16
  size_eq : numberOf (head.take 4).reverse = body.length
  small : body.length < 4 * 1024 * 1024 / 2

variable (zstd) in
/-- The metadata of the next frame is returned as it was sent. -/
theorem recvFrame_metadata (lead_eq : receiver.knob.lead = lead)
    (counted_lead : counted.lead = lead) (long : counted.ivIncr.getLsbD 62 = false)
    (framed : Framed head body)
    (stream : Stream pieces (frameBytes gcm counted head body ++ rest)) :
    ∃ after opened later, recvFrame gcm zstd receiver pieces =
        .frame (metaValue head) after fihdrMeta opened later ∧
      opened.head = head ∧ opened.body = body ∧ Stream later rest ∧ after.knob.lead = lead := by
  obtain ⟨context, context_eq⟩ : ∃ context,
      context = Gcm.init counted.nonce (bytesOf 8 counted.ivIncr.toNat) := ⟨_, rfl⟩
  have stream_parts : Stream pieces (bytesOf 8 counted.ivIncr.toNat ++
      ((gcm.encUpdate context head).2 ++
        ((gcm.encUpdate (gcm.encUpdate context head).1 body).2 ++
          (gcm.finalize (gcm.encUpdate (gcm.encUpdate context head).1 body).1 ++ rest)))) := by
    rw [context_eq, Gcm.finalize_encUpdate]
    simpa [frameBytes, Gcm.encrypt] using stream
  obtain ⟨pieces_head, found_header, stream_head⟩ := stream_parts.read (length_bytesOf _ _)
  obtain ⟨pieces_body, found_head, stream_body⟩ :=
    stream_head.read ((Gcm.length_encUpdate _ _).trans framed.head_length)
  obtain ⟨pieces_tag, found_body, stream_tag⟩ := stream_body.read (Gcm.length_encUpdate _ _)
  obtain ⟨later, found_tag, left⟩ := stream_tag.recvTag
  have not_short : counted.ivIncr &&& isFihdrShort = 0 := by
    apply BitVec.eq_of_getLsbD_eq
    intro index inside
    rw [BitVec.getLsbD_and, NetworkObj.isFihdrShort_getLsbD inside]
    by_cases at_bit : 62 = index
    · rw [← at_bit, long]
      simp
    · simp [at_bit]
  have lead_after : (networkRecv receiver.knob counted.ivIncr).1.lead = lead := by
    have iv_eq := networkRecv_iv receiver.knob counted.ivIncr
    rw [NetworkObj.lead, iv_eq]
    exact (NetworkObj.setIvIncr_lead _ _).trans lead_eq
  have nonce_eq : (networkRecv receiver.knob counted.ivIncr).1.nonce = counted.nonce := by
    have iv_eq := networkRecv_iv receiver.knob counted.ivIncr
    have iv_incr_eq : (networkRecv receiver.knob counted.ivIncr).1.ivIncr = counted.ivIncr := by
      rw [NetworkObj.ivIncr, iv_eq]
      exact NetworkObj.setIvIncr_ivIncr _ _
    rw [nonce_eq_frameNonce, nonce_eq_frameNonce, lead_after, iv_incr_eq, counted_lead]
  have received : recvFrame gcm zstd receiver pieces = .frame (metaValue head)
      { receiver with
        knob := (networkRecv receiver.knob counted.ivIncr).1
        buf := (Write.ofBytes 0 head).apply receiver.buf } fihdrMeta
      ⟨counted.ivIncr, (gcm.encUpdate context head).2 ++
        (gcm.encUpdate (gcm.encUpdate context head).1 body).2, head, body⟩ later := by
    rw [recvFrame, found_header]
    simp only [header_number]
    rw [if_neg (not_not.mpr not_short), nonce_eq, ← context_eq, recvMeta, found_head]
    simp only [Gcm.decUpdate_encUpdate]
    rw [framed.size_eq, if_neg (Nat.not_le.mpr framed.small), found_body]
    simp only [Gcm.decUpdate_encUpdate, found_tag, metaValue_eq]
  exact ⟨_, _, later, received, rfl, rfl, left, lead_after⟩

end Network
end EScp
