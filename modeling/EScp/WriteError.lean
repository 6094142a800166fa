import EScp.ControlMessage
import EScp.LogRing
import EScp.Numeral
import EScp.PrefixCode
import EScp.Text

/-!
# Write errors

When a write fails, `rx_worker` puts the number of the error and that of the file in a message for
the log.  The thread of the log on the receiver reads both numbers out of the message and sends them
to the other end, which prints them.  It reads 32 bits of a file number that has 64.
-/

namespace EScp
namespace WriteError

open ControlMessage Numeral Text
open PrefixCode (PrefixFree encodeList)
open LogRing (slotBytes)

/-! ## The receiver -/

/-- What `rx_worker` knows of a write that has failed. -/
structure Failure where
  id : UInt32
  /-- `errno`; the engine returns it with a minus sign. -/
  errno : Int32
  fileNo : UInt64
  fd : Int32
  offset : UInt64
  origSz : Int32
  known : 1 ≤ errno.toInt ∧ errno.toInt ≤ 4095

/-- What the engine returns. -/
def Failure.sz (failure : Failure) : Int32 := -failure.errno

/-- What `VRFY` adds to a message: `__FILE__`, `__LINE__`, `errno` and `strerror`. -/
structure Site where
  file : List UInt8
  line : Int
  errno : Int32
  strerror : Int32 → List UInt8

/-- `%2d`. -/
def formatPadded (value : Int) : List Char :=
  List.replicate (2 - (formatInt value).length) ' ' ++ formatInt value

/-- `%zX`. -/
def formatHex (value : UInt64) : List Char := (Nat.toDigits 16 value.toNat).map Char.toUpper

/-- `"[%2d] [en: %d] [fn: %ld] Writing File fd=%d os=%zX sz=%d"`. -/
def Failure.text (failure : Failure) : List Char :=
  '[' :: formatPadded failure.id.toInt32.toInt ++ "] [en: ".toList ++
    formatInt (-failure.sz).toInt ++ "] [fn: ".toList ++ formatInt failure.fileNo.toInt64.toInt ++
      "] Writing File fd=".toList ++ formatInt failure.fd.toInt ++ " os=".toList ++
        formatHex failure.offset ++ " sz=".toList ++ formatInt failure.origSz.toInt

/-- The message that `VRFY` hands to `dtn_error`. -/
def vrfy (site : Site) (a : List Char) : List UInt8 :=
  let place := toUtf8 " [".toList ++ site.file ++
    toUtf8 (":".toList ++ formatInt site.line ++ "]".toList)
  let reason :=
    if site.errno = 0 then [] else toUtf8 ": ".toList ++ site.strerror site.errno
  (toUtf8 ("[ERR] ".toList ++ a) ++ place ++ reason ++ toUtf8 "\n".toList).take 999

/-- White space in Unicode. -/
def isWhitespace (c : Char) : Bool :=
  (0x9 ≤ c.toNat && c.toNat ≤ 0xd) || c.toNat = 0x20 || c.toNat = 0x85 || c.toNat = 0xa0 ||
    c.toNat = 0x1680 || (0x2000 ≤ c.toNat && c.toNat ≤ 0x200a) || c.toNat = 0x2028 ||
      c.toNat = 0x2029 || c.toNat = 0x202f || c.toNat = 0x205f || c.toNat = 0x3000

/-- What `initialize_clog` hands to `parse_error` when `dtn_err_getnext` returns these bytes. -/
def initializeClog (ret : List UInt8) : Option (List Char) :=
  let c_str := ret.takeWhile fun byte => byte ≠ 0
  let d := trim isWhitespace ((fromUtf8 c_str).getD "Error decoding message".toList)
  (Text.splitAt 6 d).map Prod.snd

/-- `table Message`. -/
structure Message where
  isError : Bool
  code : Option (List Int64)
  message : Option (List Char)

/-- `[(0-9)]`. -/
def isCode (c : Char) : Bool := c = '(' || c.isDigit || c = ')'

/-- The number of a match of `\[..: [(0-9)]+` and the position behind it, both zero without a
match. -/
def parseCode (label errmsg : List Char) : Option (Nat × Int32) :=
  match find label isCode errmsg with
  | none => some (0, 0)
  | some (end', s) => (Text.splitAt 5 s).bind fun parts =>
      (parseSigned (2 ^ 31) parts.2).map fun value => (end', Int32.ofInt value)

/-- `parse_error` up to the message that it builds. -/
def parseError (errmsg : List Char) : Option Message :=
  (parseCode "[en: ".toList errmsg).bind fun errno =>
    (parseCode "[fn: ".toList errmsg).bind fun fino =>
      let end' := max errno.1 fino.1
      let end' := if 0 < end' then end' + 2 else end'
      (Text.splitAt end' errmsg).map fun parts =>
        ⟨true, some [fino.2.toInt64, errno.2.toInt64], some parts.2⟩

/-- The message of a write that has failed, when `dtn_error` has stored it and `dtn_err_getnext`
has returned it. -/
def report (site : Site) (failure : Failure) : Option Message :=
  (initializeClog (slotBytes (vrfy site failure.text))).bind parseError

/-! ## The connection -/

/-- The bytes of the strings of a list, and the codes in it. -/
def textSize (messages : List Message) : Nat :=
  (messages.map fun message => message.message.elim 0 size).sum

def codeCount (messages : List Message) : Nat :=
  (messages.map fun message => message.code.elim 0 List.length).sum

/-- The flat buffers of message lists: what a builder has finished, and the messages of `root`,
which fails on what it does not accept.  A buffer holds its strings and codes and little more, and
it is read again, whatever follows it. -/
structure MessageBuffers where
  finishedData : List Message → List UInt8
  root : List UInt8 → Option (List Message)
  size_le : ∀ messages, (finishedData messages).length ≤
    2 * textSize messages + 16 * codeCount messages + 128 * (messages.length + 1)
  root_finishedData : ∀ messages rest, messages.length < 1000000 →
    (finishedData messages ++ rest).length < 2 ^ 31 →
      root (finishedData messages ++ rest) = some messages

/-- `zstd_safe::compress` succeeds when the array is as large as `ZSTD_compressBound` wants. -/
structure BoundedZstd extends Zstd where
  compress_bound : ∀ room source, source.length + source.length / 256 + 64 ≤ room →
    (compress room source).isSome

def msgKeepalive : UInt16 := 18

def msgMessage : UInt16 := 19

section Ends

variable (zstd : BoundedZstd) (flat : MessageBuffers)

/-- The end of `parse_error`. -/
def Message.send (message : Message) : Option (List UInt8) :=
  sendCompressed zstd.toZstd 8192 (msgMessage ||| msgCompressed) (flat.finishedData [message])

/-- What `handle_msg_from_receiver` reads of a message: the file number and the error, if there are
two codes. -/
def Message.codes (message : Message) : Option (Option (UInt64 × Int32)) :=
  message.code.bind fun v => message.message.map fun _ =>
    match v with
    | fino :: errno :: _ => some (fino.toUInt64, errno.toInt32)
    | _ => none

/-- `handle_msg_from_receiver` on a list of messages.  The array `dst` is read as a whole. -/
def handleMsgFromReceiver (dst memory : List UInt8) : Option (List (Option (UInt64 × Int32))) :=
  let (sz, t) := fromHeader (memory.take 6)
  if t ≠ msgFileStat ∧ t ≠ msgKeepalive ∧ t &&& 0x1f = msgMessage then
    (zstd.decompress 16384 (body memory sz)).bind fun c =>
      (flat.root (c ++ dst.drop c.length)).bind fun messages => messages.mapM Message.codes
  else none

/-- The receiver does not panic, its message has the two codes, and the sender reads them. -/
def Reported (site : Site) (failure : Failure) : Prop :=
  ∃ message frame, report site failure = some message ∧
    message.code = some [failure.fileNo.toInt64, failure.errno.toInt64] ∧
      message.send zstd flat = some frame ∧
        ∀ dst beyond : List UInt8, dst.length = 16384 →
          handleMsgFromReceiver zstd flat dst (frame ++ beyond) =
            some [some (failure.fileNo, failure.errno)]

end Ends

/-- The first 127 bytes of the message are a text. -/
def Readable (site : Site) (failure : Failure) : Prop :=
  (fromUtf8 ((slotBytes (vrfy site failure.text)).takeWhile fun byte => byte ≠ 0)).isSome

/-! ## The message is stored -/

section Storing

variable {site : Site} {failure : Failure}

/-- The message up to the file number. -/
def Failure.lead (failure : Failure) : List Char :=
  '[' :: (formatPadded failure.id.toInt32.toInt ++ "] ".toList ++
    ("[en: ".toList ++ (formatInt failure.errno.toInt ++ "] ".toList ++
      ("[fn: ".toList ++ (formatInt failure.fileNo.toInt64.toInt ++ "] ".toList)))))

theorem text_eq (failure : Failure) :
    ∃ rest, failure.text = failure.lead ++ 'W' :: rest := by
  refine ⟨"riting File fd=".toList ++ formatInt failure.fd.toInt ++ " os=".toList ++
    formatHex failure.offset ++ " sz=".toList ++ formatInt failure.origSz.toInt, ?_⟩
  have twice : -failure.sz = failure.errno := Int32.neg_neg
  have opened : "] [en: ".toList = "] ".toList ++ "[en: ".toList := rfl
  have again : "] [fn: ".toList = "] ".toList ++ "[fn: ".toList := rfl
  have closed : "] Writing File fd=".toList = "] ".toList ++ 'W' :: "riting File fd=".toList := rfl
  simp only [Failure.text, Failure.lead, twice, opened, again, closed, List.append_assoc,
    List.cons_append]

theorem mem_formatPadded {value : Int} {c : Char} (mem : c ∈ formatPadded value) :
    c = ' ' ∨ c = '-' ∨ c.isDigit := by
  rw [formatPadded, List.mem_append] at mem
  exact mem.imp List.eq_of_mem_replicate mem_formatInt

theorem length_formatPadded_le {value : Int} (small : value.natAbs < 10 ^ 10) :
    (formatPadded value).length ≤ 11 := by
  have length := length_formatInt_le (by decide) small
  rw [formatPadded, List.length_append, List.length_replicate]
  omega

theorem plain_lead (failure : Failure) : ∀ c ∈ failure.lead, Plain c := by
  have number : ∀ (value : Int) (c : Char), c ∈ formatInt value → Plain c := by
    intro value c mem
    obtain rfl | digit := mem_formatInt mem
    · decide
    · exact plain_of_isDigit digit
  have padded : ∀ (value : Int) (c : Char), c ∈ formatPadded value → Plain c := by
    intro value c mem
    obtain rfl | rfl | digit := mem_formatPadded mem
    · decide
    · decide
    · exact plain_of_isDigit digit
  have between : ∀ c ∈ "] ".toList, Plain c := plain_of_all rfl
  have first : ∀ c ∈ "[en: ".toList, Plain c := plain_of_all rfl
  have second : ∀ c ∈ "[fn: ".toList, Plain c := plain_of_all rfl
  simp only [Failure.lead, List.forall_mem_cons, List.forall_mem_append]
  exact ⟨by decide, ⟨padded _, between⟩, first, ⟨number _, between⟩, second, number _, between⟩

theorem length_lead_le (failure : Failure) : failure.lead.length ≤ 64 := by
  have known := failure.known
  have id_low := failure.id.toInt32.le_toInt
  have id_high := failure.id.toInt32.toInt_lt
  have file_low := failure.fileNo.toInt64.le_toInt
  have file_high := failure.fileNo.toInt64.toInt_lt
  have id := @length_formatPadded_le failure.id.toInt32.toInt (by omega)
  have errno := @length_formatInt_le failure.errno.toInt 4 (by decide) (by omega)
  have file := @length_formatInt_le failure.fileNo.toInt64.toInt 19 (by decide) (by omega)
  have between : "] ".toList.length = 2 := rfl
  have first : "[en: ".toList.length = 5 := rfl
  have second : "[fn: ".toList.length = 5 := rfl
  simp only [Failure.lead, List.length_cons, List.length_append, between, first, second]
  omega

/-- The beginning of a message is stored and read as it is. -/
theorem takeWhile_slotBytes {start : List UInt8} (nonzero : ∀ byte ∈ start, byte ≠ 0)
    (short : start.length ≤ 127) (rest : List UInt8) :
    ∃ kept : List UInt8, start.length + kept.length ≤ 127 ∧
      (slotBytes (start ++ rest)).takeWhile (fun byte => byte ≠ 0) = start ++ kept := by
  have bytes : ∀ byte ∈ start, (decide (byte ≠ 0)) = true := by simpa using nonzero
  let room := (rest.takeWhile (fun byte => byte ≠ 0) ++ List.replicate 128 0).take
    (127 - start.length)
  have stored : slotBytes (start ++ rest) = start ++ (room ++ [0]) := by
    have limit : LogRing.msgSz - 1 = 127 := rfl
    rw [slotBytes]
    simp only [List.takeWhile_append_of_pos bytes]
    rw [limit, List.append_assoc, List.take_append, List.take_of_length_le short, List.append_assoc]
    rfl
  refine ⟨(room ++ [0]).takeWhile fun byte => byte ≠ 0, ?_, ?_⟩
  · have size : room.length ≤ 127 - start.length := List.length_take_le _ _
    rw [List.takeWhile_append]
    split
    · simp
      omega
    · have shorter := (List.takeWhile_prefix (fun byte => decide (byte ≠ 0)) (l := room)).length_le
      omega
  · rw [stored, List.takeWhile_append_of_pos bytes]

/-- The message up to the word behind the file number, as `VRFY` writes it. -/
def Failure.start (failure : Failure) : List Char :=
  '[' :: ("ERR] ".toList ++ (failure.lead ++ ['W']))

theorem plain_start (failure : Failure) : ∀ c ∈ failure.start, Plain c := by
  have word : ∀ c ∈ "ERR] ".toList, Plain c := plain_of_all rfl
  have letter : ∀ c ∈ ['W'], Plain c := plain_of_all rfl
  rw [Failure.start, List.forall_mem_cons, List.forall_mem_append, List.forall_mem_append]
  exact ⟨by decide, word, plain_lead failure, letter⟩

theorem length_start_le (failure : Failure) : (toUtf8 failure.start).length ≤ 127 := by
  have lead := length_lead_le failure
  have word : "ERR] ".toList.length = 5 := rfl
  rw [length_toUtf8, size_of_plain (plain_start failure), Failure.start, List.length_cons,
    List.length_append, List.length_append, word, List.length_singleton]
  omega

theorem vrfy_eq (site : Site) (failure : Failure) :
    ∃ beyond, vrfy site failure.text = toUtf8 failure.start ++ beyond := by
  obtain ⟨rest, same⟩ := text_eq failure
  have split : "[ERR] ".toList ++ failure.text = failure.start ++ rest := by
    have opened : "[ERR] ".toList = '[' :: "ERR] ".toList := rfl
    simp only [same, Failure.start, opened, List.cons_append, List.append_assoc, List.nil_append]
  have short := length_start_le failure
  rw [vrfy, split, toUtf8_append failure.start rest]
  rw [List.append_assoc, List.append_assoc, List.append_assoc, List.take_append,
    List.take_of_length_le (by omega)]
  exact ⟨_, rfl⟩

/-- The text that is handed to `parse_error`. -/
theorem initializeClog_of_readable (readable : Readable site failure) :
    ∃ kept, size kept ≤ 127 ∧
      initializeClog (slotBytes (vrfy site failure.text)) = some (failure.lead ++ 'W' :: kept) := by
  obtain ⟨beyond, whole⟩ := vrfy_eq site failure
  obtain ⟨bytes, fits, stored⟩ := takeWhile_slotBytes (toUtf8_ne_zero (plain_start failure))
    (length_start_le failure) beyond
  rw [Readable, whole, stored, fromUtf8_append, Option.isSome_map] at readable
  obtain ⟨text, read⟩ := Option.isSome_iff_exists.mp readable
  have text_size : size text = bytes.length := by
    rw [← length_toUtf8, toUtf8_of_fromUtf8 read]
  have shape : failure.start ++ text =
      '[' :: ("ERR] ".toList ++ failure.lead ++ 'W' :: text) := by
    simp [Failure.start]
  obtain ⟨kept, start, trimmed⟩ := @trim_cons_append isWhitespace '[' 'W' (by decide) (by decide)
    ("ERR] ".toList ++ failure.lead) text
  have kept_size := size_le_of_prefix start
  refine ⟨kept, by omega, ?_⟩
  have parts : '[' :: ("ERR] ".toList ++ failure.lead ++ 'W' :: kept) =
      "[ERR] ".toList ++ (failure.lead ++ 'W' :: kept) := by
    simp
  have six : size "[ERR] ".toList = 6 := rfl
  have cut := splitAt_append "[ERR] ".toList (failure.lead ++ 'W' :: kept)
  rw [six] at cut
  rw [initializeClog]
  simp only [whole, stored, fromUtf8_append, read, Option.map_some, Option.getD_some]
  rw [shape, trimmed, parts, cut]
  rfl

end Storing

/-! ## The message is parsed -/

section Parsing

variable {failure : Failure} {kept label errmsg : List Char} {position : Nat}

/-- The first character behind the bracket is of the thread id. -/
theorem formatPadded_eq_cons (value : Int) :
    ∃ c rest, formatPadded value = c :: rest ∧ c ≠ 'e' ∧ c ≠ 'f' := by
  cases shape : formatPadded value with
  | nil =>
      have length := congrArg List.length shape
      rw [formatPadded, List.length_append, List.length_replicate, List.length_nil] at length
      omega
  | cons c rest =>
      have mem : c ∈ formatPadded value := by rw [shape]; exact List.mem_cons_self
      refine ⟨c, rest, rfl, ?_, ?_⟩ <;> rintro rfl <;>
        exact absurd (mem_formatPadded mem) (by decide)

theorem bracket_not_mem_formatPadded (value : Int) : '[' ∉ formatPadded value :=
  fun mem => absurd (mem_formatPadded mem) (by decide)

/-- The text behind a label and digits. -/
theorem matchHere_digits {digits : List Char} {number : Nat} (decimal : Decimal digits number)
    (label back : List Char) :
    matchHere label isCode (label ++ (digits ++ ']' :: back)) = some (label ++ digits) := by
  apply matchHere_append decimal.1
  · intro c mem
    simp [isCode, decimal.2.1 c mem]
  · decide

/-- The numbers are found behind their labels. -/
theorem find_codes {c : Char} {id errno fino before : List Char} {first second : Nat}
    (not_e : c ≠ 'e') (not_f : c ≠ 'f') (no_bracket : '[' ∉ c :: id)
    (first_decimal : Decimal errno first) (second_decimal : Decimal fino second)
    (shape : before = '[' :: c :: (id ++ ("[en: ".toList ++ (errno ++ "] ".toList ++
      ("[fn: ".toList ++ fino))))) (back : List Char) :
    (∃ position ≤ size before, find "[en: ".toList isCode (before ++ ']' :: back) =
        some (position, "[en: ".toList ++ errno)) ∧
      find "[fn: ".toList isCode (before ++ ']' :: back) =
        some (size before, "[fn: ".toList ++ fino) := by
  have label_en : "[en: ".toList = '[' :: 'e' :: "n: ".toList := rfl
  have label_fn : "[fn: ".toList = '[' :: 'f' :: "n: ".toList := rfl
  constructor
  · have here := matchHere_digits first_decimal "[en: ".toList
      (" ".toList ++ ("[fn: ".toList ++ (fino ++ ']' :: back)))
    have whole : before ++ ']' :: back = '[' :: c :: (id ++ ("[en: ".toList ++
        (errno ++ ']' :: (" ".toList ++ ("[fn: ".toList ++ (fino ++ ']' :: back)))))) := by
      simp [shape]
    have passed := @find_pass "n: ".toList id ("[en: ".toList ++
      (errno ++ ']' :: (" ".toList ++ ("[fn: ".toList ++ (fino ++ ']' :: back)))))
      '[' c isCode 'e' not_e no_bracket
    rw [← label_en, find_of_matchHere (by simp) here] at passed
    rw [whole]
    refine ⟨_, ?_, passed⟩
    rw [shape]
    simp only [size_cons, size_append]
    omega
  · have here := matchHere_digits second_decimal "[fn: ".toList back
    have no_digit : '[' ∉ errno := fun mem => absurd (first_decimal.2.1 _ mem) (by decide)
    have absent : '[' ∉ 'e' :: ("n: ".toList ++ (errno ++ "] ".toList)) := by
      simp [no_digit]
    have whole : before ++ ']' :: back = '[' :: c :: (id ++
        ('[' :: 'e' :: ("n: ".toList ++ (errno ++ "] ".toList) ++
          ("[fn: ".toList ++ (fino ++ ']' :: back))))) := by
      simp [shape]
    have passed := @find_pass "n: ".toList id ('[' :: 'e' :: ("n: ".toList ++
      (errno ++ "] ".toList) ++ ("[fn: ".toList ++ (fino ++ ']' :: back))))
      '[' c isCode 'f' not_f no_bracket
    have again := @find_pass "n: ".toList ("n: ".toList ++ (errno ++ "] ".toList))
      ("[fn: ".toList ++ (fino ++ ']' :: back)) '[' 'e' isCode 'f' (by decide) absent
    rw [← label_fn] at passed again
    rw [whole, passed, again, find_of_matchHere (by simp) here, shape, label_en]
    simp only [Option.map_some, size_cons, size_append, Nat.add_assoc]

/-- The digits behind a label are parsed. -/
theorem parseCode_of_find {number : Nat} {digits : List Char} (five : size label = 5)
    (decimal : Decimal digits number) (matched : find label isCode errmsg =
      some (position, label ++ digits)) :
    parseCode label errmsg =
      if number < 2 ^ 31 then some (position, Int32.ofInt number) else none := by
  have cut := splitAt_append label digits
  rw [five] at cut
  have unsigned := decimal.head_ne (show '-'.isDigit = false by decide)
  rw [parseCode, matched]
  simp only [cut, Option.bind_some, parseSigned_of_head_ne unsigned,
    parseUnsigned_decimal decimal (by decide : 0 < 2 ^ 31)]
  split <;> rfl

theorem toInt64_ofInt {value : Int} {code : Int64} (same : code.toInt = value)
    (low : -2 ^ 31 ≤ value) (high : value < 2 ^ 31) : (Int32.ofInt value).toInt64 = code := by
  rw [← Int64.toInt_inj, Int32.toInt_toInt64, Int32.toInt_ofInt_of_le low high, same]

/-- The numbers of the message, if that of the file is small. -/
theorem parseError_lead (failure : Failure) (small : failure.fileNo.toNat < 2 ^ 31)
    (kept : List Char) :
    parseError (failure.lead ++ 'W' :: kept) =
      some ⟨true, some [failure.fileNo.toInt64, failure.errno.toInt64], some ('W' :: kept)⟩ := by
  have known := failure.known
  have file := toInt_toInt64_of_lt (show failure.fileNo.toNat < 2 ^ 63 by omega)
  have errno_decimal : Decimal (formatInt failure.errno.toInt) failure.errno.toInt.natAbs := by
    rw [formatInt_of_nonneg (by omega)]
    exact decimal_toDigits _
  have file_decimal : Decimal (formatInt failure.fileNo.toInt64.toInt) failure.fileNo.toNat := by
    rw [file, formatInt_of_nonneg (by omega)]
    exact decimal_toDigits _
  obtain ⟨c, id, padded, not_e, not_f⟩ := formatPadded_eq_cons failure.id.toInt32.toInt
  have no_bracket : '[' ∉ c :: (id ++ "] ".toList) := by
    rw [← List.cons_append, ← padded, List.mem_append, not_or]
    exact ⟨bracket_not_mem_formatPadded _, by decide⟩
  obtain ⟨before, shape⟩ : ∃ before, before = '[' :: c :: (id ++ "] ".toList ++ ("[en: ".toList ++
      (formatInt failure.errno.toInt ++ "] ".toList ++ ("[fn: ".toList ++
        formatInt failure.fileNo.toInt64.toInt)))) := ⟨_, rfl⟩
  have lead : failure.lead = before ++ "] ".toList := by
    simp only [Failure.lead, padded, shape, List.cons_append, List.append_assoc]
  have whole : failure.lead ++ 'W' :: kept = before ++ ']' :: ' ' :: 'W' :: kept := by
    rw [lead]
    simp
  obtain ⟨⟨position, earlier, errno_found⟩, file_found⟩ :=
    find_codes not_e not_f no_bracket errno_decimal file_decimal shape (' ' :: 'W' :: kept)
  rw [← whole] at errno_found file_found
  have errno_code := parseCode_of_find rfl errno_decimal errno_found
  have file_code := parseCode_of_find rfl file_decimal file_found
  rw [if_pos (by omega)] at errno_code
  rw [if_pos small] at file_code
  have errno_word : (Int32.ofInt failure.errno.toInt.natAbs).toInt64 = failure.errno.toInt64 :=
    toInt64_ofInt (by rw [Int32.toInt_toInt64]; omega) (by omega) (by omega)
  have file_word : (Int32.ofInt failure.fileNo.toNat).toInt64 = failure.fileNo.toInt64 :=
    toInt64_ofInt file (by omega) (by omega)
  have behind : 0 < size before := by
    rw [shape, size_cons]
    exact Nat.add_pos_left (Char.utf8Size_pos _) _
  have lead_size : size before + 2 = size failure.lead := by
    rw [lead, size_append]
    rfl
  have cut := splitAt_append failure.lead ('W' :: kept)
  rw [parseError, errno_code, Option.bind_some, file_code, Option.bind_some]
  simp only [max_eq_right earlier, if_pos behind, lead_size, cut, Option.map_some, errno_word,
    file_word]

/-- A number that is read has no minus sign. -/
theorem parseCode_nonneg {value : Int32} (five : size label = 5)
    (parsed : parseCode label errmsg = some (position, value)) : 0 ≤ value.toInt := by
  rw [parseCode] at parsed
  split at parsed
  · obtain ⟨-, rfl⟩ := Prod.mk.inj (Option.some.inj parsed)
    decide
  · rename_i before found matched
    obtain ⟨run, rfl, codes⟩ := exists_of_find matched
    have cut := splitAt_append label run
    rw [five] at cut
    have unsigned : run.head? ≠ some '-' := by
      intro first
      exact absurd (codes '-' (List.mem_of_mem_head? first)) (by decide)
    rw [cut, Option.bind_some, parseSigned_of_head_ne unsigned, Option.map_map,
      Option.map_eq_some_iff] at parsed
    obtain ⟨number, read, same⟩ := parsed
    have below := parseUnsigned_lt (by decide) read
    obtain ⟨-, rfl⟩ := Prod.mk.inj same
    dsimp only
    rw [Int32.toInt_ofInt_of_le (by omega) (by omega)]
    omega

theorem exists_of_parseError {message : Message} (parsed : parseError errmsg = some message) :
    ∃ fino errno : Int32, message.code = some [fino.toInt64, errno.toInt64] ∧ 0 ≤ fino.toInt := by
  rw [parseError] at parsed
  obtain ⟨errno, -, parsed⟩ := Option.bind_eq_some_iff.mp parsed
  obtain ⟨fino, read, parsed⟩ := Option.bind_eq_some_iff.mp parsed
  obtain ⟨parts, -, rfl⟩ := Option.map_eq_some_iff.mp parsed
  exact ⟨fino.2, errno.2, rfl, parseCode_nonneg rfl read⟩

/-- A file number with the bits of a positive `i32` is small. -/
theorem small_of_toInt64 {fileNo : UInt64} {fino : Int32} (same : fileNo.toInt64 = fino.toInt64)
    (nonneg : 0 ≤ fino.toInt) : fileNo.toNat < 2 ^ 31 := by
  have high := fino.toInt_lt
  have word := toInt_toInt64_eq_bmod fileNo
  have bound := fileNo.toNat_lt
  rw [same, Int32.toInt_toInt64, Int.bmod_def] at word
  split at word <;> omega

/-- What is no text has no numbers. -/
theorem report_of_not_readable {site : Site} (unreadable : ¬Readable site failure) :
    ∃ message, report site failure = some message ∧ message.code = some [0, 0] := by
  rw [Readable, Bool.not_eq_true, Option.isSome_eq_false_iff, Option.isNone_iff_eq_none]
    at unreadable
  have shown : initializeClog (slotBytes (vrfy site failure.text)) =
      some "decoding message".toList := by
    rw [initializeClog, unreadable]
    decide
  rw [report, shown]
  exact ⟨_, rfl, rfl⟩

end Parsing

/-! ## The message is sent -/

section Sending

variable {zstd : BoundedZstd} {flat : MessageBuffers}

/-- A short message with two codes arrives. -/
theorem exists_frame (text : List Char) (fino errno : Int64) (short : size text ≤ 1024) :
    ∃ frame, (Message.mk true (some [fino, errno]) (some text)).send zstd flat = some frame ∧
      ∀ dst beyond : List UInt8, dst.length = 16384 →
        handleMsgFromReceiver zstd flat dst (frame ++ beyond) =
          some [some (fino.toUInt64, errno.toInt32)] := by
  let message := Message.mk true (some [fino, errno]) (some text)
  have bound := flat.size_le [message]
  have texts : textSize [message] = size text := rfl
  have codes : codeCount [message] = 2 := rfl
  rw [texts, codes, List.length_singleton] at bound
  obtain ⟨compressed, packed⟩ := Option.isSome_iff_exists.mp
    (zstd.compress_bound 8192 (flat.finishedData [message]) (by omega))
  have limit := zstd.length_compress _ _ _ packed
  refine ⟨_, by rw [Message.send, sendCompressed, packed]; rfl, ?_⟩
  intro dst beyond room
  obtain ⟨header, content⟩ :=
    read_metaSend compressed (msgMessage ||| msgCompressed) beyond (by omega)
  have typ : (msgMessage ||| msgCompressed) ≠ msgFileStat ∧
      (msgMessage ||| msgCompressed) ≠ msgKeepalive ∧
        (msgMessage ||| msgCompressed) &&& 0x1f = msgMessage := by decide
  have read : flat.root (flat.finishedData [message] ++
      dst.drop (flat.finishedData [message]).length) = some [message] := by
    apply flat.root_finishedData
    · rw [List.length_singleton]
      decide
    · rw [List.length_append, List.length_drop]
      omega
  simp only [handleMsgFromReceiver, header, content, if_pos typ,
    zstd.decompress_compress _ _ _ _ packed]
  rw [if_pos (by omega), Option.bind_some, read]
  rfl

theorem fileNo_lt_of_reported {site : Site} {failure : Failure}
    (reported : Reported zstd flat site failure) : failure.fileNo.toNat < 2 ^ 31 := by
  obtain ⟨message, frame, reported, codes, -, -⟩ := reported
  rw [report] at reported
  obtain ⟨errmsg, -, parsed⟩ := Option.bind_eq_some_iff.mp reported
  obtain ⟨fino, errno, same, nonneg⟩ := exists_of_parseError parsed
  rw [codes, Option.some.injEq, List.cons.injEq] at same
  exact small_of_toInt64 same.1 nonneg

theorem readable_of_reported {site : Site} {failure : Failure}
    (reported : Reported zstd flat site failure) : Readable site failure := by
  obtain ⟨message, frame, reported, codes, -, -⟩ := reported
  by_contra unreadable
  obtain ⟨other, reported', zeros⟩ := report_of_not_readable unreadable
  obtain rfl : message = other := Option.some.inj (reported.symm.trans reported')
  rw [codes, Option.some.injEq, List.cons.injEq, List.cons.injEq] at zeros
  have zero := congrArg Int64.toInt zeros.2.1
  have known := failure.known
  rw [Int32.toInt_toInt64] at zero
  have nothing : (0 : Int64).toInt = 0 := rfl
  omega

end Sending

/-- **Write errors.**  The error and the file number reach the sender exactly when the file number
is below 2^31 and the first 127 bytes of the message are a text. -/
theorem reported_iff (zstd : BoundedZstd) (flat : MessageBuffers) (site : Site)
    (failure : Failure) :
    Reported zstd flat site failure ↔
      failure.fileNo.toNat < 2 ^ 31 ∧ Readable site failure := by
  constructor
  · exact fun reported => ⟨fileNo_lt_of_reported reported, readable_of_reported reported⟩
  · rintro ⟨small, readable⟩
    obtain ⟨kept, fits, shown⟩ := initializeClog_of_readable readable
    have word : size ('W' :: kept) ≤ 1024 := by
      have one : 'W'.utf8Size = 1 := by decide
      rw [size_cons, one]
      omega
    obtain ⟨frame, sent, arrives⟩ := @exists_frame zstd flat ('W' :: kept)
      failure.fileNo.toInt64 failure.errno.toInt64 word
    simp only [UInt64.toUInt64_toInt64, Int32.toInt32_toInt64] at arrives
    refine ⟨_, frame, ?_, rfl, sent, arrives⟩
    rw [report, shown, Option.bind_some, parseError_lead failure small]

/-! ## Libraries as assumed -/

/-- The bytes of a code. -/
def codeBytes (code : Int64) : List UInt8 := Layout.bytesOf 8 code.toUInt64.toNat

theorem prefixFree_codeBytes : PrefixFree codeBytes := by
  apply PrefixFree.of_length
  · intro left right same
    have word := Layout.bytesOf_inj left.toUInt64.toNat_lt right.toUInt64.toNat_lt same
    rw [← Int64.toInt64_toUInt64 left, UInt64.toNat_inj.mp word, Int64.toInt64_toUInt64]
  · intro left right
    simp [codeBytes, Layout.bytesOf]

theorem prefixFree_utf8EncodeChar : PrefixFree String.utf8EncodeChar := by
  intro left right rest other same
  have decoded : ∀ (c : Char) (bytes : List UInt8),
      (String.utf8EncodeChar c ++ bytes).toByteArray.utf8DecodeChar? 0 = some c := by
    intro c bytes
    rw [List.toByteArray_append]
    exact ByteArray.utf8DecodeChar?_utf8EncodeChar_append
  have first := decoded left rest
  rw [same, decoded right other, Option.some.injEq] at first
  subst first
  exact ⟨rfl, List.append_cancel_left same⟩

/-- The bytes of a message: whether it is an error, its codes and its text. -/
def messageBytes (message : Message) : List UInt8 :=
  [if message.isError then 1 else 0] ++
    (encodeList (encodeList codeBytes) message.code.toList ++
      encodeList (encodeList String.utf8EncodeChar) message.message.toList)

theorem prefixFree_messageBytes : PrefixFree messageBytes := by
  have flag : PrefixFree fun isError : Bool => [if isError then (1 : UInt8) else 0] :=
    PrefixFree.of_length (by decide) fun _ _ => rfl
  have codes := prefixFree_codeBytes.list.list
  have texts := prefixFree_utf8EncodeChar.list.list
  have parts : Function.Injective fun message : Message =>
      (message.isError, message.code.toList, message.message.toList) := by
    intro left right same
    cases left
    cases right
    obtain ⟨same_flag, same_code, same_text⟩ := by simpa using same
    have code := congrArg List.head? same_code
    have text := congrArg List.head? same_text
    rw [Option.head?_toList, Option.head?_toList] at code text
    rw [same_flag, code, text]
  exact (flag.prod (codes.prod texts)).comp parts

theorem length_codes_le (code : Option (List Int64)) :
    (encodeList (encodeList codeBytes) code.toList).length ≤
      16 * code.elim 0 List.length + 3 := by
  cases code with
  | none => simp [encodeList]
  | some codes =>
      have inner : (encodeList codeBytes codes).length ≤ (codes.map fun _ => 16).sum + 1 :=
        PrefixCode.length_encodeList_le fun code _ => by simp [codeBytes, Layout.bytesOf]
      rw [List.map_const', List.sum_replicate_nat] at inner
      rw [encodeList, Option.toList_some, List.flatMap_singleton, List.length_append,
        List.length_cons, List.length_singleton, Option.elim_some]
      omega

theorem length_text_le (text : Option (List Char)) :
    (encodeList (encodeList String.utf8EncodeChar) text.toList).length ≤
      2 * text.elim 0 size + 3 := by
  cases text with
  | none => simp [encodeList]
  | some text =>
      have inner : (encodeList String.utf8EncodeChar text).length ≤
          (text.map fun c => 2 * c.utf8Size).sum + 1 := by
        apply PrefixCode.length_encodeList_le
        intro c _
        have positive := c.utf8Size_pos
        rw [String.length_utf8EncodeChar]
        omega
      rw [List.sum_map_mul_left] at inner
      rw [encodeList, Option.toList_some, List.flatMap_singleton, List.length_append,
        List.length_cons, List.length_singleton, Option.elim_some, size]
      omega

theorem length_messageBytes_le (message : Message) :
    (messageBytes message).length ≤
      2 * message.message.elim 0 size + 16 * message.code.elim 0 List.length + 7 := by
  have codes := length_codes_le message.code
  have text := length_text_le message.message
  rw [messageBytes, List.length_append, List.length_append, List.length_singleton]
  omega

theorem sum_weights (messages : List Message) :
    (messages.map fun message =>
      2 * message.message.elim 0 size + 16 * message.code.elim 0 List.length + 8).sum =
        2 * textSize messages + 16 * codeCount messages + 8 * messages.length := by
  simp only [textSize, codeCount]
  induction messages with
  | nil => rfl
  | cons message messages ih =>
      simp only [List.map_cons, List.sum_cons, List.length_cons]
      omega

/-- Buffers that hold the bytes of their messages. -/
noncomputable def listing : MessageBuffers where
  finishedData := encodeList messageBytes
  root := PrefixCode.read (encodeList messageBytes)
  size_le messages := by
    have bound : (encodeList messageBytes messages).length ≤ (messages.map fun message =>
        2 * message.message.elim 0 size + 16 * message.code.elim 0 List.length + 8).sum + 1 :=
      PrefixCode.length_encodeList_le fun message _ =>
        Nat.lt_succ_of_le (length_messageBytes_le message)
    have total := sum_weights messages
    omega
  root_finishedData messages rest _ _ := prefixFree_messageBytes.list.read_append messages rest

/-- Compression that stores. -/
def boundedStoring : BoundedZstd where
  toZstd := storing
  compress_bound room source fits := by
    simp only [storing]
    rw [if_pos (by omega)]
    rfl

/-! ## A large file number -/

/-- The program that has the name `dtn.c`, when the disk is full. -/
def noSpace : Site where
  file := toUtf8 "dtn.c".toList
  line := 967
  errno := 28
  strerror _ := toUtf8 "No space left on device".toList

/-- The file with the number 2^31. -/
def largeNumber : Failure := ⟨0, 28, 2147483648, 7, 0, 1048576, by decide⟩

/-- The message of the file, which is short enough to be stored whole. -/
def largeText : List Char :=
  ("[ERR] [ 0] [en: 28] [fn: 2147483648] Writing File fd=7 os=0 sz=1048576 [dtn.c:967]: " ++
    "No space left on device\n").toList

/-- The message is a text, `parse_error` panics on it, and nothing is reported. -/
theorem not_reported_of_largeNumber :
    Readable noSpace largeNumber ∧ report noSpace largeNumber = none ∧
      (∀ zstd flat, ¬Reported zstd flat noSpace largeNumber) ∧
        ¬∀ zstd flat site failure, Reported zstd flat site failure := by
  have never : ∀ zstd flat, ¬Reported zstd flat noSpace largeNumber := by
    intro zstd flat reported
    exact absurd (fileNo_lt_of_reported reported) (by decide)
  have stored : (slotBytes (vrfy noSpace largeNumber.text)).takeWhile (fun byte => byte ≠ 0) =
      toUtf8 largeText := by
    decide +kernel
  refine ⟨?_, ?_, never, fun all => never _ _ (all boundedStoring listing _ _)⟩
  · rw [Readable, stored, fromUtf8_toUtf8]
    rfl
  · rw [report, initializeClog]
    simp only [stored, fromUtf8_toUtf8, Option.getD_some]
    decide +kernel

end WriteError
end EScp
