import EScp.Numeral
import EScp.Split
import Mathlib.Data.List.DropRight

/-!
# The destination on the command line

`parse_dest` reads a destination, either as `scp://[user@]host[:port][/path]` or as
`[user@]host:path`.  A string is a list of characters.  The parser takes the parts off from either
end, so that a delimiter in the path may be taken for an earlier one.
-/

namespace EScp
namespace ParseDest

open Split

/-! ## The code -/

structure DestParts where
  user : Option (List Char) := none
  host : Option (List Char) := none
  port : Option UInt16 := none
  dest : Option (List Char) := none
  error : Option String := none
deriving DecidableEq

/-- The digits of a `u16`, after those that make up `value`. -/
def parseDigits (value : Nat) : List Char → Option Nat
  | [] => some value
  | digit :: digits =>
      if digit.isDigit then
        let value := 10 * value + (digit.toNat - '0'.toNat)
        if value < UInt16.size then parseDigits value digits else none
      else none

/-- A numeral without its plus sign. -/
def unsign : List Char → List Char
  | '+' :: digits => digits
  | text => text

/-- `str::parse::<u16>`, which admits a plus sign. -/
def parseU16 (text : List Char) : Option UInt16 :=
  if unsign text = [] then none else (parseDigits 0 (unsign text)).map UInt16.ofNat

def noHost : String := "Host not specified. Expected [user@]host:[path]"

/-- A host and a port, unless the host is empty. -/
def hostGiven (host : List Char) (port : Option UInt16) (parts : DestParts) : DestParts :=
  if host = [] then { parts with port := port, error := some noHost }
  else { parts with host := some host, port := port }

/-- What is left of a URI when the user and the path have been taken off. -/
def parseHostPort (remainder : List Char) (parts : DestParts) : DestParts :=
  if remainder.head? = some '[' then
    match rsplitOnce ']' remainder with
    | some (hostPart, portPart) =>
        let host := hostPart.drop 1
        if portPart = [] then hostGiven host none parts
        else
          match (stripPrefix ':' portPart).bind parseU16 with
          | some port => hostGiven host (some port) parts
          | none => { parts with error := some "Parsing port" }
    | none => { parts with error := some "Bracketed IPv6 address is malformed" }
  else
    match rsplitOnce ':' remainder with
    | some (hostPart, portPart) => hostGiven hostPart (parseU16 portPart) parts
    | none => hostGiven remainder none parts

/-- The user, if present, and what follows. -/
def takeUser (remainder : List Char) : Option (List Char) × List Char :=
  match rsplitOnce '@' remainder with
  | some (userPart, rest) => (some userPart, rest)
  | none => (none, remainder)

/-- The path, which starts at the first slash, and what is in front of it. -/
def takePath (remainder : List Char) : Option (List Char) × List Char :=
  match splitOnce '/' remainder with
  | some (hostPortPart, pathPart) => (some pathPart, hostPortPart)
  | none => (none, remainder)

/-- A URI, without its `scp://`. -/
def parseUri (remainder : List Char) : DestParts :=
  let (user, remainder) := takeUser remainder
  let (dest, remainder) := takePath remainder
  parseHostPort remainder { user := user, dest := dest }

/-- A host without the brackets around it. -/
def unbracket (host : List Char) : List Char :=
  if host.head? = some '[' ∧ host.tail.getLast? = some ']' then host.tail.dropLast else host

/-- A destination in the style of `scp`. -/
def parseScp (input : List Char) : DestParts :=
  match rsplitOnce ':' input with
  | some (userHostPart, path) =>
      let (user, host) := takeUser userHostPart
      if host = [] then { user := user, error := some noHost }
      else { user := user, host := some (unbracket host), dest := some path }
  | none => { error := some noHost }

def scheme : List Char := ['s', 'c', 'p', ':', '/', '/']

def parseDest (input : List Char) : DestParts :=
  if input = [] then { error := some "Nothing to parse" }
  else if scheme <+: input then parseUri (input.drop scheme.length)
  else parseScp input

/-! ## Ports -/

/-- A decimal numeral for a port. -/
def Decimal (text : List Char) (port : UInt16) : Prop :=
  text ≠ [] ∧ (∀ digit ∈ text, digit.isDigit) ∧ Nat.ofDigitChars 10 text 0 = port.toNat

/-- A numeral for a port that may have a plus sign. -/
def Admitted (text : List Char) (port : UInt16) : Prop :=
  Decimal text port ∨ ∃ digits, text = '+' :: digits ∧ Decimal digits port

section Ports

variable {text : List Char} {port : UInt16} {value result : Nat}

/-- The loop is that for the limit of a `u16`. -/
theorem parseDigits_eq : parseDigits value text = Numeral.parseDigits UInt16.size value text := by
  induction text generalizing value with
  | nil => rfl
  | cons digit text ih => simp only [parseDigits, Numeral.parseDigits, ih]

theorem parseDigits_eq_some_iff (fits : value < UInt16.size) :
    parseDigits value text = some result ↔
      (∀ digit ∈ text, digit.isDigit) ∧ Nat.ofDigitChars 10 text value = result ∧
        result < UInt16.size := by
  rw [parseDigits_eq]
  exact Numeral.parseDigits_eq_some_iff fits

theorem decimal_iff : Decimal text port ↔ Numeral.Decimal text port.toNat := Iff.rfl

theorem Decimal.head (decimal : Decimal text port) : text.head? ≠ some '+' :=
  (decimal_iff.mp decimal).head_ne (by decide)

theorem Decimal.not_mem (decimal : Decimal text port) {c : Char} (no_digit : c.isDigit = false) :
    c ∉ text := by
  intro mem
  rw [decimal.2.1 c mem] at no_digit
  cases no_digit

theorem decimal_unsign_iff : Decimal (unsign text) port ↔ Admitted text port := by
  unfold unsign Admitted
  split
  · rename_i digits
    have unsigned : ¬ Decimal ('+' :: digits) port := fun decimal => decimal.head rfl
    simp [unsigned]
  · rename_i unsigned
    exact (or_iff_left fun signed => signed.elim fun digits plus => unsigned digits plus.1).symm

theorem parseU16_eq_some_iff : parseU16 text = some port ↔ Admitted text port := by
  rw [← decimal_unsign_iff, parseU16]
  split
  · rename_i empty
    exact iff_of_false (by simp) fun decimal => decimal.1 empty
  · rename_i nonempty
    rw [Option.map_eq_some_iff]
    constructor
    · rintro ⟨result, parsed, rfl⟩
      obtain ⟨digits, value, below⟩ := (parseDigits_eq_some_iff (by decide)).mp parsed
      exact ⟨nonempty, digits, value.trans (UInt16.toNat_ofNat_of_lt' below).symm⟩
    · rintro ⟨-, digits, value⟩
      refine ⟨port.toNat, ?_, UInt16.ofNat_toNat⟩
      exact (parseDigits_eq_some_iff (by decide)).mpr ⟨digits, value, port.toNat_lt⟩

theorem parseU16_decimal (decimal : Decimal text port) : parseU16 text = some port :=
  parseU16_eq_some_iff.mpr (.inl decimal)

theorem parseU16_eq_none_iff : parseU16 text = none ↔ ∀ port, ¬ Admitted text port := by
  rw [Option.eq_none_iff_forall_ne_some]
  exact forall_congr' fun port => not_congr parseU16_eq_some_iff

/-- Every port has a numeral. -/
theorem decimal_toDigits (port : UInt16) : Decimal (Nat.toDigits 10 port.toNat) port :=
  decimal_iff.mpr (Numeral.decimal_toDigits _)

end Ports

/-! ## Grammar -/

/-- A host, which is a name or, in brackets, an address. -/
inductive Host where
  | name (text : List Char)
  | address (text : List Char)
deriving DecidableEq

namespace Host

def text : Host → List Char
  | name text | address text => text

def written : Host → List Char
  | name text => text
  | address text => '[' :: text ++ [']']

end Host

/-- A URI for a destination: the port is what stands behind the colon of the host. -/
structure UriDest where
  user : Option (List Char)
  host : Host
  port : Option (List Char)
  path : Option (List Char)
  user_plain : ∀ text, user = some text → ∀ c ∈ text, c ∉ ['/', '@', ':', '[', ']']
  host_plain : match host with
    | .name text => ∀ c ∈ text, c ∉ ['/', '@', ':', '[', ']']
    | .address text => ∀ c ∈ text, c ∉ ['/', '@', '[', ']']
  port_plain : ∀ text, port = some text → '/' ∉ text

namespace UriDest

def portWritten (uri : UriDest) : List Char := uri.port.elim [] (':' :: ·)

def pathWritten (uri : UriDest) : List Char := uri.path.elim [] ('/' :: ·)

/-- The URI behind its scheme. -/
def remainder (uri : UriDest) : List Char :=
  uri.user.elim [] (· ++ ['@']) ++ (uri.host.written ++ uri.portWritten ++ uri.pathWritten)

/-- The port is absent, or it is a numeral for this one. -/
def Denotes (uri : UriDest) : Option UInt16 → Prop
  | none => uri.port = none
  | some port => ∃ text, uri.port = some text ∧ Decimal text port

/-- The parts of the URI. -/
def components (uri : UriDest) (port : Option UInt16) : DestParts where
  user := uri.user
  host := some uri.host.text
  port := port
  dest := uri.path

end UriDest

/-- There is an error and no host. -/
def Rejected (parts : DestParts) : Prop := parts.host = none ∧ parts.error ≠ none

/-- The property wanted of a URI: its parts are read, or its port is rejected. -/
def UriDest.Read (uri : UriDest) (parts : DestParts) : Prop :=
  (∀ port, uri.Denotes port → parts = uri.components port) ∧
    ((∀ port, ¬ uri.Denotes port) → Rejected parts)

/-- What stands behind the last `@`, up to the next slash. -/
def authority (remainder : List Char) : List Char :=
  (remainder.rtakeWhile fun c => c ≠ '@').takeWhile fun c => c ≠ '/'

/-- What stands for a host and a port has no host, or a port behind a bracket that is none. -/
def Malformed (remainder : List Char) : Prop :=
  if remainder.head? = some '[' then
    ∀ address suffix, remainder = '[' :: address ++ ']' :: suffix → ']' ∉ suffix →
      address = [] ∨ suffix ≠ [] ∧ ∀ text port, suffix = ':' :: text → ¬ Admitted text port
  else remainder = [] ∨ ∃ text, remainder = ':' :: text ∧ ':' ∉ text

/-- When the port is absent or a numeral, there is a host and no `@` in the path; otherwise the
authority is malformed. -/
def UriDest.Separable (uri : UriDest) : Prop :=
  ((∃ port, uri.Denotes port) →
    uri.host.text ≠ [] ∧ ∀ path, uri.path = some path → '@' ∉ path) ∧
    ((∀ port, ¬ uri.Denotes port) → Malformed (authority uri.remainder))

/-! ## URIs -/

section Uris

variable {remainder host text : List Char} {parts : DestParts} {port : Option UInt16}

theorem hostGiven_rejected_iff (none_yet : parts.host = none) :
    Rejected (hostGiven host port parts) ↔ host = [] := by
  rw [hostGiven, Rejected]
  split
  · rename_i empty
    exact iff_of_true ⟨none_yet, by simp⟩ empty
  · rename_i given
    exact iff_of_false (by simp) given

theorem hostGiven_user : (hostGiven host port parts).user = parts.user := by
  rw [hostGiven]
  split <;> rfl

/-- A host is given, or there is an error. -/
theorem parseHostPort_cases :
    (∃ host port, parseHostPort remainder parts = hostGiven host port parts) ∨
      ∃ error, parseHostPort remainder parts = { parts with error := some error } := by
  rw [parseHostPort]
  split
  · split
    · dsimp only
      split
      · exact .inl ⟨_, _, rfl⟩
      · split
        · exact .inl ⟨_, _, rfl⟩
        · exact .inr ⟨_, rfl⟩
    · exact .inr ⟨_, rfl⟩
  · split
    · exact .inl ⟨_, _, rfl⟩
    · exact .inl ⟨_, _, rfl⟩

theorem parseHostPort_user : (parseHostPort remainder parts).user = parts.user := by
  rcases parseHostPort_cases with ⟨host, port, given⟩ | ⟨error, failed⟩
  · rw [given, hostGiven_user]
  · rw [failed]

theorem hostGiven_host_ne (none_yet : parts.host = none) :
    (hostGiven host port parts).host ≠ some [] := by
  rw [hostGiven]
  split
  · simp [none_yet]
  · rename_i given
    simpa using given

theorem parseHostPort_host_ne (none_yet : parts.host = none) :
    (parseHostPort remainder parts).host ≠ some [] := by
  rcases parseHostPort_cases with ⟨host, port, given⟩ | ⟨error, failed⟩
  · rw [given]
    exact hostGiven_host_ne none_yet
  · rw [failed]
    simp [none_yet]

/-- What is left of a bracketed remainder is split at the last bracket. -/
theorem bracketed_split {left suffix : List Char} (bracketed : remainder.head? = some '[')
    (split : rsplitOnce ']' remainder = some (left, suffix)) :
    remainder = '[' :: left.drop 1 ++ ']' :: suffix ∧ ']' ∉ suffix := by
  obtain ⟨rfl, apart⟩ := rsplitOnce_eq_some_iff.mp split
  refine ⟨?_, apart⟩
  cases left with
  | nil => cases bracketed
  | cons first left =>
      obtain rfl := Option.some.inj bracketed
      rfl

theorem malformed_bracketed_iff {address suffix : List Char} (apart : ']' ∉ suffix) :
    Malformed ('[' :: address ++ ']' :: suffix) ↔
      address = [] ∨ suffix ≠ [] ∧ ∀ text port, suffix = ':' :: text → ¬ Admitted text port := by
  rw [Malformed, if_pos (by simp)]
  constructor
  · intro every
    exact every address suffix rfl apart
  · intro malformed other rest same apart_rest
    obtain ⟨left, rfl⟩ := rsplit_unique apart apart_rest same
    obtain rfl := List.cons_injective left
    exact malformed

/-- The port behind a bracket, if it is one. -/
theorem bracket_port_eq_some_iff {suffix : List Char} {port : UInt16} :
    (stripPrefix ':' suffix).bind parseU16 = some port ↔
      ∃ text, suffix = ':' :: text ∧ Admitted text port := by
  simp only [Option.bind_eq_some_iff, stripPrefix_eq_some_iff, parseU16_eq_some_iff]

theorem parseHostPort_rejected_iff (none_yet : parts.host = none) :
    Rejected (parseHostPort remainder parts) ↔ Malformed remainder := by
  rw [parseHostPort]
  split
  · rename_i bracketed
    split
    · rename_i left suffix split
      obtain ⟨written, apart⟩ := bracketed_split bracketed split
      rw [written, malformed_bracketed_iff apart]
      dsimp only
      split
      · rename_i portless
        simp [hostGiven_rejected_iff none_yet, portless]
      · rename_i ported
        cases found : (stripPrefix ':' suffix).bind parseU16 with
        | some port =>
            obtain ⟨text, behind, admitted⟩ := bracket_port_eq_some_iff.mp found
            dsimp only
            rw [hostGiven_rejected_iff none_yet]
            exact (or_iff_left fun bad => bad.2 text port behind admitted).symm
        | none =>
            refine iff_of_true ⟨none_yet, by simp⟩ (.inr ⟨ported, fun text value behind => ?_⟩)
            intro admitted
            rw [bracket_port_eq_some_iff.mpr ⟨text, behind, admitted⟩] at found
            cases found
    · rename_i unclosed
      rw [Malformed, if_pos bracketed]
      refine iff_of_true ⟨none_yet, by simp⟩ fun address suffix written _ => ?_
      rw [rsplitOnce_eq_none_iff, written] at unclosed
      exact absurd (by simp) unclosed
  · rename_i unbracketed
    rw [Malformed, if_neg unbracketed]
    split
    · rename_i left suffix split
      obtain ⟨rfl, apart⟩ := rsplitOnce_eq_some_iff.mp split
      rw [hostGiven_rejected_iff none_yet]
      constructor
      · rintro rfl
        exact .inr ⟨suffix, rfl, apart⟩
      · rintro (empty | ⟨text, same, other⟩)
        · exact absurd empty (by simp)
        · have start : left ++ ':' :: suffix = [] ++ ':' :: text := same
          exact (rsplit_unique apart other start).1
    · rename_i portless
      rw [hostGiven_rejected_iff none_yet]
      refine (or_iff_left ?_).symm
      rintro ⟨text, rfl, -⟩
      exact rsplitOnce_eq_none_iff.mp portless List.mem_cons_self

theorem takeUser_snd : (takeUser remainder).2 = remainder.rtakeWhile fun c => c ≠ '@' := by
  rw [takeUser]
  split
  · rename_i user rest parts
    obtain ⟨rfl, apart⟩ := rsplitOnce_eq_some_iff.mp parts
    exact (rtakeWhile_ne_append apart).symm
  · rename_i userless
    rw [rsplitOnce_eq_none_iff] at userless
    refine (List.rtakeWhile_eq_self_iff.mpr fun c mem => ?_).symm
    exact decide_eq_true fun same => userless (same ▸ mem)

theorem takePath_snd : (takePath remainder).2 = remainder.takeWhile fun c => c ≠ '/' := by
  rw [takePath]
  split
  · rename_i front path parts
    obtain ⟨rfl, apart⟩ := splitOnce_eq_some_iff.mp parts
    exact (takeWhile_ne_append apart).symm
  · rename_i pathless
    rw [splitOnce_eq_none_iff] at pathless
    refine (List.takeWhile_eq_self_iff.mpr fun c mem => ?_).symm
    exact decide_eq_true fun same => pathless (same ▸ mem)

theorem authority_eq : authority remainder = (takePath (takeUser remainder).2).2 := by
  rw [takePath_snd, takeUser_snd, authority]

theorem parseUri_rejected_iff :
    Rejected (parseUri remainder) ↔ Malformed (authority remainder) := by
  rw [authority_eq]
  exact parseHostPort_rejected_iff rfl

theorem takeUser_append {user : Option (List Char)} {rest : List Char} (apart : '@' ∉ rest) :
    takeUser (user.elim [] (· ++ ['@']) ++ rest) = (user, rest) := by
  cases user with
  | none =>
      rw [Option.elim_none, List.nil_append, takeUser, rsplitOnce_eq_none_iff.mpr apart]
  | some user =>
      have written : user ++ ['@'] ++ rest = user ++ '@' :: rest := by simp
      rw [Option.elim_some, written, takeUser, rsplitOnce_append apart]

theorem takePath_append {path : Option (List Char)} {front : List Char} (apart : '/' ∉ front) :
    takePath (front ++ path.elim [] ('/' :: ·)) = (path, front) := by
  cases path with
  | none => rw [Option.elim_none, List.append_nil, takePath, splitOnce_eq_none_iff.mpr apart]
  | some path => rw [Option.elim_some, takePath, splitOnce_append apart]

/-- An `@` behind the host makes the user longer than it is. -/
theorem takeUser_ne {user : Option (List Char)} {middle path : List Char} (mem : '@' ∈ path)
    (longer : middle ≠ []) :
    (takeUser (user.elim [] (· ++ ['@']) ++ (middle ++ path))).1 ≠ user := by
  obtain ⟨before, after, parts⟩ := exists_rsplitOnce mem
  rw [takeUser, ← List.append_assoc, rsplitOnce_append_left parts]
  intro same
  cases user with
  | none => cases same
  | some user =>
      have lengths := congrArg List.length (Option.some.inj same)
      have positive := List.length_pos_iff.mpr longer
      simp only [Option.elim_some, List.length_append] at lengths
      omega

theorem parseUri_user : (parseUri remainder).user = (takeUser remainder).1 := parseHostPort_user

theorem parseDest_uri : parseDest (scheme ++ remainder) = parseUri remainder := by
  rw [parseDest, if_neg (by simp [scheme]), if_pos (List.prefix_append _ _), List.drop_left]

namespace UriDest

variable {uri : UriDest}

theorem host_not_mem {c : Char} (special : c = '/' ∨ c = '@') : c ∉ uri.host.written := by
  intro mem
  have plain := uri.host_plain
  cases host : uri.host with
  | name text =>
      rw [host] at mem plain
      exact plain c mem (by rcases special with rfl | rfl <;> simp)
  | address text =>
      rw [host] at mem plain
      rcases List.mem_append.mp mem with inside | last
      · rcases List.mem_cons.mp inside with rfl | inside
        · simp at special
        · exact plain c inside (by rcases special with rfl | rfl <;> simp)
      · rcases special with rfl | rfl <;> simp at last

theorem port_not_mem (denotes : uri.Denotes port) {c : Char} (other : c ≠ ':')
    (no_digit : c.isDigit = false) : c ∉ uri.portWritten := by
  rw [portWritten]
  cases port with
  | none =>
      rw [show uri.port = none from denotes]
      exact List.not_mem_nil
  | some port =>
      obtain ⟨text, written, decimal⟩ := denotes
      rw [written]
      exact fun mem => (List.mem_cons.mp mem).elim other (decimal.not_mem no_digit)

/-- The host and the port are read as they are written. -/
theorem parseHostPort_written (denotes : uri.Denotes port) :
    parseHostPort (uri.host.written ++ uri.portWritten) parts =
      hostGiven uri.host.text port parts := by
  have plain := uri.host_plain
  cases host : uri.host with
  | name text =>
      rw [host] at plain
      have colon : ':' ∉ text := fun mem => plain ':' mem (by simp)
      have unbracketed : (text ++ uri.portWritten).head? ≠ some '[' := by
        intro bracketed
        rcases List.mem_append.mp (List.mem_of_mem_head? bracketed) with inside | behind
        · exact plain '[' inside (by simp)
        · exact port_not_mem denotes (by decide) (by decide) behind
      rw [parseHostPort, Host.written, if_neg unbracketed, portWritten]
      cases port with
      | none =>
          rw [show uri.port = none from denotes, Option.elim_none, List.append_nil,
            rsplitOnce_eq_none_iff.mpr colon]
          rfl
      | some port =>
          obtain ⟨numeral, written, decimal⟩ := denotes
          rw [written, Option.elim_some, rsplitOnce_append (decimal.not_mem (by decide))]
          dsimp only
          rw [parseU16_decimal decimal]
          rfl
  | address text =>
      have apart : ']' ∉ uri.portWritten := port_not_mem denotes (by decide) (by decide)
      have written : Host.written (.address text) ++ uri.portWritten =
          ('[' :: text) ++ ']' :: uri.portWritten := by simp [Host.written]
      rw [written, parseHostPort, if_pos (by simp), rsplitOnce_append apart, portWritten]
      cases port with
      | none =>
          rw [show uri.port = none from denotes]
          rfl
      | some port =>
          obtain ⟨numeral, there, decimal⟩ := denotes
          have behind : stripPrefix ':' (':' :: numeral) = some numeral :=
            stripPrefix_eq_some_iff.mpr rfl
          simp only [there, Option.elim_some, behind, Option.bind_some, parseU16_decimal decimal]
          rfl

/-- A URI with a host and with no `@` in its path is read. -/
theorem parseUri_remainder (denotes : uri.Denotes port) (given : uri.host.text ≠ [])
    (path_plain : ∀ path, uri.path = some path → '@' ∉ path) :
    parseUri uri.remainder = uri.components port := by
  have no_path : '/' ∉ uri.host.written ++ uri.portWritten := by
    simp only [List.mem_append, not_or]
    exact ⟨host_not_mem (.inl rfl), port_not_mem denotes (by decide) (by decide)⟩
  have no_user : '@' ∉ uri.host.written ++ uri.portWritten ++ uri.pathWritten := by
    simp only [List.mem_append, not_or]
    refine ⟨⟨host_not_mem (.inr rfl), port_not_mem denotes (by decide) (by decide)⟩, ?_⟩
    rw [pathWritten]
    cases path : uri.path with
    | none => exact List.not_mem_nil
    | some text =>
        exact fun mem => (List.mem_cons.mp mem).elim (by decide) (path_plain text path)
  rw [parseUri, remainder, takeUser_append no_user]
  dsimp only
  rw [pathWritten, takePath_append no_path]
  dsimp only
  rw [parseHostPort_written denotes, hostGiven, if_neg given]
  rfl

/-- Exactly the separable URIs are read by their grammar. -/
theorem read_iff_separable :
    uri.Read (parseDest (scheme ++ uri.remainder)) ↔ uri.Separable := by
  rw [parseDest_uri]
  rw [UriDest.Read, UriDest.Separable]
  refine and_congr ⟨fun read => ?_, fun meets port denotes => ?_⟩ (imp_congr_right fun _ => ?_)
  · rintro ⟨port, denotes⟩
    have parts := read port denotes
    refine ⟨fun empty => ?_, fun path written mem => ?_⟩
    · have host : (parseUri uri.remainder).host = some uri.host.text := by rw [parts]; rfl
      exact parseHostPort_host_ne rfl (empty ▸ host)
    · have user : (takeUser uri.remainder).1 = uri.user := by
        rw [← parseUri_user, parts]
        rfl
      have split : uri.remainder = uri.user.elim [] (· ++ ['@']) ++
          (uri.host.written ++ uri.portWritten ++ ['/'] ++ path) := by
        simp [remainder, pathWritten, written]
      rw [split] at user
      exact takeUser_ne mem (by simp) user
  · obtain ⟨given, path_plain⟩ := meets ⟨port, denotes⟩
    exact parseUri_remainder denotes given path_plain
  · exact parseUri_rejected_iff

/-- Behind a host without brackets no port is rejected; behind one with brackets, each that the
parser of numbers does not take. -/
theorem rejected_iff_of_plain {text : List Char} (ported : uri.port = some text)
    (given : uri.host.text ≠ []) (no_user : '@' ∉ uri.portWritten ++ uri.pathWritten)
    (closed : ']' ∉ text) :
    Rejected (parseDest (scheme ++ uri.remainder)) ↔
      (∃ address, uri.host = .address address) ∧ ∀ port, ¬ Admitted text port := by
  have apart : '@' ∉ uri.host.written ++ uri.portWritten ++ uri.pathWritten := by
    rw [List.append_assoc]
    exact fun mem => (List.mem_append.mp mem).elim (host_not_mem (.inr rfl)) no_user
  have no_path : '/' ∉ uri.host.written ++ uri.portWritten := by
    rw [portWritten, ported]
    refine fun mem => (List.mem_append.mp mem).elim (host_not_mem (.inl rfl)) fun behind => ?_
    exact (List.mem_cons.mp behind).elim (by decide) (uri.port_plain text ported)
  have left : authority uri.remainder = uri.host.written ++ ':' :: text := by
    rw [authority_eq, remainder, takeUser_append apart]
    dsimp only
    rw [pathWritten, takePath_append no_path, portWritten, ported]
    rfl
  rw [parseDest_uri, parseUri_rejected_iff, left]
  have plain := uri.host_plain
  cases host : uri.host with
  | name name =>
      rw [host] at plain given
      refine iff_of_false ?_ fun bracketed => by simp at bracketed
      obtain ⟨first, name, rfl⟩ := List.exists_cons_of_ne_nil given
      obtain ⟨special, -⟩ := List.forall_mem_cons.mp plain
      have unbracketed : first ≠ '[' := by
        rintro rfl
        exact special (by simp)
      have named : first ≠ ':' := by
        rintro rfl
        exact special (by simp)
      simp [Malformed, Host.written, unbracketed, named]
  | address address =>
      have given : address ≠ [] := by
        rw [host] at given
        exact given
      have written : Host.written (.address address) ++ ':' :: text =
          '[' :: address ++ ']' :: (':' :: text) := by simp [Host.written]
      have apart : ']' ∉ ':' :: text := fun mem => (List.mem_cons.mp mem).elim (by decide) closed
      rw [written, malformed_bracketed_iff apart, or_iff_right given,
        and_iff_right (List.cons_ne_nil _ _), and_iff_right ⟨address, rfl⟩]
      constructor
      · intro every port
        exact every text port rfl
      · intro every other port same
        obtain rfl := List.cons_injective same
        exact every port

end UriDest

end Uris

/-- `scp://h/a@b` -/
def atInPath : UriDest where
  user := none
  host := .name ['h']
  port := none
  path := some ['a', '@', 'b']
  user_plain := by simp
  host_plain := by simp
  port_plain := by simp

/-- `scp://h:x/` -/
def noNumber : UriDest where
  user := none
  host := .name ['h']
  port := some ['x']
  path := some []
  user_plain := by simp
  host_plain := by simp
  port_plain := by simp

/-- The path gives a user and another host, and a port that is no number is dropped. -/
theorem not_read_of_atInPath :
    ¬ atInPath.Read (parseDest (scheme ++ atInPath.remainder)) ∧
      ¬ noNumber.Read (parseDest (scheme ++ noNumber.remainder)) := by
  refine ⟨fun read => ?_, fun read => ?_⟩
  · have user := congrArg DestParts.user (read.1 none rfl)
    exact absurd user (by decide)
  · have rejected := read.2 fun port denotes => by
      cases port with
      | none => cases denotes
      | some port =>
          obtain ⟨text, written, decimal⟩ := denotes
          obtain rfl := Option.some.inj written
          exact absurd (decimal.2.1 'x' (by simp)) (by decide)
    exact absurd rejected.1 (by decide)

/-! ## The style of `scp` -/

/-- A destination in the style of `scp`. -/
structure ScpDest where
  user : Option (List Char)
  host : Host
  path : List Char
  user_plain : ∀ text, user = some text → ∀ c ∈ text, c ∉ ['@', ':']
  host_plain : match host with
    | .name text => ∀ c ∈ text, c ∉ ['@', ':', '[', ']']
    | .address text => ∀ c ∈ text, c ∉ ['@', '[', ']']

namespace ScpDest

/-- What is in front of the path and its colon. -/
def front (scp : ScpDest) : List Char := scp.user.elim [] (· ++ ['@']) ++ scp.host.written

def written (scp : ScpDest) : List Char := scp.front ++ ':' :: scp.path

/-- The property wanted: the parts are read, or there is no host and this is an error. -/
def Read (scp : ScpDest) (parts : DestParts) : Prop :=
  (scp.host.text ≠ [] →
    parts = { user := scp.user, host := some scp.host.text, dest := some scp.path }) ∧
    (scp.host.text = [] → Rejected parts)

/-- There is no colon in the path; if there is no host, there are no brackets either, or an `@`
stands in front of the last colon of the path. -/
def Separable (scp : ScpDest) : Prop :=
  (scp.host.text ≠ [] → ':' ∉ scp.path) ∧
    (scp.host.text = [] →
      scp.host = .name [] ∧ ':' ∉ scp.path ∨
        ∃ before after, scp.path = before ++ '@' :: ':' :: after ∧ ':' ∉ after)

end ScpDest

section Scp

theorem takeUser_snd_eq_nil_iff {whole : List Char} :
    (takeUser whole).2 = [] ↔ whole = [] ∨ whole.getLast? = some '@' := by
  rw [takeUser]
  split
  · rename_i user rest parts
    obtain ⟨rfl, apart⟩ := rsplitOnce_eq_some_iff.mp parts
    dsimp only
    constructor
    · rintro rfl
      exact .inr (by simp)
    · rintro (empty | last)
      · simp at empty
      · by_contra nonempty
        rw [List.getLast?_append_cons, List.getLast?_cons_of_ne_nil nonempty] at last
        exact apart (List.mem_of_getLast? last)
  · rename_i userless
    rw [rsplitOnce_eq_none_iff] at userless
    exact (or_iff_left fun last => userless (List.mem_of_getLast? last)).symm

variable {scp : ScpDest}

theorem unbracket_written : unbracket scp.host.written = scp.host.text := by
  have plain := scp.host_plain
  cases host : scp.host with
  | name text =>
      rw [host] at plain
      refine if_neg fun bracketed => ?_
      exact plain '[' (List.mem_of_mem_head? bracketed.1) (by simp)
  | address text =>
      have last : (text ++ [']']).getLast? = some ']' := List.getLast?_concat
      rw [Host.written, unbracket, if_pos ⟨rfl, last⟩]
      exact List.dropLast_concat

theorem host_at : '@' ∉ scp.host.written := by
  intro mem
  have plain := scp.host_plain
  cases host : scp.host with
  | name text =>
      rw [host] at mem plain
      exact plain '@' mem (by simp)
  | address text =>
      rw [host] at mem plain
      have inside : '@' ∈ text := by simpa [Host.written] using mem
      exact plain '@' inside (by simp)

/-- Without a colon in the path the host is taken as it is written. -/
theorem parseScp_written (no_colon : ':' ∉ scp.path) :
    parseScp scp.written =
      if scp.host.written = [] then { user := scp.user, error := some noHost }
      else { user := scp.user, host := some scp.host.text, dest := some scp.path } := by
  rw [parseScp, ScpDest.written, rsplitOnce_append no_colon]
  dsimp only
  rw [ScpDest.front, takeUser_append host_at]
  dsimp only
  rw [unbracket_written]

theorem host_written_eq_nil_iff : scp.host.written = [] ↔ scp.host = .name [] := by
  cases scp.host <;> simp [Host.written]

/-- With a colon in the path everything up to the last one is taken for the user and the host. -/
theorem parseScp_colon {before after : List Char} (path : scp.path = before ++ ':' :: after)
    (last : ':' ∉ after) :
    (parseScp scp.written).dest ≠ some scp.path ∧
      (Rejected (parseScp scp.written) ↔ before.getLast? = some '@') := by
  have split : scp.written = (scp.front ++ ':' :: before) ++ ':' :: after := by
    simp [ScpDest.written, path]
  rw [parseScp, split, rsplitOnce_append last]
  dsimp only
  have at_end : (takeUser (scp.front ++ ':' :: before)).2 = [] ↔ before.getLast? = some '@' := by
    rw [takeUser_snd_eq_nil_iff, or_iff_right (by simp), List.getLast?_append_cons]
    cases before with
    | nil => simp
    | cons first before => simp [List.getLast?_cons_cons]
  split
  · rename_i empty
    exact ⟨by simp, iff_of_true ⟨rfl, by simp⟩ (at_end.mp empty)⟩
  · rename_i given
    refine ⟨fun same => ?_, iff_of_false (by simp [Rejected]) (mt at_end.mpr given)⟩
    have lengths := congrArg List.length (Option.some.inj same)
    simp only [path, List.length_append, List.length_cons] at lengths
    omega

theorem scp_read_iff_separable (plain : ¬ scheme <+: scp.written) :
    scp.Read (parseDest scp.written) ↔ scp.Separable := by
  have input : parseDest scp.written = parseScp scp.written := by
    rw [parseDest, if_neg (by simp [ScpDest.written]), if_neg plain]
  rw [input]
  rw [ScpDest.Read, ScpDest.Separable]
  cases parts : rsplitOnce ':' scp.path with
  | none =>
      have no_colon := rsplitOnce_eq_none_iff.mp parts
      rw [parseScp_written no_colon]
      refine and_congr (imp_congr_right fun given => iff_of_true ?_ no_colon)
        (imp_congr_right fun _ => ?_)
      · refine if_neg fun empty => given ?_
        rw [host_written_eq_nil_iff.mp empty]
        rfl
      · split
        · rename_i empty
          exact iff_of_true ⟨rfl, by simp⟩ (.inl ⟨host_written_eq_nil_iff.mp empty, no_colon⟩)
        · rename_i bracketed
          refine iff_of_false (by simp [Rejected]) ?_
          rintro (⟨empty, -⟩ | ⟨before, after, path, -⟩)
          · exact bracketed (host_written_eq_nil_iff.mpr empty)
          · exact no_colon (by simp [path])
  | some split =>
      obtain ⟨before, after⟩ := split
      obtain ⟨path, last⟩ := rsplitOnce_eq_some_iff.mp parts
      have colon : ':' ∈ scp.path := by simp [path]
      obtain ⟨dest, rejected⟩ := parseScp_colon path last
      refine and_congr (imp_congr_right fun _ => iff_of_false (fun same => ?_) (not_not.mpr colon))
        (imp_congr_right fun _ => ?_)
      · exact dest (by rw [same])
      · rw [rejected, or_iff_right fun plain => plain.2 colon, List.getLast?_eq_some_iff]
        constructor
        · rintro ⟨front, rfl⟩
          exact ⟨front, after, by simp [path], last⟩
        · rintro ⟨front, behind, same, apart⟩
          have split : before ++ ':' :: after = (front ++ ['@']) ++ ':' :: behind := by
            rw [← path, same]
            simp
          exact ⟨front, (rsplit_unique last apart split).1⟩

/-- A string without a colon is rejected. -/
theorem rejected_of_no_colon {input : List Char} (no_colon : ':' ∉ input) :
    Rejected (parseDest input) := by
  rw [parseDest]
  split
  · exact ⟨rfl, by simp⟩
  · rw [if_neg fun uri => no_colon (uri.subset (by simp [scheme])), parseScp,
      rsplitOnce_eq_none_iff.mpr no_colon]
    exact ⟨rfl, by simp⟩

/-- Exactly the separable destinations are read by their grammar, and no string without a colon is
one. -/
theorem scp_read_iff (scp : ScpDest) (plain : ¬ scheme <+: scp.written) (input : List Char)
    (no_colon : ':' ∉ input) :
    (scp.Read (parseDest scp.written) ↔ scp.Separable) ∧ Rejected (parseDest input) :=
  ⟨scp_read_iff_separable plain, rejected_of_no_colon no_colon⟩

end Scp

/-- `h:a:b` -/
def colonInPath : ScpDest where
  user := none
  host := .name ['h']
  path := ['a', ':', 'b']
  user_plain := by simp
  host_plain := by simp

/-- `u@h:a` -/
def userAtHost : ScpDest where
  user := some ['u']
  host := .name ['h']
  path := ['a']
  user_plain := by simp
  host_plain := by simp

/-- The host is `h:a` and the path is `b`. -/
theorem not_scp_read_of_colonInPath :
    ¬ ∀ scp : ScpDest, ¬ scheme <+: scp.written → scp.Read (parseDest scp.written) := by
  intro every
  have parts := (every colonInPath (by decide)).1 (by decide)
  exact absurd (congrArg DestParts.dest parts) (by decide)

theorem scp_read_iff_of_userAtHost :
    (userAtHost.Read (parseDest userAtHost.written) ↔ userAtHost.Separable) ∧
      Rejected (parseDest ['h']) :=
  scp_read_iff userAtHost (by decide) ['h'] (by decide)

end ParseDest
end EScp
