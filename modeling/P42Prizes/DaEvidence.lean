import P42Prizes.Commitment
import P42Prizes.PythonText
import P42Prizes.Reverting

/-! # Data-availability evidence

A solver keeps a document about each commitment: the solution it was made for, where its bytes are to be
found, and the preimage of the commitment.  `build_da_evidence` writes the document and
`validate_da_evidence` checks one, in both cases against the solution file.

A value is what Python reads from JSON; a finite float is its `repr`.  The manifest is the mapping that
`problem.yaml` holds. -/

namespace P42Prizes.DaEvidence

open Reverting
open PythonText (Str CodePoint UnicodeData str encode afterLast partition isdigit int decimal isAsciiDigit)

inductive Value where
  | none
  | bool (b : Bool)
  | int (n : ℤ)
  | float (repr : Option Bytes)
  | str (s : Str)
  | list (items : List Value)
  | dict (entries : List (Str × Value))

abbrev Dict := List (Str × Value)

inductive Raised where
  | daEvidence (message : String)
  | missingKeys (label : String) (keys : List String)
  | extraKeys (label : String) (keys : List Str)
  | unicodeEncode
  | valueError (message : String)
  | keyError (key : String)

abbrev Result := Except Raised

def maxOnchainSolutionBytes : ℕ := 1048576
def commitTimeRequired : List String := ["solution_cid", "payload_sha256", "solution_bytes_length"]

def commitTimeOptional : List String :=
  ["provider", "receipt_uri", "block_reference", "reveal_tx", "store_locator"]

/-- What the functions take from Python and from the file system. -/
structure Platform where
  unicode : UnicodeData
  sha256 : Bytes → Bytes32

variable (env : Platform)

/-! ### Patterns -/

def isLowerHex (c : CodePoint) : Bool := isAsciiDigit c || (97 ≤ c.val && c.val ≤ 102)
def isHex (c : CodePoint) : Bool := isLowerHex c || (65 ≤ c.val && c.val ≤ 70)

/-- `\s`, for the characters of ASCII. -/
def isAsciiSpace (c : CodePoint) : Bool := (9 ≤ c.val && c.val ≤ 13) || (28 ≤ c.val && c.val ≤ 32)

def isSpace (c : CodePoint) : Bool := isAsciiSpace c || (0x80 ≤ c.val && env.unicode.isSpace c)

/-- A lead and then so many characters of a kind. -/
def matchesFixed (lead : String) (count : ℕ) (kind : CodePoint → Bool) (text : Str) : Bool :=
  text.take lead.length = str lead && (text.drop lead.length).length = count &&
    (text.drop lead.length).all kind

/-- `SHA256_RE` -/
def isSha256 : Str → Bool := matchesFixed "sha256:" 64 isLowerHex

/-- `BYTES32_RE` and `TX_HASH_RE` -/
def isBytes32 : Str → Bool := matchesFixed "0x" 64 isLowerHex

/-- `ETH_ADDRESS_RE` -/
def isEthAddress : Str → Bool := matchesFixed "0x" 40 isHex

def isBase64Url (c : CodePoint) : Bool :=
  isAsciiDigit c || (65 ≤ c.val && c.val ≤ 90) || (97 ≤ c.val && c.val ≤ 122) || c.val = 45 || c.val = 95

/-- `ARWEAVE_TXID_RE` -/
def isArweaveTxid : Str → Bool := matchesFixed "" 43 isBase64Url

/-- A lead and then characters that are no spaces, at least one. -/
def matchesOpen (lead : String) (text : Str) : Bool :=
  text.take lead.length = str lead && text.drop lead.length ≠ [] &&
    (text.drop lead.length).all fun c => !isSpace env c

/-- `CID_RE` -/
def isCid (text : Str) : Bool :=
  isSha256 text || matchesOpen env "ipfs://" text || matchesOpen env "bafy" text ||
    matchesOpen env "bafk" text || matchesOpen env "Qm" text

/-- `value.lower()` of an ASCII text. -/
def lower (text : Str) : Str :=
  text.map fun c => if 65 ≤ c.val ∧ c.val ≤ 90 then Fin.ofNat 0x110000 (c.val + 32) else c

/-! ### Checks of single values -/

def Value.isStr : Value → Str → Bool
  | .str t, s => t = s
  | _, _ => false

def requireString (mapping : Dict) (key label : String) : Result Str :=
  match mapping.lookup (str key) with
  | some (.str s) =>
      if s = [] then .error (.daEvidence s!"{label}.{key} must be a non-empty string") else .ok s
  | _ => .error (.daEvidence s!"{label}.{key} must be a non-empty string")

/-- `_require_key_set`; `_require_keys` has no optional keys. -/
def requireKeySet (mapping : Dict) (required optional : List String) (label : String) : Result Unit := do
  let missing := required.filter fun key => (mapping.lookup (str key)).isNone
  let extra := (mapping.map Prod.fst).filter fun key => key ∉ (required ++ optional).map str
  revertIf (missing ≠ []) (.missingKeys label missing)
  revertIf (extra ≠ []) (.extraKeys label extra)

def requireByteLength (value : Option Value) (label : String) : Result ℕ :=
  match value with
  | some (.int n) =>
      if n < 0 then .error (.daEvidence s!"{label} must be a non-negative integer") else .ok n.toNat
  | _ => .error (.daEvidence s!"{label} must be a non-negative integer")

/-! ### Hashes and JSON -/

def hexChar (n : ℕ) : CodePoint := Fin.ofNat 0x110000 (if n < 10 then 48 + n else 87 + n)

/-- `hexdigest` -/
def hexText (data : Bytes) : Str :=
  data.flatMap fun b => [hexChar (b.toNat / 16), hexChar (b.toNat % 16)]

def sha256Bytes (data : Bytes) : Str := str "sha256:" ++ hexText (wordBytes (env.sha256 data))

/-- The bytes of an ASCII text. -/
def asciiBytes (text : Str) : Bytes := text.map fun c => UInt8.ofNat c.val

/-- The four digits of `\uXXXX`. -/
def unicodeEscape (n : ℕ) : Bytes :=
  ascii "\\u" ++ [hexSymbol (n / 4096), hexSymbol (n / 256 % 16), hexSymbol (n / 16 % 16), hexSymbol (n % 16)]

/-- A character within a string that `json.dumps` writes with `ensure_ascii`. -/
def escape (c : CodePoint) : Bytes :=
  let n := c.val
  if n = 34 then ascii "\\\""
  else if n = 92 then ascii "\\\\"
  else if n = 10 then ascii "\\n"
  else if n = 13 then ascii "\\r"
  else if n = 9 then ascii "\\t"
  else if n = 12 then ascii "\\f"
  else if n = 8 then ascii "\\b"
  else if 32 ≤ n ∧ n ≤ 126 then [UInt8.ofNat n]
  else if n < 0x10000 then unicodeEscape n
  else unicodeEscape (0xD800 + (n - 0x10000) / 0x400) ++ unicodeEscape (0xDC00 + (n - 0x10000) % 0x400)

def quote (s : Str) : Bytes := ascii "\"" ++ s.flatMap escape ++ ascii "\""

/-- `str(n)`, which Python refuses for numbers of more than 4300 digits. -/
def intText (n : ℤ) : Option Bytes :=
  if 10 ^ 4300 ≤ n.natAbs then none
  else some (asciiBytes (if n < 0 then str "-" ++ decimal n.natAbs else decimal n.natAbs))

def comma : List Bytes → Bytes := fun texts => (texts.intersperse (ascii ",")).flatten

mutual

/-- `canonical_json`, whose texts are ASCII and stand as their bytes; a float that is not finite has none. -/
def canonicalJson : Value → Option Bytes
  | .none => some (ascii "null")
  | .bool true => some (ascii "true")
  | .bool false => some (ascii "false")
  | .int n => intText n
  | .float text => text
  | .str s => some (quote s)
  | .list items => (canonicalItems items).map fun texts => ascii "[" ++ comma texts ++ ascii "]"
  | .dict entries => (canonicalMembers entries).map fun members =>
      let sorted := members.insertionSort fun a b => a.1 ≤ b.1
      ascii "\x7b" ++ comma (sorted.map fun (key, text) => quote key ++ ascii ":" ++ text) ++ ascii "\x7d"

def canonicalItems : List Value → Option (List Bytes)
  | [] => some []
  | item :: items => (canonicalJson item).bind fun text =>
      (canonicalItems items).map fun texts => text :: texts

def canonicalMembers : List (Str × Value) → Option (List (Str × Bytes))
  | [] => some []
  | (key, value) :: entries => (canonicalJson value).bind fun text =>
      (canonicalMembers entries).map fun members => (key, text) :: members

end

def requireOptionalString (mapping : Dict) (label key : String) : Result Unit :=
  if (mapping.lookup (str key)).isSome then do
    let _ ← requireString mapping key label
    pure ()
  else
    pure ()

/-- `_validate_commit_time` -/
def validateCommitTime (commitTime : Dict) (solutionCid solutionHash daMode : Str)
    (solution : Option Bytes) : Result Unit := do
  requireKeySet commitTime commitTimeRequired commitTimeOptional "commit_time"
  requireOptionalString commitTime "commit_time" "provider"
  requireOptionalString commitTime "commit_time" "receipt_uri"
  requireOptionalString commitTime "commit_time" "block_reference"
  revertIf (∀ value ∈ commitTime.lookup (str "solution_cid"), value.isStr solutionCid = false)
    (.daEvidence "commit_time.solution_cid must match evidence.solution_cid")
  revertIf (∀ value ∈ commitTime.lookup (str "payload_sha256"), value.isStr solutionHash = false)
    (.daEvidence "commit_time.payload_sha256 must match evidence.solution_hash")
  let length ← requireByteLength (commitTime.lookup (str "solution_bytes_length"))
    "commit_time.solution_bytes_length"
  revertIf (∃ bytes ∈ solution, length ≠ bytes.length)
    (.daEvidence "commit_time.solution_bytes_length does not match solution bytes")
  if daMode = str "onchain" then do
    revertIf ((commitTime.lookup (str "store_locator")).isSome = true)
      (.daEvidence "onchain commit_time must not carry a store_locator")
    revertIf (length ≤ 0) (.daEvidence "onchain commit_time requires solution_bytes_length > 0")
    revertIf (length > maxOnchainSolutionBytes)
      (.daEvidence s!"onchain commit_time.solution_bytes_length exceeds {maxOnchainSolutionBytes} bytes")
    revertIf ((commitTime.lookup (str "reveal_tx")).isNone = true)
      (.daEvidence "onchain commit_time requires a reveal_tx")
    let revealTx ← requireString commitTime "reveal_tx" "commit_time"
    revertIf (isBytes32 revealTx = false)
      (.daEvidence "commit_time.reveal_tx must be a 32-byte 0x-prefixed tx hash")
  else do
    let _ ← requireString commitTime "store_locator" "commit_time"
    revertIf ((commitTime.lookup (str "reveal_tx")).isSome = true)
      (.daEvidence "offchain commit_time must not carry a reveal_tx")

/-- The arguments of `build_da_evidence`, with the clock. -/
structure Request where
  manifest : Dict
  solution : Bytes
  solutionCid : Str
  solverAddress : Str
  salt : Str
  utcNow : Str
  commitProvider : Option Str := none
  commitReceiptUri : Option Str := none
  commitBlockReference : Option Str := none
  daMode : Str := str "onchain"
  revealTx : Option Str := none
  storeLocator : Option Str := none
  solutionBytesLength : Option ℤ := none
  arweaveTxid : Option Str := none
  arweaveReceiptUri : Option Str := none

/-- `if value is not None: mapping[key] = value` -/
def optionalEntry (key : String) : Option Str → Dict
  | none => []
  | some value => [(str key, .str value)]

end P42Prizes.DaEvidence
