import Rustodon.Schemes.Base64
import Rustodon.Schemes.Bytes
import Rustodon.Schemes.Checked
import Rustodon.Schemes.JsonMaps

/-! @src crypto.rs | name:Encrypted strings | scheme:json-text | family:crypto

    The envelope in which Active Record keeps an encrypted string. It is read as JSON, and beside that
    its text is searched for the keys and the strings that have been found in it. -/

namespace Rustodon.Crypto
open Schemes.Checked Schemes.Json Schemes.JsonText Schemes.JsonMaps Schemes.Matches
open Schemes.Utf8 (Text)
open Schemes.Bytes (Bytes utf8 fromUtf8)

def gcmIvLength : ℕ := 12

def gcmTagLength : ℕ := 16

/-! ### Configuration -/

inductive EncryptionConfigError where
  | missingPrimaryKey | missingDeterministicKey | missingKeyDerivationSalt
  deriving DecidableEq, Repr

/-- The secrets of Active Record encryption, all of which are present. -/
structure ActiveRecordEncryptionConfig where
  primaryKey : Text
  deterministicKey : Text
  keyDerivationSalt : Text
  primaryKey_ne_nil : primaryKey ≠ []
  deterministicKey_ne_nil : deterministicKey ≠ []
  keyDerivationSalt_ne_nil : keyDerivationSalt ≠ []

def ActiveRecordEncryptionConfig.new (primaryKey deterministicKey keyDerivationSalt : Text) :
    Except EncryptionConfigError ActiveRecordEncryptionConfig :=
  if hprimary : primaryKey = [] then .error .missingPrimaryKey
  else if hdeterministic : deterministicKey = [] then .error .missingDeterministicKey
  else if hsalt : keyDerivationSalt = [] then .error .missingKeyDerivationSalt
  else .ok ⟨primaryKey, deterministicKey, keyDerivationSalt, hprimary, hdeterministic, hsalt⟩

/-! ### Primitives -/

inductive DerivationDigest where
  | sha256 | sha1
  deriving DecidableEq, Repr

/-- What the libraries compute. -/
structure Primitives where
  /-- `pbkdf2_hmac` of a password and a salt, with 65,536 rounds into 32 bytes. -/
  deriveKey : DerivationDigest → Bytes → Bytes → Bytes
  /-- AES-GCM of a key, an IV and a plaintext: the ciphertext and the tag. -/
  encryptDetached : Bytes → Bytes → Bytes → Option (Bytes × Bytes)
  /-- AES-GCM of a key, an IV, a ciphertext and a tag. -/
  decryptDetached : Bytes → Bytes → Bytes → Bytes → Option Bytes
  /-- At most so many bytes of a zlib stream. -/
  inflate : Bytes → ℕ → Option Bytes

/-- AES-GCM decrypts what it has encrypted, and its tags have 16 bytes. -/
structure Primitives.Lawful (prims : Primitives) : Prop where
  decrypts : ∀ {key iv plaintext ciphertext tag}, iv.length = gcmIvLength →
    prims.encryptDetached key iv plaintext = some (ciphertext, tag) →
      prims.decryptDetached key iv ciphertext tag = some plaintext
  tag_length : ∀ {key iv plaintext ciphertext tag},
    prims.encryptDetached key iv plaintext = some (ciphertext, tag) → tag.length = gcmTagLength

/-- What is drawn for an encryption. -/
structure Iv where
  bytes : Bytes
  length_eq : bytes.length = gcmIvLength

/-! ### Envelopes -/

inductive ActiveRecordDecryptionError where
  | invalidEnvelope | invalidBase64 | invalidIvLength | invalidTagLength | unsupportedEncoding
  | authenticationFailed | invalidCompression | plaintextTooLarge | invalidPlaintextEncoding
  deriving DecidableEq, Repr

inductive ActiveRecordEncryptionError where
  | encryptionFailed | serializationFailed
  deriving DecidableEq, Repr

structure Envelope where
  payload : Bytes
  iv : Bytes
  tag : Bytes
  compressed : Bool
  deriving DecidableEq, Repr

def isAsciiWhitespace (byte : UInt8) : Bool :=
  byte == 32 || byte == 9 || byte == 10 || byte == 12 || byte == 13

def requireOneKey (serialized : Text) (key : String) : Except ActiveRecordDecryptionError Unit :=
  if countMatches (quoted key.toList) serialized = 1 then .ok () else .error .invalidEnvelope

def hasLiteralJsonString (serialized : Text) (value : String) : Bool :=
  Schemes.Utf8.contains (quoted value.toList) serialized

def stringHeader (headers : Fields) (serialized : Text) (key : String) :
    Except ActiveRecordDecryptionError String :=
  okOr (((Schemes.Json.get headers key).bind Value.asStr).filter (hasLiteralJsonString serialized))
    .invalidEnvelope

/-- `STANDARD.encode`. -/
def encodeBase64 (bytes : Bytes) : String := String.ofList (Schemes.Base64.encode bytes)

def decodeBase64 (value : String) : Except ActiveRecordDecryptionError Bytes := do
  let decoded ← okOr (Schemes.Base64.decode value.toList) .invalidBase64
  failIf (decide (encodeBase64 decoded ≠ value)) .invalidBase64
  .ok decoded

def isHeader (key : String) : Bool := key == "iv" || key == "at" || key == "c" || key == "e"

/-- The loop over the keys of the headers. -/
def requireHeaders (serialized : Text) : Fields → Except ActiveRecordDecryptionError Unit
  | [] => .ok ()
  | (key, _) :: headers => do
    failIf (!isHeader key) .invalidEnvelope
    requireOneKey serialized key
    requireHeaders serialized headers

/-- The header `c`, which can only be `true`. -/
def compressedHeader (headers : Fields) : Except ActiveRecordDecryptionError Bool :=
  match Schemes.Json.get headers "c" with
  | some (.bool true) => .ok true
  | some _ => .error .invalidEnvelope
  | none => .ok false

def utf8Name : Bytes := utf8 "UTF-8".toList

/-- The header `e`, which can only be UTF-8. -/
def requireEncoding (headers : Fields) (serialized : Text) : Except ActiveRecordDecryptionError Unit :=
  match Schemes.Json.get headers "e" with
  | some encoding => do
    let encoding ← okOr (encoding.asStr.filter (hasLiteralJsonString serialized)) .invalidEnvelope
    let name ← decodeBase64 encoding
    failIf (decide (name ≠ utf8Name)) .unsupportedEncoding
  | none => .ok ()

def parseEnvelope (serialized : Text) : Except ActiveRecordDecryptionError Envelope := do
  failIf ((utf8 serialized).any isAsciiWhitespace) .invalidEnvelope
  let value ← okOr (fromStr serialized) .invalidEnvelope
  let object ← okOr (value.asObject.filter fun object => object.length == 2) .invalidEnvelope
  requireOneKey serialized "p"
  requireOneKey serialized "h"
  let payloadText ← stringHeader object serialized "p"
  let headers ← okOr (((Schemes.Json.get object "h").bind Value.asObject).filter fun headers =>
    decide (2 ≤ headers.length ∧ headers.length ≤ 4)) .invalidEnvelope
  requireHeaders serialized headers
  let ivText ← stringHeader headers serialized "iv"
  let tagText ← stringHeader headers serialized "at"
  let compressed ← compressedHeader headers
  requireEncoding headers serialized
  let payload ← decodeBase64 payloadText
  let iv ← decodeBase64 ivText
  let tag ← decodeBase64 tagText
  failIf (decide (iv.length ≠ gcmIvLength)) .invalidIvLength
  failIf (decide (tag.length ≠ gcmTagLength)) .invalidTagLength
  .ok ⟨payload, iv, tag, compressed⟩

/-! ### Strings -/

section Strings

variable (prims : Primitives)

def authenticate (envelope : Envelope) (password salt : Bytes) (digest : DerivationDigest) :
    Option Bytes :=
  prims.decryptDetached (prims.deriveKey digest password salt) envelope.iv envelope.payload envelope.tag

/-- Reads one byte more than the limit, so that a stream beyond it is told. -/
def inflateBounded (compressed : Bytes) (maxPlaintextBytes : ℕ) :
    Except ActiveRecordDecryptionError Bytes := do
  let byteLimit := min (maxPlaintextBytes + 1) (2 ^ 64 - 1)
  let plaintext ← okOr (prims.inflate compressed byteLimit) .invalidCompression
  failIf (decide (maxPlaintextBytes < plaintext.length)) .plaintextTooLarge
  .ok plaintext

def secretFromUtf8 (bytes : Bytes) : Except ActiveRecordDecryptionError Text :=
  okOr (fromUtf8 bytes) .invalidPlaintextEncoding

def decryptString (config : ActiveRecordEncryptionConfig) (serialized : Text)
    (maxPlaintextBytes : ℕ) : Except ActiveRecordDecryptionError Text := do
  let envelope ← parseEnvelope serialized
  let authenticated :=
    authenticate prims envelope (utf8 config.primaryKey) (utf8 config.keyDerivationSalt)
  let plaintext ← okOr ((authenticated .sha256).or (authenticated .sha1)) .authenticationFailed
  if envelope.compressed then do
    let inflated ← inflateBounded prims plaintext maxPlaintextBytes
    secretFromUtf8 inflated
  else do
    failIf (decide (maxPlaintextBytes < plaintext.length)) .plaintextTooLarge
    secretFromUtf8 plaintext

/-- The object that `json!` makes of a ciphertext. -/
def encryptedObject (payload iv tag : Bytes) : Value :=
  .object (collect [("p", .string (encodeBase64 payload)),
    ("h", .object (collect [("iv", .string (encodeBase64 iv)), ("at", .string (encodeBase64 tag)),
      ("e", .string (encodeBase64 utf8Name))]))])

def encryptString (config : ActiveRecordEncryptionConfig) (iv : Iv) (plaintext : Text) :
    Except ActiveRecordEncryptionError Text := do
  let key := prims.deriveKey .sha256 (utf8 config.primaryKey) (utf8 config.keyDerivationSalt)
  let sealed ← okOr (prims.encryptDetached key iv.bytes (utf8 plaintext)) .encryptionFailed
  .ok (jsonText (encryptedObject sealed.1 iv.bytes sealed.2))

end Strings

end Rustodon.Crypto
