import Sao.Core.Auth

/-!
# A reference instance of the outside

The decoders of `Json` and `Base64` with lower case as in ASCII, over any signature scheme and hash.

* `lawful_reference` — it is lawful whenever honest signatures verify.
* `sample` — a scheme that has one real key pair, with its fingerprint and its signature of one
  real challenge; elsewhere it is a stand-in.
-/

namespace Sao

structure Crypto where
  sha256 : Bytes → ByteArr 32
  verifyingKeyFromBytes : ByteArr 32 → Except Str Unit
  verifyStrict : ByteArr 32 → Bytes → ByteArr 64 → Bool
  verifyingKey : ByteArr 32 → ByteArr 32
  sign : ByteArr 32 → Bytes → ByteArr 64
  subjectPkiRaw : Bytes → Except Str Bytes

namespace Reference

def field (o : Json.Obj) (key : Str) : Except Str Json.Scalar :=
  match o.lookup key with
  | some v => .ok v
  | none => .error ("missing field ".toList ++ key)

def strField (o : Json.Obj) (key : Str) : Except Str Str := do
  match ← field o key with
  | .str s => .ok s
  | _ => .error "invalid type, expected a string".toList

def boolField (o : Json.Obj) (key : Str) : Except Str Bool := do
  match ← field o key with
  | .bool b => .ok b
  | _ => .error "invalid type, expected a boolean".toList

/-- `#[serde(default)]` of an `Option<String>` -/
def optStrField (o : Json.Obj) (key : Str) : Except Str (Option Str) :=
  match o.lookup key with
  | none => .ok none
  | some .null => .ok none
  | some (.str s) => .ok (some s)
  | some _ => .error "invalid type, expected a string".toList

def fromSlice (b : Bytes) : Except Str Json.Obj :=
  match Json.fromSlice b with
  | some o => .ok o
  | none => .error "invalid JSON".toList

def asStr : Option Json.Scalar → Option Str
  | some (.str s) => some s
  | _ => none

/-- `as_i64` -/
def asI64 : Option Json.Scalar → Option Int64
  | some (.num n) => if -2 ^ 63 ≤ n ∧ n < 2 ^ 63 then some (Int64.ofInt n) else none
  | _ => none

def base64Decode (s : Str) : Except Str Bytes :=
  match Base64.decode s with
  | some b => .ok b
  | none => .error "Invalid padding".toList

end Reference

open Reference

def Ext.reference (C : Crypto) : Ext where
  toLowercase := Text.asciiLower
  debugStr s := "\"".toList ++ Json.printChars s
  fromUtf8Lossy b := (Bytes.fromUtf8 b).getD []
  base64Decode := Reference.base64Decode
  sha256 := C.sha256
  verifyingKeyFromBytes := C.verifyingKeyFromBytes
  verifyStrict := C.verifyStrict
  verifyingKey := C.verifyingKey
  sign := C.sign
  authResponse b := do
    let o ← fromSlice b
    return ⟨← strField o "key_type".toList, ← strField o "fingerprint".toList, ← strField o "signature".toList⟩
  execShell b := do strField (← fromSlice b) "shell".toList
  authChallenge b := do
    let o ← fromSlice b
    return ⟨← strField o "nonce".toList, ← strField o "session_id".toList⟩
  authResult b := do
    let o ← fromSlice b
    return ⟨← boolField o "ok".toList, ← optStrField o "reason".toList, ← optStrField o "message".toList⟩
  streamData b := do return asStr ((← fromSlice b).lookup "data".toList)
  exitCode b := do return asI64 ((← fromSlice b).lookup "exit_code".toList)
  subjectPkiRaw := C.subjectPkiRaw

theorem fromSlice_toVec (o : Json.Obj) : fromSlice (Json.toVec o) = .ok o := by
  unfold fromSlice
  rw [Json.fromSlice_toVec]

theorem asI64_num (c : Int32) : asI64 (some (.num c.toInt)) = some c.toInt64 := by
  have h1 := c.toInt_lt
  have h2 := c.le_toInt
  unfold asI64
  simp only
  rw [if_pos (by omega), Int64.ofInt_int32ToInt]

/-- **Decoding undoes encoding**, and the scheme only has to accept its own signatures. -/
theorem lawful_reference (C : Crypto) (h : ∀ sk m, C.verifyStrict (C.verifyingKey sk) m (C.sign sk m) = true) :
    (Ext.reference C).Lawful where
  lowercase := Text.lowercase_asciiLower
  base64 b := by
    show Reference.base64Decode (Base64.encode b) = .ok b
    unfold Reference.base64Decode
    rw [Base64.decode_encode]
  authResponse fp kt sig := by
    simp only [Ext.reference, fromSlice_toVec]
    rfl
  execShell shell := by
    simp only [Ext.reference, fromSlice_toVec]
    rfl
  authChallenge nonce sid := by
    simp only [Ext.reference, fromSlice_toVec]
    rfl
  authOk name group := by
    simp only [Ext.reference, fromSlice_toVec]
    rfl
  authFail reason message := by
    simp only [Ext.reference, fromSlice_toVec]
    rfl
  streamData b := by
    simp only [Ext.reference, fromSlice_toVec]
    rfl
  exitCode c := by
    have hl : (execExitJson c).lookup "exit_code".toList = some (.num c.toInt) := rfl
    simp only [Ext.reference, fromSlice_toVec]
    show Except.ok (asI64 ((execExitJson c).lookup "exit_code".toList)) = _
    rw [hl, asI64_num]
  verify := h

/-! ## One real key pair -/

namespace Sample

def secretKey : ByteArr 32 :=
  ⟨[0x9d, 0x61, 0xb1, 0x9d, 0xef, 0xfd, 0x5a, 0x60, 0xba, 0x84, 0x4a, 0xf4, 0x92, 0xec, 0x2c, 0xc4,
    0x44, 0x49, 0xc5, 0x69, 0x7b, 0x32, 0x69, 0x19, 0x70, 0x3b, 0xac, 0x03, 0x1c, 0xae, 0x7f, 0x60], rfl⟩

def publicKey : ByteArr 32 :=
  ⟨[0xd7, 0x5a, 0x98, 0x01, 0x82, 0xb1, 0x0a, 0xb7, 0xd5, 0x4b, 0xfe, 0xd3, 0xc9, 0x64, 0x07, 0x3a,
    0x0e, 0xe1, 0x72, 0xf3, 0xda, 0xa6, 0x23, 0x25, 0xaf, 0x02, 0x1a, 0x68, 0xf7, 0x07, 0x51, 0x1a], rfl⟩

/-- SHA-256 of `publicKey`. -/
def digest : ByteArr 32 :=
  ⟨[0x21, 0xfe, 0x31, 0xdf, 0xa1, 0x54, 0xa2, 0x61, 0x62, 0x6b, 0xf8, 0x54, 0x04, 0x6f, 0xd2, 0x27,
    0x1b, 0x7b, 0xed, 0x4b, 0x6a, 0xbe, 0x45, 0xaa, 0x58, 0x87, 0x7e, 0xf4, 0x7f, 0x97, 0x21, 0xb9], rfl⟩

/-- 1, 2, ..., 32 -/
def nonce : ByteArr 32 := ⟨(List.range 32).map fun i => UInt8.ofNat (i + 1), rfl⟩

def sessionId : Str := "b5e1c0de-0000-4000-8000-000000000001".toList

/-- The Ed25519 signature of `signing_bytes(nonce, session_id)`. -/
def signature : ByteArr 64 :=
  ⟨[0xda, 0x08, 0xfe, 0x57, 0x99, 0x55, 0x3d, 0x14, 0xbf, 0xa6, 0xcf, 0xcb, 0xd5, 0x07, 0xb8, 0x29,
    0x7c, 0x3f, 0x02, 0xd2, 0xa8, 0xdd, 0x58, 0x99, 0x52, 0xd5, 0x89, 0x43, 0x57, 0xd0, 0x96, 0xc4,
    0xc1, 0x1c, 0xa0, 0xdf, 0x48, 0xbf, 0x9d, 0xb8, 0x1f, 0xe6, 0xc3, 0xcb, 0xe4, 0xb5, 0xbd, 0xb7,
    0x53, 0xad, 0xe0, 0x52, 0x4f, 0x9c, 0x93, 0xb5, 0x1f, 0xde, 0x4e, 0xc9, 0x00, 0xd8, 0xf5, 0x07], rfl⟩

/-- The signature the key of `publicKey` makes, the zero signature for every other message and key. -/
def signatureOf (pk : ByteArr 32) (m : Bytes) : ByteArr 64 :=
  if pk = publicKey ∧ m = signingBytes nonce.1 sessionId then signature else ⟨List.replicate 64 0, rfl⟩

/-- The `SubjectPublicKeyInfo` of `publicKey`. -/
def spki : Bytes := [0x30, 0x2a, 0x30, 0x05, 0x06, 0x03, 0x2b, 0x65, 0x70, 0x03, 0x21, 0x00] ++ publicKey.1

/-- SHA-256 of `spki`. -/
def spkiDigest : ByteArr 32 :=
  ⟨[0x06, 0xe3, 0xfd, 0x8f, 0xda, 0x29, 0xbb, 0x60, 0xab, 0x59, 0x55, 0x7d, 0xe6, 0x1e, 0xdb, 0x0a,
    0xec, 0xdb, 0x23, 0x11, 0x34, 0xbe, 0x30, 0xe7, 0x5b, 0x45, 0x5f, 0x8e, 0x1b, 0x79, 0x2f, 0xa9], rfl⟩

/-- A self-signed X.509 certificate of `publicKey`, version 3, for the name `sao`. -/
def certificate : Bytes :=
  [0x30, 0x81, 0xe2, 0x30, 0x81, 0x95, 0xa0, 0x03, 0x02, 0x01, 0x02, 0x02, 0x01, 0x01, 0x30, 0x05,
    0x06, 0x03, 0x2b, 0x65, 0x70, 0x30, 0x0e, 0x31, 0x0c, 0x30, 0x0a, 0x06, 0x03, 0x55, 0x04, 0x03,
    0x0c, 0x03, 0x73, 0x61, 0x6f, 0x30, 0x1e, 0x17, 0x0d, 0x32, 0x36, 0x31, 0x31, 0x31, 0x39, 0x31,
    0x33, 0x34, 0x32, 0x32, 0x35, 0x5a, 0x17, 0x0d, 0x33, 0x36, 0x31, 0x31, 0x31, 0x36, 0x31, 0x33,
    0x34, 0x32, 0x32, 0x35, 0x5a, 0x30, 0x0e, 0x31, 0x0c, 0x30, 0x0a, 0x06, 0x03, 0x55, 0x04, 0x03,
    0x0c, 0x03, 0x73, 0x61, 0x6f] ++
    spki ++
    [0xa3, 0x18, 0x30, 0x16, 0x30, 0x14, 0x06, 0x03, 0x55, 0x1d, 0x11, 0x04, 0x0d, 0x30, 0x0b, 0x82,
    0x09, 0x6c, 0x6f, 0x63, 0x61, 0x6c, 0x68, 0x6f, 0x73, 0x74, 0x30, 0x05, 0x06, 0x03, 0x2b, 0x65,
    0x70, 0x03, 0x41, 0x00, 0x44, 0x48, 0x23, 0x02, 0x92, 0xec, 0xfa, 0x7c, 0xa2, 0xbc, 0x4a, 0x7f,
    0xbd, 0xcd, 0x1b, 0x0f, 0x02, 0x95, 0x08, 0x72, 0xa6, 0xde, 0x67, 0x07, 0xbc, 0x03, 0x71, 0xf6,
    0x37, 0xf6, 0x7b, 0x18, 0x9d, 0xa6, 0x9b, 0x27, 0x15, 0x5b, 0x3c, 0x37, 0xa8, 0x02, 0x68, 0xd9,
    0x12, 0x11, 0x78, 0xff, 0xe2, 0x8f, 0xed, 0xa8, 0x03, 0x37, 0x10, 0x23, 0x8a, 0x06, 0x08, 0x09,
    0x38, 0x2a, 0xd1, 0x00]

def crypto : Crypto where
  sha256 b := if b = publicKey.1 then digest else if b = spki then spkiDigest else ⟨List.replicate 32 0, rfl⟩
  verifyingKeyFromBytes b := if b = publicKey then .ok () else .error "Cannot decompress Edwards point".toList
  verifyStrict pk m sig := sig = signatureOf pk m
  verifyingKey sk := if sk = secretKey then publicKey else sk
  sign sk m := signatureOf (if sk = secretKey then publicKey else sk) m
  subjectPkiRaw der := if der = certificate then .ok spki else .error "Parsing Error: InvalidTag".toList

/-- Another key, and another digest, than those above. -/
def zeros : ByteArr 32 := ⟨List.replicate 32 0, rfl⟩

theorem sha256_spki : crypto.sha256 spki = spkiDigest := by
  have hne : spki ≠ publicKey.1 := by
    intro h
    have hlen := congrArg List.length h
    rw [spki, List.length_append, publicKey.2] at hlen
    cases hlen
  simp only [crypto, if_neg hne, if_true]

/-- The line of `agent.ed25519.pub`. -/
def keyFile : Str := "sao-ed25519 11qYAYKxCrfVS/7TyWQHOg7hcvPapiMlrwIaaPcHURo= agent\n".toList

end Sample

/-- The outside with the sample key. -/
def Ext.sample : Ext := .reference Sample.crypto

theorem lawful_sample : Ext.sample.Lawful := by
  apply lawful_reference
  intro sk m
  exact decide_eq_true rfl

namespace Sample

def entry : AuthorizedKey Ext.sample where
  keyType := KEY_TYPE_ED25519
  verifyingKey := ⟨publicKey, rfl⟩
  fingerprintHex := Text.hexEncode digest.1
  comment := "agent".toList
  fingerprint_eq := rfl

/-- The line of the file holds the key, wherever it stands. -/
theorem line_keyFile (lineno : Nat) : authorizedKeyLine Ext.sample lineno keyFile.dropLast = .ok (some entry) := by
  have htrim : Text.trim keyFile.dropLast = keyFile.dropLast := by decide
  have hword : Text.splitWhitespace keyFile.dropLast =
      [KEY_TYPE_ED25519, Base64.encode publicKey.1, "agent".toList] := by decide +kernel
  unfold authorizedKeyLine
  rw [htrim, if_neg (by decide), hword]
  simp only [lawful_sample.base64, ne_eq, not_true_eq_false, if_false]
  rfl

theorem load_keyFile : loadAuthorizedKeys Ext.sample (.ok keyFile) = .ok [entry] := by
  have hlines : Text.lines keyFile = [keyFile.dropLast] := by decide
  unfold loadAuthorizedKeys
  simp only [hlines, authorizedKeyLines, line_keyFile, Option.toList_some, List.append_nil]

end Sample

end Sao
