import Sao.Lib.Base64
import Sao.Lib.Json
import Sao.Core.Error
import Sao.Protocol.Frame

/-!
# Code outside the repository

`Ext` collects what the program calls: `sha2`, `ed25519_dalek`, `base64`'s decoder, `serde_json`'s
decoders for the types of the program, `x509_parser` and the Unicode tables of `str`. Errors are
the text that `Display` gives them. The encoders of `base64` and `serde_json` are concrete
(`Base64.encode`, `Json.toVec`).

| here | there |
| --- | --- |
| `AuthResponsePayload`, `execShell`        | the types `session.rs` deserializes |
| `AuthChallenge`, `AuthResult`             | the types the client deserializes |
| `streamData`, `exitCode`                  | `v.get("data").and_then(as_str)`, `v.get("exit_code").and_then(as_i64)` of a parsed `Value` |
-/

namespace Sao

structure AuthResponsePayload where
  keyType : Str
  fingerprint : Str
  signature : Str
deriving DecidableEq, Repr

structure AuthChallenge where
  nonce : Str
  sessionId : Str
deriving DecidableEq, Repr

structure AuthResult where
  ok : Bool
  reason : Option Str
  message : Option Str
deriving DecidableEq, Repr

structure Ext where
  /-- `str::to_lowercase` -/
  toLowercase : Str → Str
  /-- `{:?}` of a `str` -/
  debugStr : Str → Str
  /-- `String::from_utf8_lossy` -/
  fromUtf8Lossy : Bytes → Str
  base64Decode : Str → Except Str Bytes
  sha256 : Bytes → ByteArr 32
  /-- `VerifyingKey::from_bytes` fails on bytes that are not a curve point. -/
  verifyingKeyFromBytes : ByteArr 32 → Except Str Unit
  verifyStrict : ByteArr 32 → Bytes → ByteArr 64 → Bool
  /-- `SigningKey::verifying_key`, from the 32 secret bytes. -/
  verifyingKey : ByteArr 32 → ByteArr 32
  sign : ByteArr 32 → Bytes → ByteArr 64
  authResponse : Bytes → Except Str AuthResponsePayload
  execShell : Bytes → Except Str Str
  authChallenge : Bytes → Except Str AuthChallenge
  authResult : Bytes → Except Str AuthResult
  streamData : Bytes → Except Str (Option Str)
  exitCode : Bytes → Except Str (Option Int64)
  /-- `X509Certificate::from_der`, then `subject_pki.raw`. -/
  subjectPkiRaw : Bytes → Except Str Bytes

/-! ## What the program encodes -/

/-- `write_frame(t, &serde_json::to_vec(&o)?)` -/
def jsonFrame (t : UInt8) (o : Json.Obj) : Frame := ⟨t, Json.toVec o⟩

/-- `AuthChallengePayload`, in the order of its fields. -/
def challengeJson (nonce : Bytes) (sessionId : Str) : Json.Obj :=
  [("nonce".toList, .str (Base64.encode nonce)), ("session_id".toList, .str sessionId)]

/-- The members of a `json!` object are sorted. -/
def authResponseJson (fingerprint keyType signature : Str) : Json.Obj :=
  [("fingerprint".toList, .str fingerprint), ("key_type".toList, .str keyType),
    ("signature".toList, .str signature)]

def optStr : Option Str → Json.Scalar
  | none => .null
  | some s => .str s

def authOkJson (agentName : Option Str) (policyGroup : Str) : Json.Obj :=
  [("agent_name".toList, optStr agentName), ("ok".toList, .bool true), ("policy_group".toList, .str policyGroup)]

def authFailJson (reason message : Str) : Json.Obj :=
  [("message".toList, .str message), ("ok".toList, .bool false), ("reason".toList, .str reason)]

def errorJson (code message : Str) : Json.Obj :=
  [("code".toList, .str code), ("message".toList, .str message)]

def policyDeniedJson (msg : Str) : Json.Obj :=
  [("code".toList, .str "POLICY_DENIED".toList), ("message".toList, .str msg), ("rule_id".toList, .null)]

def execShellJson (shell : Str) : Json.Obj := [("shell".toList, .str shell)]

def streamJson (b : Bytes) : Json.Obj := [("data".toList, .str (Base64.encode b))]

def execExitJson (code : Int32) : Json.Obj := [("exit_code".toList, .num code.toInt), ("signal".toList, .null)]

/-! ## What is relied on -/

/-- The decoders undo the encoders, and an honest signature verifies. -/
structure Ext.Lawful (X : Ext) : Prop where
  lowercase : Text.Lowercase X.toLowercase
  base64 : ∀ b, X.base64Decode (Base64.encode b) = .ok b
  authResponse : ∀ fingerprint keyType signature,
    X.authResponse (Json.toVec (authResponseJson fingerprint keyType signature)) =
      .ok ⟨keyType, fingerprint, signature⟩
  execShell : ∀ shell, X.execShell (Json.toVec (execShellJson shell)) = .ok shell
  authChallenge : ∀ nonce sessionId, X.authChallenge (Json.toVec (challengeJson nonce sessionId)) =
    .ok ⟨Base64.encode nonce, sessionId⟩
  authOk : ∀ agentName policyGroup, X.authResult (Json.toVec (authOkJson agentName policyGroup)) =
    .ok ⟨true, none, none⟩
  authFail : ∀ reason message, X.authResult (Json.toVec (authFailJson reason message)) =
    .ok ⟨false, some reason, some message⟩
  streamData : ∀ b, X.streamData (Json.toVec (streamJson b)) = .ok (some (Base64.encode b))
  exitCode : ∀ c : Int32, X.exitCode (Json.toVec (execExitJson c)) = .ok (some c.toInt64)
  verify : ∀ sk m, X.verifyStrict (X.verifyingKey sk) m (X.sign sk m) = true

end Sao
