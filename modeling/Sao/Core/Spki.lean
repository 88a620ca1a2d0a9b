import Sao.Core.Ext

/-!
# `spki.rs`: the fingerprint of a TLS certificate

| here | there |
| --- | --- |
| `spkiSha256Bytes`, `spkiSha256Hex` | `spki_sha256_bytes_from_cert_der`, `spki_sha256_hex_from_cert_der` |
| `spkiSha256HexFromPem`             | `spki_sha256_hex_from_pem` |
-/

namespace Sao

variable (X : Ext)

def spkiSha256Bytes (der : Bytes) : Except CoreError (ByteArr 32) :=
  match X.subjectPkiRaw der with
  | .error e => .error (.x509 e)
  | .ok spki => .ok (X.sha256 spki)

def spkiSha256Hex (der : Bytes) : Except CoreError Str :=
  match spkiSha256Bytes X der with
  | .error e => .error e
  | .ok fp => .ok (Text.hexEncode fp.1)

def START : Str := "-----BEGIN CERTIFICATE-----".toList
def END : Str := "-----END CERTIFICATE-----".toList

/-- The lines that are neither empty nor comments, joined and trimmed. -/
def pemBase64 (body : Str) : Str :=
  Text.trim ((Text.lines body).filter fun l => l ≠ [] ∧ l.head? ≠ some '#').flatten

/-- The first PEM `CERTIFICATE` block, wherever its markers stand. -/
def spkiSha256HexFromPem (pem : Str) : Except CoreError Str :=
  match Text.splitFirst START pem with
  | none => .error (.x509 "no BEGIN CERTIFICATE".toList)
  | some (_, rest) =>
    match Text.splitFirst END rest with
    | none => .error (.x509 "no END CERTIFICATE".toList)
    | some (body, _) =>
      match X.base64Decode (pemBase64 body) with
      | .error e => .error (.x509 e)
      | .ok der => spkiSha256Hex X der

theorem spkiSha256Hex_ok {X : Ext} {der : Bytes} {hexFp : Str} (h : spkiSha256Hex X der = .ok hexFp) :
    ∃ fp, spkiSha256Bytes X der = .ok fp ∧ hexFp = Text.hexEncode fp.1 := by
  unfold spkiSha256Hex at h
  split at h
  · cases h
  · rename_i fp hfp
    cases h
    exact ⟨fp, hfp, rfl⟩

end Sao
