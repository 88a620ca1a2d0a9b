import Sao.Core.Ext

/-!
# `authorized_keys.rs`, `auth_message.rs`, `policy.rs` and the configuration they read

| here | there |
| --- | --- |
| `signingBytes`                       | `signing_bytes` |
| `VerifyingKey`, `AuthorizedKey`      | `VerifyingKey` (32 bytes that decompress), `AuthorizedKey` |
| `authorizedKeyLine`, `loadAuthorizedKeys` | the loop body and the whole of `load_authorized_keys`, from the file's text |
| `findKey`, `verifyEd25519Signature`  | `find_key`, `verify_ed25519_signature` |
| `checkShell`                         | `check_shell` |

* `signingBytes_inj` — the signed bytes determine nonce and session id among nonces of one length.
* `loadAuthorizedKeys_mem` — every loaded key stands on an active line of the file.
* `findKey_some` — the key found has the fingerprint asked for.
-/

namespace Sao

open Text

/-! ## Signed bytes -/

/-- `b"sao-auth-v1\0"` -/
def SIGNING_PREFIX : Bytes := Bytes.utf8 "sao-auth-v1".toList ++ [0]

def signingBytes (nonce : Bytes) (sessionId : Str) : Bytes := SIGNING_PREFIX ++ nonce ++ Bytes.utf8 sessionId

/-- Two challenges with the same signed bytes split the same byte string. -/
theorem signingBytes_eq_iff {n n' : Bytes} {s s' : Str} :
    signingBytes n s = signingBytes n' s' ↔ n ++ Bytes.utf8 s = n' ++ Bytes.utf8 s' := by
  unfold signingBytes
  rw [List.append_assoc, List.append_assoc, List.append_cancel_left_eq]

theorem signingBytes_inj {n n' : Bytes} {s s' : Str} (hlen : n.length = n'.length)
    (h : signingBytes n s = signingBytes n' s') : n = n' ∧ s = s' := by
  obtain ⟨hn, hs⟩ := List.append_inj (signingBytes_eq_iff.1 h) hlen
  exact ⟨hn, Bytes.utf8_injective hs⟩

/-! ## Configuration -/

structure PolicyConfig where
  denySubstrings : List Str
deriving DecidableEq, Repr

/-- The fields a session reads. -/
structure ServerConfig where
  policy : PolicyConfig
  shellArgv : List Str
  policyGroupDefault : Str
  policyGroupByFingerprint : List (Str × Str)
deriving DecidableEq, Repr

/-! ## Authorized keys -/

def KEY_TYPE_ED25519 : Str := "sao-ed25519".toList

variable (X : Ext)

structure VerifyingKey where
  bytes : ByteArr 32
  valid : X.verifyingKeyFromBytes bytes = .ok ()

/-- `hex(sha256(pk))` -/
def ed25519FingerprintHex (pk : ByteArr 32) : Str := hexEncode (X.sha256 pk.1).1

structure AuthorizedKey where
  keyType : Str
  verifyingKey : VerifyingKey X
  fingerprintHex : Str
  comment : Str
  fingerprint_eq : fingerprintHex = ed25519FingerprintHex X verifyingKey.bytes

def atLine (lineno : Nat) (msg : Str) : CoreError :=
  .authorizedKeys ("line ".toList ++ decimal (lineno + 1) ++ ": ".toList ++ msg)

/-- The key in the 32 bytes a blob decodes to. -/
def authorizedKeyOfBlob (lineno : Nat) (keyType : Str) (raw : Bytes) (comment : Str) :
    Except CoreError (AuthorizedKey X) :=
  if hlen : raw.length = 32 then
    match hk : X.verifyingKeyFromBytes ⟨raw, hlen⟩ with
    | .error e => .error (atLine lineno e)
    | .ok () =>
      .ok ⟨keyType, ⟨⟨raw, hlen⟩, hk⟩, ed25519FingerprintHex X ⟨raw, hlen⟩, comment, rfl⟩
  else .error (atLine lineno "ed25519 key must decode to 32 bytes".toList)

/-- One line of the file; `lineno` counts from 0. A trimmed line that is not empty has a first
word, so the source's `unwrap` does not panic. -/
def authorizedKeyLine (lineno : Nat) (line : Str) : Except CoreError (Option (AuthorizedKey X)) :=
  if trim line = [] ∨ (trim line).head? = some '#' then .ok none
  else match splitWhitespace (trim line) with
    | keyType :: b64 :: rest =>
      if keyType ≠ KEY_TYPE_ED25519 then .ok none
      else match X.base64Decode b64 with
        | .error e => .error (atLine lineno e)
        | .ok raw => (authorizedKeyOfBlob X lineno keyType raw (List.intercalate [' '] rest)).map some
    | _ => .error (atLine lineno "missing key blob".toList)

def authorizedKeyLines (lineno : Nat) : List Str → Except CoreError (List (AuthorizedKey X))
  | [] => .ok []
  | l :: ls =>
    match authorizedKeyLine X lineno l with
    | .error e => .error e
    | .ok k =>
      match authorizedKeyLines (lineno + 1) ls with
      | .error e => .error e
      | .ok ks => .ok (k.toList ++ ks)

/-- The file's text, or the error reading it gave. -/
def loadAuthorizedKeys (file : Except Str Str) : Except CoreError (List (AuthorizedKey X)) :=
  match file with
  | .error e => .error (.io e)
  | .ok s =>
    match authorizedKeyLines X 0 (lines s) with
    | .error e => .error e
    | .ok [] => .error (.authorizedKeys "no sao-ed25519 keys in file".toList)
    | .ok ks => .ok ks

def findKey (keys : List (AuthorizedKey X)) (fingerprintHex : Str) : Option (AuthorizedKey X) :=
  keys.find? fun k => k.fingerprintHex = X.toLowercase (trim fingerprintHex)

def verifyEd25519Signature (vk : VerifyingKey X) (message : Bytes) (sigB64 : Str) : Except CoreError Unit :=
  match X.base64Decode sigB64 with
  | .error e => .error (.ed25519 e)
  | .ok raw =>
    if hlen : raw.length = 64 then
      if X.verifyStrict vk.bytes message ⟨raw, hlen⟩ then .ok ()
      else .error (.ed25519 "signature verify failed".toList)
    else .error (.ed25519 "bad signature length".toList)

def checkShell (policy : PolicyConfig) (shell : Str) : Except CoreError Unit :=
  match policy.denySubstrings.find? fun pat => pat <:+: shell with
  | some pat => .error (.policyDenied ("matched deny pattern: ".toList ++ X.debugStr pat))
  | none => .ok ()

/-! ## What they establish -/

variable {X}

/-- The line `i` of the text is not a comment, names the key type of the program and holds the key. -/
def ActiveLine (X : Ext) (text : Str) (i : Nat) (key : ByteArr 32) : Prop :=
  ∃ line b64 rest, (lines text)[i]? = some line ∧ (trim line).head? ≠ some '#' ∧
    splitWhitespace (trim line) = KEY_TYPE_ED25519 :: b64 :: rest ∧ X.base64Decode b64 = .ok key.1 ∧
    X.verifyingKeyFromBytes key = .ok ()

theorem authorizedKeyOfBlob_ok {lineno : Nat} {keyType comment : Str} {raw : Bytes} {k : AuthorizedKey X}
    (h : authorizedKeyOfBlob X lineno keyType raw comment = .ok k) : k.verifyingKey.bytes.1 = raw := by
  unfold authorizedKeyOfBlob at h
  split at h
  · split at h
    · cases h
    · cases h; rfl
  · cases h

theorem authorizedKeyLine_some {lineno : Nat} {line : Str} {k : AuthorizedKey X}
    (h : authorizedKeyLine X lineno line = .ok (some k)) :
    (trim line).head? ≠ some '#' ∧ ∃ b64 rest, splitWhitespace (trim line) = KEY_TYPE_ED25519 :: b64 :: rest ∧
      X.base64Decode b64 = .ok k.verifyingKey.bytes.1 := by
  unfold authorizedKeyLine at h
  split at h
  · cases h
  · rename_i hc
    split at h
    · rename_i keyType b64 rest hs
      split at h
      · cases h
      · rename_i hkt
        split at h
        · cases h
        · rename_i raw hraw
          cases hb : authorizedKeyOfBlob X lineno keyType raw (List.intercalate [' '] rest) with
          | error e => rw [hb] at h; cases h
          | ok k' =>
            rw [hb] at h
            cases h
            rw [ne_eq, Decidable.not_not] at hkt
            exact ⟨fun hh => hc (Or.inr hh), b64, rest, hkt ▸ hs, by rw [hraw, authorizedKeyOfBlob_ok hb]⟩
    · cases h

theorem authorizedKeyLines_mem {ls : List Str} {lineno : Nat} {ks : List (AuthorizedKey X)}
    (h : authorizedKeyLines X lineno ls = .ok ks) {k : AuthorizedKey X} (hk : k ∈ ks) :
    ∃ i line, ls[i]? = some line ∧ authorizedKeyLine X (lineno + i) line = .ok (some k) := by
  induction ls generalizing lineno ks with
  | nil => cases h; simp at hk
  | cons l ls ih =>
    simp only [authorizedKeyLines] at h
    cases hl : authorizedKeyLine X lineno l with
    | error e => rw [hl] at h; cases h
    | ok o =>
      rw [hl] at h
      cases hls : authorizedKeyLines X (lineno + 1) ls with
      | error e => rw [hls] at h; cases h
      | ok ks' =>
        rw [hls] at h
        cases h
        rcases List.mem_append.1 hk with hk | hk
        · rw [Option.mem_toList] at hk
          exact ⟨0, l, rfl, hk ▸ hl⟩
        · obtain ⟨i, line, hi, hline⟩ := ih hls hk
          exact ⟨i + 1, line, hi, by rw [← hline]; congr 1; omega⟩

/-- **Loaded keys come from active lines.** -/
theorem loadAuthorizedKeys_mem {file : Except Str Str} {ks : List (AuthorizedKey X)}
    (h : loadAuthorizedKeys X file = .ok ks) {k : AuthorizedKey X} (hk : k ∈ ks) :
    ∃ text i, file = .ok text ∧ ActiveLine X text i k.verifyingKey.bytes := by
  unfold loadAuthorizedKeys at h
  split at h
  · cases h
  · rename_i text
    cases hls : authorizedKeyLines X 0 (lines text) with
    | error e => rw [hls] at h; cases h
    | ok ks' =>
      rw [hls] at h
      have hks : ks' = ks := by
        cases ks' with
        | nil => cases h
        | cons k ks' => cases h; rfl
      obtain ⟨i, line, hi, hline⟩ := authorizedKeyLines_mem hls (hks ▸ hk)
      obtain ⟨hh, b64, rest, hs, hb⟩ := authorizedKeyLine_some hline
      exact ⟨text, i, rfl, line, b64, rest, hi, hh, hs, hb, k.verifyingKey.valid⟩

theorem findKey_some {keys : List (AuthorizedKey X)} {fp : Str} {k : AuthorizedKey X}
    (h : findKey X keys fp = some k) :
    k ∈ keys ∧ ed25519FingerprintHex X k.verifyingKey.bytes = X.toLowercase (trim fp) := by
  have hp := List.find?_some h
  rw [decide_eq_true_eq, k.fingerprint_eq] at hp
  exact ⟨List.mem_of_find?_eq_some h, hp⟩

theorem verifyEd25519Signature_ok {vk : VerifyingKey X} {m : Bytes} {sigB64 : Str}
    (h : verifyEd25519Signature X vk m sigB64 = .ok ()) :
    ∃ sig : ByteArr 64, X.base64Decode sigB64 = .ok sig.1 ∧ X.verifyStrict vk.bytes m sig = true := by
  unfold verifyEd25519Signature at h
  split at h
  · cases h
  · rename_i raw hraw
    split at h
    · rename_i hlen
      split at h
      · rename_i hv
        exact ⟨⟨raw, hlen⟩, hraw, hv⟩
      · cases h
    · cases h

/-- **The policy gate**: a command passes exactly when it contains no deny pattern. -/
theorem checkShell_ok_iff {policy : PolicyConfig} {shell : Str} :
    checkShell X policy shell = .ok () ↔ ∀ pat ∈ policy.denySubstrings, ¬ pat <:+: shell := by
  unfold checkShell
  cases h : policy.denySubstrings.find? fun pat => pat <:+: shell with
  | none => simpa using h
  | some pat =>
    have hp := List.find?_some h
    have hm := List.mem_of_find?_eq_some h
    simp only [reduceCtorEq, false_iff]
    intro hall
    exact hall pat hm (by simpa using hp)

/-- A refused command is answered with the first pattern it matches. -/
theorem checkShell_error {policy : PolicyConfig} {shell : Str} {e : CoreError}
    (h : checkShell X policy shell = .error e) :
    ∃ pat ∈ policy.denySubstrings, pat <:+: shell ∧
      e = .policyDenied ("matched deny pattern: ".toList ++ X.debugStr pat) := by
  unfold checkShell at h
  cases hf : policy.denySubstrings.find? fun pat => pat <:+: shell with
  | none => rw [hf] at h; cases h
  | some pat =>
    rw [hf] at h
    cases h
    have hp := List.find?_some hf
    exact ⟨pat, List.mem_of_find?_eq_some hf, by simpa using hp, rfl⟩

end Sao
