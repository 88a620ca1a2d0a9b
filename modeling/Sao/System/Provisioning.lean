import Sao.Core.AgentKey
import Sao.Client.Steps
import Sao.Server.Opening

/-!
# From the key file to `AUTH_RESULT`

A client's key is created and reloaded, its `.pub` file is added to the key file of a server, and the
client answers a challenge of that server.

* `accepted_authResponse` — the response of the holder of a listed key is accepted.
* `provisioning` — the five formats agree: private file, `.pub` file, key file, the JSON of challenge
  and response, signed bytes.
-/

namespace Sao

open Text MsgType AgentKey

/-! ## The response -/

/-- The challenge of a session is understood. -/
theorem ClientSession.challenges_challenge {X : Ext} (hX : X.Lawful) (E : Session.Env) :
    Challenges X (Session.challenge E) E.nonce.1 E.sessionId :=
  ⟨rfl, ⟨Base64.encode E.nonce.1, E.sessionId⟩, hX.authChallenge _ _, hX.base64 _, rfl⟩

namespace Session

variable {X : Ext} {E : Env} {s s' : State X}

/-- **The response of the holder of a listed key is accepted.** -/
theorem accepted_authResponse (hX : X.Lawful) {keys : List (AuthorizedKey X)} {sk : ByteArr 32}
    {entry : AuthorizedKey X} (hfind : findKey X keys (ed25519FingerprintHex X (X.verifyingKey sk)) = some entry)
    (hb : entry.verifyingKey.bytes = X.verifyingKey sk) :
    Accepted E keys (ClientSession.authResponse X sk E.nonce.1 E.sessionId) entry
      ⟨KEY_TYPE_ED25519, ed25519FingerprintHex X (X.verifyingKey sk),
        Base64.encode (ClientSession.signature X sk E.nonce.1 E.sessionId).1⟩ where
  msgType := rfl
  decodes := hX.authResponse _ _ _
  keyType := rfl
  found := hfind
  verified := by
    have hv := hX.verify sk (signingBytes E.nonce.1 E.sessionId)
    unfold verifyEd25519Signature
    rw [hX.base64]
    simp only
    rw [dif_pos (ClientSession.signature X sk E.nonce.1 E.sessionId).2, hb]
    exact if_pos hv

end Session

/-! ## The handshake -/

/-- From a session that waits for the response: what it sent is answered by every client run that waits
for a challenge with the key, and the answer makes it send `AUTH_RESULT` with `ok`. -/
structure Completes (X : Ext) (E : Session.Env) (sk : ByteArr 32) (entry : AuthorizedKey X) (s : Session.State X) :
    Prop where
  sent : s.out = encode (Session.challenge E)
  responds : ∀ (C : ClientSession.Env) bs u sk' r, C.signingKey = .ok sk →
    ClientSession.run X C ClientSession.init bs = some u → u.pc = .awaitChallenge sk' → u.inbuf = s.out ++ r →
    ∃ u', ClientSession.step X C u .read = some u' ∧
      u'.pc = .write (ClientSession.authResponse X sk E.nonce.1 E.sessionId)
        (encode (ClientSession.authResponse X sk E.nonce.1 E.sessionId)) .awaitResult
  accepts : ∀ r, s.inbuf = encode (ClientSession.authResponse X sk E.nonce.1 E.sessionId) ++ r →
    ∃ s', Session.step E s .read = some s' ∧
      s'.pc = .write (Session.authOk E entry) (encode (Session.authOk E entry)) .authOk
  ok : X.authResult (Session.authOk E entry).payload = .ok ⟨true, none, none⟩

theorem completes {X : Ext} (hX : X.Lawful) {E : Session.Env} {sk : ByteArr 32} {entry : AuthorizedKey X}
    {keys : List (AuthorizedKey X)} (hload : loadAuthorizedKeys X E.authorizedKeys = .ok keys)
    (hfind : findKey X keys (ed25519FingerprintHex X (X.verifyingKey sk)) = some entry)
    (hb : entry.verifyingKey.bytes = X.verifyingKey sk) (hf : (Session.authOk E entry).Fits DEFAULT_MAX_PAYLOAD_LEN)
    {as : List Session.Action} {s : Session.State X} (hrun : Session.run E (Session.init X) as = some s)
    (hpc : s.pc = .awaitAuth) : Completes X E sk entry s := by
  have hopen := Session.opens_run hrun
  rw [Session.Opens, hpc] at hopen
  have hsent : s.out = encode (Session.challenge E) := by rw [← hopen.onStream, List.append_nil]
  have hfind' : findKey X s.keys (ed25519FingerprintHex X (X.verifyingKey sk)) = some entry := by
    have hkeys := hopen.loaded
    rw [hload, Except.ok.injEq] at hkeys
    exact hkeys ▸ hfind
  refine ⟨hsent, fun C bs u sk' r hsk hu hupc hin => ?_, fun r hin => ?_, hX.authOk _ _⟩
  · have hsk' : sk' = sk := by
      have := (ClientSession.signedInv_run hu).key sk' hupc
      rw [hsk] at this
      cases this
      rfl
    subst hsk'
    refine ⟨_, ClientSession.step_readChallenge hupc hopen.fits (hsent ▸ hin), ?_⟩
    rw [ClientSession.answerChallenge_eq (ClientSession.challenges_challenge hX E),
      ClientSession.beginWrite_fits (ClientSession.authResponse_fits ..)]
  · have hanswer : ∀ t : Session.State X, t.keys = s.keys →
        (Session.handleAuth E t (ClientSession.authResponse X sk E.nonce.1 E.sessionId)).pc =
          .write (Session.authOk E entry) (encode (Session.authOk E entry)) .authOk := by
      intro t ht
      rw [Session.handleAuth_accepted (Session.accepted_authResponse hX (ht ▸ hfind') hb) hf]
    exact ⟨_, Session.step_readAuth hpc (ClientSession.authResponse_fits ..) hin, hanswer _ rfl⟩

/-- **Provisioning and handshake.** A call that creates a key and every later one return that key and
write the same two files; and where the `.pub` file stands in a key file between blank lines, comments
and other keys, sessions with that file let the holder of the key in. -/
theorem provisioning {X : Ext} (hX : X.Lawful) (sk : ByteArr 32)
    (hpk : X.verifyingKeyFromBytes (X.verifyingKey sk) = .ok ()) :
    (∀ pub, call X sk ⟨none, pub⟩ =
      (⟨some (privateBody sk), some (publicBody (X.verifyingKey sk))⟩, .ok sk)) ∧
    (∀ pub drawn, call X drawn ⟨some (privateBody sk), pub⟩ =
      (⟨some (privateBody sk), some (publicBody (X.verifyingKey sk))⟩, .ok sk)) ∧
    ∀ (text : Str) (pre post : List Str), lines text = pre ++ lines (publicBody (X.verifyingKey sk)) ++ post →
      (∀ l ∈ pre ++ post, ∃ pk?, KeyFileLine X l pk?) →
      (∀ i key, ActiveLine X text i key → X.sha256 key.1 = X.sha256 (X.verifyingKey sk).1 →
        key = X.verifyingKey sk) →
      ∃ keys entry, loadAuthorizedKeys X (.ok text) = .ok keys ∧
        findKey X keys (ed25519FingerprintHex X (X.verifyingKey sk)) = some entry ∧
        entry.verifyingKey.bytes = X.verifyingKey sk ∧
        ∀ E : Session.Env, E.authorizedKeys = .ok text →
          ((Session.challenge E).Fits DEFAULT_MAX_PAYLOAD_LEN →
            ∃ as s, Session.run E (Session.init X) as = some s ∧ s.pc = .awaitAuth) ∧
          ((Session.authOk E entry).Fits DEFAULT_MAX_PAYLOAD_LEN →
            ∀ as s, Session.run E (Session.init X) as = some s → s.pc = .awaitAuth → Completes X E sk entry s) := by
  refine ⟨fun pub => call_create sk pub, fun pub drawn => call_reload hX sk drawn pub,
    fun text pre post htext hother hsha => ?_⟩
  obtain ⟨keys, hload, hmem⟩ := loadAuthorizedKeys_listed hX hpk htext hother
  have hdiffer : ∀ k ∈ keys, X.sha256 k.verifyingKey.bytes.1 = X.sha256 (X.verifyingKey sk).1 →
      k.verifyingKey.bytes = X.verifyingKey sk := by
    intro k hk
    obtain ⟨text', i, htext', hline⟩ := loadAuthorizedKeys_mem hload hk
    cases htext'
    exact hsha i _ hline
  obtain ⟨entry, hfind, hb⟩ := findKey_listed hX.lowercase hmem hdiffer
  refine ⟨keys, entry, hload, hfind, hb, fun E hE => ⟨fun hch => ?_, fun hf as s hrun hpc => ?_⟩⟩
  · exact ⟨_, _, Session.run_opening (hE ▸ hload) hch, rfl⟩
  · exact completes hX (hE ▸ hload) hfind hb hf hrun hpc

/-- A session whose key file is the `.pub` file of the sample key. -/
def provisionedEnv : Session.Env := { Session.sampleEnv with authorizedKeys := .ok (publicBody Sample.publicKey) }

/-- A second key beside the sample key. -/
def twoKeys : Crypto where
  sha256 b :=
    if b = Sample.zeros.1 then
      ⟨[0x66, 0x68, 0x7a, 0xad, 0xf8, 0x62, 0xbd, 0x77, 0x6c, 0x8f, 0xc1, 0x8b, 0x8e, 0x9f, 0x8e, 0x20,
        0x08, 0x97, 0x14, 0x85, 0x6e, 0xe2, 0x33, 0xb3, 0x90, 0x2a, 0x59, 0x1d, 0x0d, 0x5f, 0x29, 0x25], rfl⟩
    else Sample.crypto.sha256 b
  verifyingKeyFromBytes b := if b = Sample.zeros then .ok () else Sample.crypto.verifyingKeyFromBytes b
  verifyStrict := Sample.crypto.verifyStrict
  verifyingKey := Sample.crypto.verifyingKey
  sign := Sample.crypto.sign
  subjectPkiRaw := Sample.crypto.subjectPkiRaw

/-- A key file with a comment, a blank line and the second key before the `.pub` file, and a blank line behind it. -/
def sharedKeyFile : Str :=
  "# build hosts\n\n".toList ++ publicLine Sample.zeros ++ '\n' :: (publicBody Sample.publicKey ++ ['\n'])

theorem lines_sharedKeyFile : lines sharedKeyFile =
    ["# build hosts".toList, [], publicLine Sample.zeros] ++ lines (publicBody Sample.publicKey) ++ [[]] := by
  decide +kernel

def sharedEnv : Session.Env := { Session.sampleEnv with authorizedKeys := .ok sharedKeyFile }

/-- The holder of the sample key gets in with its line among others. -/
theorem provisioning_sample : ∃ (entry : AuthorizedKey (.reference twoKeys)) (s : Session.State (.reference twoKeys)),
    entry.verifyingKey.bytes = Sample.publicKey ∧ s.pc = .awaitAuth ∧
    Completes (.reference twoKeys) sharedEnv Sample.secretKey entry s := by
  have hX : (Ext.reference twoKeys).Lawful := lawful_reference _ lawful_sample.verify
  have hz : (Ext.reference twoKeys).verifyingKeyFromBytes Sample.zeros = .ok () := rfl
  have hp : (Ext.reference twoKeys).verifyingKeyFromBytes Sample.publicKey = .ok () := by decide
  have hother : ∀ l ∈ ["# build hosts".toList, [], publicLine Sample.zeros] ++ [[]],
      ∃ pk?, KeyFileLine (.reference twoKeys) l pk? := by
    intro l hl
    simp only [List.mem_append, List.mem_cons, List.not_mem_nil, or_false] at hl
    rcases hl with (rfl | rfl | rfl) | rfl
    · exact ⟨none, .skipped (by decide)⟩
    · exact ⟨none, .skipped (by decide)⟩
    · exact ⟨_, keyFileLine_publicLine hX hz⟩
    · exact ⟨none, .skipped (by decide)⟩
  have hsha : ∀ i key, ActiveLine (.reference twoKeys) sharedKeyFile i key →
      twoKeys.sha256 key.1 = twoKeys.sha256 Sample.publicKey.1 → key = Sample.publicKey := by
    rintro i key ⟨line, b64, rest, -, -, -, -, hpk⟩ heq
    by_contra hne
    by_cases hzero : key = Sample.zeros
    · rw [hzero] at heq
      exact absurd heq (by decide +kernel)
    · rw [show (Ext.reference twoKeys).verifyingKeyFromBytes key = .error _ from
        (if_neg hzero).trans (if_neg hne)] at hpk
      cases hpk
  obtain ⟨keys, entry, hload, hfind, hbytes, hsession⟩ := (provisioning hX Sample.secretKey hp).2.2
    sharedKeyFile _ _ lines_sharedKeyFile hother hsha
  have hlines : authorizedKeyLines (.reference twoKeys) 0 (lines sharedKeyFile) = .ok [agentEntry hz, agentEntry hp] := by
    rw [lines_sharedKeyFile, lines_publicBody]
    have hskip : ∀ n l, (trim l = [] ∨ (trim l).head? = some '#') →
        authorizedKeyLine (.reference twoKeys) n l = .ok none := fun n l h => if_pos h
    simp only [List.cons_append, List.nil_append, authorizedKeyLines, hskip 0 "# build hosts".toList (by decide),
      hskip _ [] (by decide), hskip _ PUB_COMMENT (by decide), authorizedKeyLine_publicLine hz hX,
      authorizedKeyLine_publicLine hp hX, Option.toList_some, Option.toList_none, List.append_nil]
  rw [loadAuthorizedKeys, hlines] at hload
  cases hload
  have hentry : entry = agentEntry hp := by
    rcases List.mem_pair.1 (findKey_some hfind).1 with rfl | rfl
    · exact absurd (show Sample.zeros = Sample.publicKey from hbytes) (by decide)
    · rfl
  subst hentry
  have hchallenge : (Session.challenge sharedEnv).Fits DEFAULT_MAX_PAYLOAD_LEN := by decide +kernel
  have hok : (Session.authOk provisionedEnv Sample.entry).Fits DEFAULT_MAX_PAYLOAD_LEN := by decide +kernel
  obtain ⟨hreach, hcompletes⟩ := hsession sharedEnv rfl
  obtain ⟨as, s, hrun, hpc⟩ := hreach hchallenge
  exact ⟨_, s, hbytes, hpc, hcompletes hok as s hrun hpc⟩

end Sao
