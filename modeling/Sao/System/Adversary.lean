import Mathlib.Data.Set.Card
import Sao.Client.Steps
import Sao.Server.Opening

/-!
# Many sessions and client runs, and somebody in between

Any number of server sessions and any number of runs of one client key. What arrives at a party is
chosen by an adversary, byte by byte, who may so drop, reorder, replay, splice and invent messages;
it also schedules everybody and decides what commands, timers and errors do. Signatures are ideal:
a session accepts one under the client's key only if that key's holder has made it on the very
bytes the session asks for.

* `no_replay` — a signature authenticates at most one session, so there are no more authenticated
  sessions than signatures.
* `agreement` — an authenticated session's nonce and session id are, joined, those of a challenge
  the client has read.
* `shifted_challenge` — joined, but not separately.
-/

namespace Sao.System

open Bytes MsgType

/-- All parties: sessions `ι`, client runs `κ`. -/
structure Net (X : Ext) (ι κ : Type) where
  server : ι → Session.State X
  client : κ → ClientSession.State

variable {X : Ext} {ι κ : Type}

def Net.init : Net X ι κ := ⟨fun _ => Session.init X, fun _ => ClientSession.init⟩

def Net.setServer [DecidableEq ι] (s : Net X ι κ) (i : ι) (t : Session.State X) : Net X ι κ :=
  { s with server := Function.update s.server i t }

def Net.setClient [DecidableEq κ] (s : Net X ι κ) (j : κ) (t : ClientSession.State) : Net X ι κ :=
  { s with client := Function.update s.client j t }

section Projections

variable (s : Net X ι κ) (i : ι) (j : κ) (t : Session.State X) (u : ClientSession.State)

section
variable [DecidableEq ι]

@[simp] theorem setServer_client : (s.setServer i t).client = s.client := rfl
@[simp] theorem setServer_self : (s.setServer i t).server i = t := Function.update_self ..
theorem setServer_ne {i' : ι} (h : i' ≠ i) : (s.setServer i t).server i' = s.server i' := Function.update_of_ne h ..

end

section
variable [DecidableEq κ]

@[simp] theorem setClient_server : (s.setClient j u).server = s.server := rfl
@[simp] theorem setClient_self : (s.setClient j u).client j = u := Function.update_self ..
theorem setClient_ne {j' : κ} (h : j' ≠ j) : (s.setClient j u).client j' = s.client j' := Function.update_of_ne h ..

end

end Projections

/-- The holder of the key has made this signature on these bytes. -/
def Net.Signed (s : Net X ι κ) (m : Bytes) (sig : ByteArr 64) : Prop := ∃ j, .signed m sig ∈ (s.client j).log

/-- The session has accepted this signature under the key. -/
def Net.Authenticates (s : Net X ι κ) (pk : ByteArr 32) (i : ι) (sig : ByteArr 64) : Prop :=
  ∃ entry text, .authed entry text ∈ (s.server i).log ∧ entry.verifyingKey.bytes = pk ∧ X.base64Decode text = .ok sig.1

variable (E : ι → Session.Env) (shell : κ → Str) (sk : ByteArr 32)

/-- The bytes a session asks to be signed. -/
def message (i : ι) : Bytes := signingBytes (E i).nonce.1 (E i).sessionId

/-- **Ideal signatures**: every signature accepted under the key was made by its holder on the
message of the session that accepted it. -/
def Unforged (s : Net X ι κ) : Prop :=
  ∀ i sig, s.Authenticates (X.verifyingKey sk) i sig → s.Signed (message E i) sig

/-- A client run with the key. -/
def clientEnv (j : κ) : ClientSession.Env := ⟨.ok sk, shell j⟩

variable [DecidableEq ι] [DecidableEq κ]

inductive Reachable : Net X ι κ → Prop where
  | init : Reachable Net.init
  | server {s : Net X ι κ} {i : ι} {a : Session.Action} {t : Session.State X} : Reachable s →
      Session.step (E i) (s.server i) a = some t → Unforged E sk (s.setServer i t) → Reachable (s.setServer i t)
  | client {s : Net X ι κ} {j : κ} {a : ClientSession.Action} {t : ClientSession.State} : Reachable s →
      ClientSession.step X (clientEnv shell sk j) (s.client j) a = some t → Reachable (s.setClient j t)

variable {E shell sk} {s : Net X ι κ}

/-! ## What holds of every reachable state -/

omit [DecidableEq ι] in
theorem Net.Signed.setClient {j : κ} {u : ClientSession.State} {l : List ClientSession.Event}
    (hu : u.log = (s.client j).log ++ l) {m : Bytes} {sig : ByteArr 64} (h : s.Signed m sig) :
    (s.setClient j u).Signed m sig := by
  obtain ⟨j', hj'⟩ := h
  refine ⟨j', ?_⟩
  by_cases hj : j' = j
  · subst hj
    rw [setClient_self, hu]
    exact List.mem_append_left _ hj'
  · rw [setClient_ne _ _ _ hj]
    exact hj'

/-- Later signatures do not make an accepted one forged. -/
theorem Reachable.unforged (h : Reachable E shell sk s) : Unforged E sk s := by
  induction h with
  | init =>
    rintro i sig ⟨entry, text, hm, -⟩
    cases hm
  | server _ _ hun _ => exact hun
  | client _ hstep ih =>
    obtain ⟨l, hl, -⟩ := ClientSession.log_step hstep
    intro i sig ha
    exact (ih i sig ha).setClient hl

/-- Every party keeps its own invariant. -/
structure Inv (E : ι → Session.Env) (shell : κ → Str) (sk : ByteArr 32) (s : Net X ι κ) : Prop where
  server : ∀ i, Session.VerifiedInv (E i) (s.server i)
  client : ∀ j, ClientSession.SignedInv X (clientEnv shell sk j) (s.client j)

/-- A session has got where it is by its own steps. -/
theorem Reachable.server_own (h : Reachable E shell sk s) (i : ι) :
    ∃ as, Session.run (E i) (Session.init X) as = some (s.server i) := by
  induction h with
  | init => exact ⟨[], rfl⟩
  | @server s i' a t _ hstep _ ih =>
    by_cases hi : i = i'
    · subst hi
      obtain ⟨as, has⟩ := ih
      rw [setServer_self]
      exact ⟨as ++ [a], Lts.run_snoc.2 ⟨_, has, hstep⟩⟩
    · rw [setServer_ne _ _ _ hi]
      exact ih
  | client _ _ ih => exact ih

/-- So has a client run. -/
theorem Reachable.client_own (h : Reachable E shell sk s) (j : κ) :
    ∃ as, ClientSession.run X (clientEnv shell sk j) ClientSession.init as = some (s.client j) := by
  induction h with
  | init => exact ⟨[], rfl⟩
  | server _ _ _ ih => exact ih
  | @client s j' a u _ hstep ih =>
    by_cases hj : j = j'
    · subst hj
      obtain ⟨as, has⟩ := ih
      rw [setClient_self]
      exact ⟨as ++ [a], Lts.run_snoc.2 ⟨_, has, hstep⟩⟩
    · rw [setClient_ne _ _ _ hj]
      exact ih

theorem Reachable.inv (h : Reachable E shell sk s) : Inv E shell sk s := by
  constructor
  · intro i
    obtain ⟨as, has⟩ := h.server_own i
    exact Session.verifiedInv_run has
  · intro j
    obtain ⟨as, has⟩ := h.client_own j
    exact ClientSession.signedInv_run has

/-- An accepted signature verifies on the session's message. -/
theorem Reachable.verifies (h : Reachable E shell sk s) {pk : ByteArr 32} {i : ι} {sig : ByteArr 64}
    (ha : s.Authenticates pk i sig) : X.verifyStrict pk (message E i) sig = true := by
  obtain ⟨entry, text, hm, hpk, htext⟩ := ha
  obtain ⟨sig', hsig', hv⟩ := verifyEd25519Signature_ok (h.inv.server i entry text hm)
  rw [htext, Except.ok.injEq] at hsig'
  rw [← Subtype.ext hsig', hpk] at hv
  exact hv

/-! ## No replay -/

/-- One signature verifies on the message of one session only. -/
def OneMessage (X : Ext) (E : ι → Session.Env) (pk : ByteArr 32) : Prop :=
  ∀ i i' sig, X.verifyStrict pk (message E i) sig = true → X.verifyStrict pk (message E i') sig = true →
    message E i = message E i'

omit [DecidableEq ι] in
/-- Sessions that draw different challenges ask for different bytes. -/
theorem message_inj (hdistinct : ∀ i i', (E i).nonce = (E i').nonce → (E i).sessionId = (E i').sessionId → i = i')
    {i i' : ι} (h : message E i = message E i') : i = i' := by
  obtain ⟨hn, hs⟩ := signingBytes_inj ((E i).nonce.2.trans (E i').nonce.2.symm) h
  exact hdistinct i i' (Subtype.ext hn) hs

/-- **No replay of authentication.** In every reachable state a signature has authenticated at most
one session under the key, and there are at most as many sessions authenticated under the key as
signatures its holder has made. -/
theorem no_replay
    (hdistinct : ∀ i i', (E i).nonce = (E i').nonce → (E i).sessionId = (E i').sessionId → i = i')
    (hone : OneMessage X E (X.verifyingKey sk)) (h : Reachable E shell sk s) :
    (∀ sig i i', s.Authenticates (X.verifyingKey sk) i sig → s.Authenticates (X.verifyingKey sk) i' sig → i = i') ∧
    {i | ∃ sig, s.Authenticates (X.verifyingKey sk) i sig}.encard ≤ {sig | ∃ m, s.Signed m sig}.encard := by
  have hinj : ∀ sig i i', s.Authenticates (X.verifyingKey sk) i sig → s.Authenticates (X.verifyingKey sk) i' sig →
      i = i' := fun sig i i' hi hi' => message_inj hdistinct (hone i i' sig (h.verifies hi) (h.verifies hi'))
  refine ⟨hinj, ?_⟩
  have : Nonempty (ByteArr 64) := ⟨⟨List.replicate 64 0, List.length_replicate⟩⟩
  have hex : ∀ i ∈ {i | ∃ sig, s.Authenticates (X.verifyingKey sk) i sig},
      ∃ sig, s.Authenticates (X.verifyingKey sk) i sig := fun i hi => hi
  choose! f hf using hex
  refine Set.encard_le_encard_of_injOn (f := f) (fun i hi => ⟨_, h.unforged i (f i) (hf i hi)⟩) ?_
  intro i hi i' hi' heq
  have hi₂ := hf i' hi'
  rw [← heq] at hi₂
  exact hinj (f i) i i' (hf i hi) hi₂

/-! ## Agreement on the challenge -/

/-- The client run has read a challenge with this nonce and this session id. -/
def Net.Challenged (s : Net X ι κ) (j : κ) (nonce : Bytes) (sessionId : Str) : Prop :=
  ∃ f, .read f ∈ (s.client j).log ∧ ClientSession.Challenges X f nonce sessionId

/-- **Agreement.** Whenever a session has authenticated the client's key, a client run has read a
challenge whose nonce and session id, joined, are the session's; they are the session's own if that
nonce has 32 bytes too. Signed bytes determine the challenge among nonces of one length. -/
theorem agreement (X : Ext) (E : ι → Session.Env) (shell : κ → Str) (sk : ByteArr 32) :
    (∀ (s : Net X ι κ) (i : ι) (sig : ByteArr 64), Reachable E shell sk s →
      s.Authenticates (X.verifyingKey sk) i sig →
      ∃ j nonce sessionId, s.Challenged j nonce sessionId ∧
        nonce ++ utf8 sessionId = (E i).nonce.1 ++ utf8 (E i).sessionId ∧
        (nonce.length = 32 → nonce = (E i).nonce.1 ∧ sessionId = (E i).sessionId)) ∧
    ∀ (n n' : Bytes) (sid sid' : Str), n.length = n'.length → signingBytes n sid = signingBytes n' sid' →
      n = n' ∧ sid = sid' := by
  refine ⟨fun s i sig h ha => ?_, fun n n' sid sid' hlen hm => signingBytes_inj hlen hm⟩
  obtain ⟨j, hj⟩ := h.unforged i sig ha
  obtain ⟨sk', f, nonce, sid, -, hf, hch, hm, -⟩ := (h.inv.client j).signed _ sig hj
  refine ⟨j, nonce, sid, ⟨f, hf, hch⟩, (signingBytes_eq_iff.1 hm).symm, fun hlen => ?_⟩
  obtain ⟨hn, hs⟩ := signingBytes_inj ((E i).nonce.2.trans hlen.symm) hm
  exact ⟨hn.symm, hs.symm⟩

/-! ## One session and one client run -/

/-- A session moves on by itself. -/
theorem Reachable.server_run {i : ι} {as : List Session.Action} {t : Session.State X} (h : Reachable E shell sk s)
    (hrun : Session.run (E i) (s.server i) as = some t) (hun : Unforged E sk (s.setServer i t)) :
    Reachable E shell sk (s.setServer i t) := by
  induction as generalizing s with
  | nil =>
    have ht : s.server i = t := by simpa [Session.run] using hrun
    rw [← ht, Net.setServer, Function.update_eq_self]
    exact h
  | cons a as ih =>
    obtain ⟨m, hstep, hrest⟩ := Lts.run_cons.1 hrun
    have hset : (s.setServer i m).setServer i t = s.setServer i t := by
      simp only [Net.setServer, Function.update_idem]
    have hm : Unforged E sk (s.setServer i m) := by
      rintro i' sig ⟨entry, text, hmem, hpk⟩
      refine hun i' sig ⟨entry, text, ?_, hpk⟩
      by_cases hi : i' = i
      · subst hi
        rw [setServer_self] at hmem ⊢
        exact (Session.run_log hrest).subset hmem
      · rw [setServer_ne _ _ _ hi] at hmem ⊢
        exact hmem
    have := ih (h.server hstep hm) (by rw [setServer_self]; exact hrest) (by rw [hset]; exact hun)
    rwa [hset] at this

theorem Reachable.client_run {j : κ} {as : List ClientSession.Action} {u : ClientSession.State}
    (h : Reachable E shell sk s)
    (hrun : ClientSession.run X (clientEnv shell sk j) (s.client j) as = some u) :
    Reachable E shell sk (s.setClient j u) := by
  induction as generalizing s with
  | nil =>
    have hu : s.client j = u := by simpa [ClientSession.run] using hrun
    rw [← hu, Net.setClient, Function.update_eq_self]
    exact h
  | cons a as ih =>
    obtain ⟨m, hstep, hrest⟩ := Lts.run_cons.1 hrun
    have hset : (s.setClient j m).setClient j u = s.setClient j u := by
      simp only [Net.setClient, Function.update_idem]
    have := ih (h.client hstep) (by rw [setClient_self]; exact hrest)
    rwa [hset] at this

/-- Whoever joins a challenge to the bytes of the session's own gets its response accepted: the
client signs what it was sent, and that is what the session asks for. -/
theorem reachable_authenticated {keys : List (AuthorizedKey X)} {entry : AuthorizedKey X} {i : ι} {j : κ}
    {ar : AuthResponsePayload} {ch resp : Frame} {nonce : Bytes} {sid : Str}
    (hkeys : loadAuthorizedKeys X (E i).authorizedKeys = .ok keys)
    (hch : ClientSession.Challenges X ch nonce sid) (hm : signingBytes nonce sid = message E i)
    (hacc : Session.Accepted (E i) keys resp entry ar) (hentry : entry.verifyingKey.bytes = X.verifyingKey sk)
    (hsig : X.base64Decode ar.signature = .ok (ClientSession.signature X sk nonce sid).1)
    (hf : ∀ f ∈ [Session.challenge (E i), resp, Session.authOk (E i) entry, ch, ClientSession.authResponse X sk nonce sid],
      f.Fits DEFAULT_MAX_PAYLOAD_LEN) :
    ∃ s : Net X ι κ, Reachable E shell sk s ∧
      s.Authenticates (X.verifyingKey sk) i (ClientSession.signature X sk nonce sid) ∧
      ∀ j' f, .read f ∈ (s.client j').log → f = ch := by
  have hfits : (Session.challenge (E i)).Fits DEFAULT_MAX_PAYLOAD_LEN := hf _ (by simp)
  obtain ⟨u, hu, -, -, -, -, hulog⟩ := ClientSession.run_challenged (E := clientEnv shell sk j) rfl hch
    (hf ch (by simp)) []
  obtain ⟨t, ht, htlog⟩ := Session.run_accepted hacc (hf resp (by simp)) (hf (Session.authOk (E i) entry) (by simp))
  -- the session asks, the client signs, the session is answered
  let s₁ : Net X ι κ := (Net.init : Net X ι κ).setServer i (Session.waiting (E i) keys)
  let s₂ : Net X ι κ := s₁.setClient j u
  have hopened : Reachable E shell sk s₁ := by
    refine Reachable.init.server_run (Session.run_opening hkeys hfits) ?_
    rintro i' sig ⟨entry', text, hmem, -⟩
    by_cases hi : i' = i
    · subst hi
      rw [setServer_self] at hmem
      simp [Session.waiting] at hmem
    · rw [setServer_ne _ _ _ hi] at hmem
      cases hmem
  have hsigned : Reachable E shell sk s₂ := hopened.client_run hu
  have hat : s₂.server i = Session.waiting (E i) keys := setServer_self ..
  have hothers : ∀ i', i' ≠ i → ((s₂.setServer i t).server i').log = [] := fun i' hi => by
    rw [setServer_ne _ _ _ hi]
    exact congrArg Session.State.log (setServer_ne _ _ _ hi)
  have hun : Unforged E sk (s₂.setServer i t) := by
    rintro i' sig ⟨entry', text, hmem, -, htext⟩
    by_cases hi : i' = i
    · subst hi
      rw [setServer_self, htlog] at hmem
      simp only [List.mem_cons, reduceCtorEq, Session.Event.authed.injEq, List.not_mem_nil, or_false, false_or] at hmem
      rw [hmem.2, hsig, Except.ok.injEq] at htext
      refine ⟨j, ?_⟩
      rw [setServer_client, setClient_self, hulog, ← hm, ← Subtype.ext htext]
      exact List.mem_cons_of_mem _ List.mem_cons_self
    · rw [hothers i' hi] at hmem
      cases hmem
  refine ⟨_, hsigned.server_run (hat ▸ ht) hun, ?_, ?_⟩
  · refine ⟨entry, ar.signature, ?_, hentry, hsig⟩
    rw [setServer_self, htlog]
    simp
  · intro j' f hmem
    by_cases hj : j' = j
    · subst hj
      rw [setServer_client, setClient_self, hulog] at hmem
      simpa using hmem
    · rw [setServer_client, setClient_ne _ _ _ hj] at hmem
      cases hmem

/-! ## The sample key -/

open Session (sampleEnv sampleResponse accepted_sample)

/-- The sample session and one with another session id. -/
def sampleEnvs : Bool → Session.Env
  | true => sampleEnv
  | false => { sampleEnv with sessionId := "b5e1c0de-0000-4000-8000-000000000002".toList }

/-- `AUTH_CHALLENGE` as whoever sends it forms it. -/
def challengeOf (nonce : Bytes) (sid : Str) : Frame := jsonFrame AUTH_CHALLENGE (challengeJson nonce sid)

theorem challenges_challengeOf (nonce : Bytes) (sid : Str) :
    ClientSession.Challenges Ext.sample (challengeOf nonce sid) nonce sid :=
  ⟨rfl, _, lawful_sample.authChallenge nonce sid, lawful_sample.base64 nonce, rfl⟩

theorem verifyingKey_secretKey : Ext.sample.verifyingKey Sample.secretKey = Sample.publicKey := by
  simp only [Ext.sample, Ext.reference, Sample.crypto, if_true]

theorem signature_sample {nonce : Bytes} {sid : Str}
    (hjoin : nonce ++ utf8 sid = Sample.nonce.1 ++ utf8 Sample.sessionId) :
    ClientSession.signature Ext.sample Sample.secretKey nonce sid = Sample.signature := by
  rw [ClientSession.signature, signingBytes_eq_iff.2 hjoin]
  simp only [Ext.sample, Ext.reference, Sample.crypto, Sample.signatureOf, and_self, if_true]

/-- The client's answer is the response the session accepts. -/
theorem authResponse_sample {nonce : Bytes} {sid : Str}
    (hjoin : nonce ++ utf8 sid = Sample.nonce.1 ++ utf8 Sample.sessionId) :
    ClientSession.authResponse Ext.sample Sample.secretKey nonce sid = sampleResponse := by
  have hsha : Ext.sample.sha256 Sample.publicKey.1 = Sample.digest := by
    simp only [Ext.sample, Ext.reference, Sample.crypto, if_true]
  rw [ClientSession.authResponse, signature_sample hjoin, ed25519FingerprintHex, verifyingKey_secretKey, hsha]
  rfl

/-- A run against the sample session, with any challenge that joins to the session's own. -/
theorem reachable_sample {ι : Type} [DecidableEq ι] {E : ι → Session.Env} {i : ι} (hi : E i = sampleEnv)
    {nonce : Bytes} {sid : Str} (hjoin : nonce ++ utf8 sid = Sample.nonce.1 ++ utf8 Sample.sessionId)
    (hf : (challengeOf nonce sid).Fits DEFAULT_MAX_PAYLOAD_LEN) :
    ∃ s : Net Ext.sample ι Unit, Reachable E (fun _ => "id".toList) Sample.secretKey s ∧
      s.Authenticates (Ext.sample.verifyingKey Sample.secretKey) i Sample.signature ∧
      ∀ j' f, .read f ∈ (s.client j').log → f = challengeOf nonce sid := by
  have hfits : ∀ f ∈ [Session.challenge sampleEnv, sampleResponse, Session.authOk sampleEnv Sample.entry],
      f.Fits DEFAULT_MAX_PAYLOAD_LEN := by decide +kernel
  have hm : signingBytes nonce sid = message E i := by
    rw [message, hi]
    exact signingBytes_eq_iff.2 hjoin
  rw [← signature_sample hjoin]
  refine reachable_authenticated (j := ()) (hi ▸ Sample.load_keyFile) (challenges_challengeOf nonce sid) hm
    (hi ▸ accepted_sample) verifyingKey_secretKey.symm ?_ ?_
  · rw [signature_sample hjoin]
    exact lawful_sample.base64 _
  · rw [hi, authResponse_sample hjoin]
    intro f hmem
    simp only [List.mem_cons, List.not_mem_nil, or_false] at hmem
    rcases hmem with rfl | rfl | rfl | rfl | rfl
    · exact hfits _ (by simp)
    · exact hfits _ (by simp)
    · exact hfits _ (by simp)
    · exact hf
    · exact hfits _ (by simp)

theorem sampleEnvs_distinct (i i' : Bool) (_ : (sampleEnvs i).nonce = (sampleEnvs i').nonce)
    (h : (sampleEnvs i).sessionId = (sampleEnvs i').sessionId) : i = i' := by
  cases i <;> cases i'
  · rfl
  · exact absurd h (by decide)
  · exact absurd h (by decide)
  · rfl

theorem oneMessage_sample : OneMessage Ext.sample sampleEnvs (Ext.sample.verifyingKey Sample.secretKey) := by
  have hne : message sampleEnvs false ≠ message sampleEnvs true := fun h => by
    cases message_inj sampleEnvs_distinct h
  have hsig : ∀ m sig, Ext.sample.verifyStrict Sample.publicKey m sig = true →
      sig = Sample.signatureOf Sample.publicKey m := fun m sig h => of_decide_eq_true h
  have htrue : Sample.signatureOf Sample.publicKey (message sampleEnvs true) = Sample.signature :=
    if_pos ⟨rfl, rfl⟩
  have hfalse : Sample.signatureOf Sample.publicKey (message sampleEnvs false) ≠ Sample.signature := by
    rw [Sample.signatureOf, if_neg fun h => hne h.2]
    decide
  intro i i' sig h h'
  rw [verifyingKey_secretKey] at h h'
  have heq := (hsig _ sig h).symm.trans (hsig _ sig h')
  cases i <;> cases i'
  · rfl
  · exact absurd (heq.trans htrue) hfalse
  · exact absurd (heq.symm.trans htrue) hfalse
  · rfl

theorem no_replay_sample : ∃ s : Net Ext.sample Bool Unit,
    s.Authenticates (Ext.sample.verifyingKey Sample.secretKey) true Sample.signature ∧
    {i | ∃ sig, s.Authenticates (Ext.sample.verifyingKey Sample.secretKey) i sig}.encard ≤
      {sig | ∃ m, s.Signed m sig}.encard := by
  obtain ⟨s, hs, ha, -⟩ := reachable_sample (E := sampleEnvs) (i := true) rfl rfl (by decide +kernel)
  exact ⟨s, ha, (no_replay sampleEnvs_distinct oneMessage_sample hs).2⟩

/-- The honest challenge: the session and the client agree on it. -/
theorem agreement_sample : ∃ s : Net Ext.sample Unit Unit, ∃ j nonce sid, s.Challenged j nonce sid ∧
    nonce ++ utf8 sid = sampleEnv.nonce.1 ++ utf8 sampleEnv.sessionId := by
  obtain ⟨s, hs, ha, -⟩ := reachable_sample (E := fun _ : Unit => sampleEnv) (i := ()) rfl rfl (by decide +kernel)
  obtain ⟨j, nonce, sid, hch, hjoin, -⟩ := (agreement Ext.sample _ _ _).1 s () _ hs ha
  exact ⟨s, j, nonce, sid, hch, hjoin⟩

/-- The first character of the session id is moved to the nonce: the client signs for a challenge of
33 bytes and a shorter session id, and the session accepts it. -/
theorem shifted_challenge : ¬ ∀ (s : Net Ext.sample Unit Unit) (i : Unit) (sig : ByteArr 64),
    Reachable (fun _ => sampleEnv) (fun _ => "id".toList) Sample.secretKey s →
    s.Authenticates (Ext.sample.verifyingKey Sample.secretKey) i sig →
    ∃ j, s.Challenged j sampleEnv.nonce.1 sampleEnv.sessionId := by
  intro h
  have hjoin : Sample.nonce.1 ++ utf8 (Sample.sessionId.take 1) ++ utf8 (Sample.sessionId.drop 1) =
      Sample.nonce.1 ++ utf8 Sample.sessionId := by decide
  obtain ⟨s, hs, ha, hread⟩ := reachable_sample (E := fun _ : Unit => sampleEnv) (i := ()) rfl hjoin
    (by decide +kernel)
  obtain ⟨j, f, hf, -, ch, hch, -, hsid⟩ := h s () _ hs ha
  rw [hread j f hf, challengeOf, jsonFrame, lawful_sample.authChallenge, Except.ok.injEq] at hch
  rw [← hch] at hsid
  exact absurd hsid (by decide)

end Sao.System
