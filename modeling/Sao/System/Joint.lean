import Sao.Server.Course
import Sao.System.Provisioning
import Sao.System.Replies

/-!
# A session and its client, at the two ends of one stream

The session and the client run of one connection, each with its own transition function. What one
puts on the stream arrives at the other in order, in pieces of any length; an end that is done closes
the stream, which the other meets once everything has arrived.

| here | there |
| --- | --- |
| `Move.server`, `Move.client`       | a step of `run_session` of the server, of the client |
| `Move.toServer`, `Move.toClient`   | bytes arrive |
| `Move.closeServer`, `closeClient`  | the end of the stream arrives |
| `Smooth`                           | nothing fails outside, no timeout fires, the command does what its program says |

* `Coupled` — what every smooth run keeps: neither end fails, and the session is done only after its client.
* `Coupled.course` — so the session is on its course.
* `coupled_step` — every step keeps it.
-/

namespace Sao.System

structure Joint (X : Ext) where
  server : Session.State X
  client : ClientSession.State

inductive Move where
  | server (a : Session.Action)
  | client (a : ClientSession.Action)
  | toServer (n : Nat)
  | toClient (n : Nat)
  | closeServer
  | closeClient

variable {X : Ext}

namespace Joint

def init : Joint X := ⟨Session.init X, ClientSession.init⟩

/-- What the client has put on the stream and the session has not received. -/
def toServer (s : Joint X) : Bytes := s.client.out.drop s.server.received.length

def toClient (s : Joint X) : Bytes := s.server.out.drop s.client.received.length

def setServer (s : Joint X) (t : Session.State X) : Joint X := { s with server := t }

def setClient (s : Joint X) (u : ClientSession.State) : Joint X := { s with client := u }

variable (E : Session.Env) (C : ClientSession.Env)

def step (s : Joint X) : Move → Option (Joint X)
  | .server a => if a.Own then (Session.step E s.server a).map s.setServer else none
  | .client a => if a.Own then (ClientSession.step X C s.client a).map s.setClient else none
  | .toServer n =>
    if 0 < n ∧ n ≤ s.toServer.length then
      (Session.step E s.server (.clientSend (s.toServer.take n))).map s.setServer
    else none
  | .toClient n =>
    if 0 < n ∧ n ≤ s.toClient.length then
      (ClientSession.step X C s.client (.serverSend (s.toClient.take n))).map s.setClient
    else none
  | .closeServer =>
    match s.client.pc with
    | .done _ =>
      if s.toServer = [] ∧ s.server.eof = false then (Session.step E s.server .clientClose).map s.setServer else none
    | _ => none
  | .closeClient =>
    match s.server.pc with
    | .done _ =>
      if s.toClient = [] ∧ s.client.eof = false then (ClientSession.step X C s.client .serverClose).map s.setClient
      else none
    | _ => none

/-- Nothing fails outside the two, no timeout fires, and the commands obey the program. -/
def Smooth (P : Program) (s : Joint X) : Move → Prop
  | .server a => Session.Smooth P s.server a
  | .client (.ioError _) | .client (.readBroken _ _) => False
  | _ => True

/-- The state after a run from the start of both. -/
def run (s : Joint X) (ms : List Move) : Option (Joint X) := Lts.run (step E C) s ms

inductive Step (s : Joint X) : Move → Joint X → Prop where
  | server (a : Session.Action) (t : Session.State X) (ha : a.Own) (h : Session.step E s.server a = some t) :
    Step s (.server a) (s.setServer t)
  | client (a : ClientSession.Action) (u : ClientSession.State) (ha : a.Own)
      (h : ClientSession.step X C s.client a = some u) : Step s (.client a) (s.setClient u)
  | toServer (n : Nat) (t : Session.State X) (h0 : 0 < n) (hn : n ≤ s.toServer.length)
      (h : Session.step E s.server (.clientSend (s.toServer.take n)) = some t) : Step s (.toServer n) (s.setServer t)
  | toClient (n : Nat) (u : ClientSession.State) (h0 : 0 < n) (hn : n ≤ s.toClient.length)
      (h : ClientSession.step X C s.client (.serverSend (s.toClient.take n)) = some u) :
    Step s (.toClient n) (s.setClient u)
  | closeServer (r : ClientSession.Outcome) (hpc : s.client.pc = .done r) (hall : s.toServer = [])
      (heof : s.server.eof = false) : Step s .closeServer (s.setServer { s.server with eof := true })
  | closeClient (r : Except Str Unit) (hpc : s.server.pc = .done r) (hall : s.toClient = [])
      (heof : s.client.eof = false) : Step s .closeClient (s.setClient { s.client with eof := true })

variable {E C} {s s' : Joint X}

theorem step_cases {m : Move} (h : s.step E C m = some s') : Step E C s m s' := by
  cases m with
  | server a =>
    simp only [step] at h
    split at h
    · rename_i ha
      obtain ⟨t, ht, rfl⟩ := Option.map_eq_some_iff.1 h
      exact .server a t ha ht
    · cases h
  | client a =>
    simp only [step] at h
    split at h
    · rename_i ha
      obtain ⟨u, hu, rfl⟩ := Option.map_eq_some_iff.1 h
      exact .client a u ha hu
    · cases h
  | toServer n =>
    simp only [step] at h
    split at h
    · rename_i hn
      obtain ⟨t, ht, rfl⟩ := Option.map_eq_some_iff.1 h
      exact .toServer n t hn.1 hn.2 ht
    · cases h
  | toClient n =>
    simp only [step] at h
    split at h
    · rename_i hn
      obtain ⟨u, hu, rfl⟩ := Option.map_eq_some_iff.1 h
      exact .toClient n u hn.1 hn.2 hu
    · cases h
  | closeServer =>
    simp only [step] at h
    split at h
    · rename_i r hpc
      split at h
      · rename_i hc
        obtain ⟨t, ht, rfl⟩ := Option.map_eq_some_iff.1 h
        cases ht
        exact .closeServer r hpc hc.1 hc.2
      · cases h
    · cases h
  | closeClient =>
    simp only [step] at h
    split at h
    · rename_i r hpc
      split at h
      · rename_i hc
        obtain ⟨u, hu, rfl⟩ := Option.map_eq_some_iff.1 h
        cases hu
        exact .closeClient r hpc hc.1 hc.2
      · cases h
    · cases h

end Joint

/-! ## A client that is let in -/

/-- The key of the client is listed, its request fits, and so does what the session answers. -/
structure Ready (X : Ext) (E : Session.Env) (C : ClientSession.Env) (sk : ByteArr 32) (keys : List (AuthorizedKey X))
    (entry : AuthorizedKey X) : Prop where
  lawful : X.Lawful
  key : C.signingKey = .ok sk
  loaded : loadAuthorizedKeys X E.authorizedKeys = .ok keys
  found : findKey X keys (ed25519FingerprintHex X (X.verifyingKey sk)) = some entry
  listed : entry.verifyingKey.bytes = X.verifyingKey sk
  argv : checkShell X E.config.policy C.shellLine = .ok () → 2 ≤ E.config.shellArgv.length
  challenge : (Session.challenge E).Fits DEFAULT_MAX_PAYLOAD_LEN
  authOk : (Session.authOk E entry).Fits DEFAULT_MAX_PAYLOAD_LEN
  request : (ClientSession.execShell C.shellLine).Fits DEFAULT_MAX_PAYLOAD_LEN
  denial : ∀ msg, checkShell X E.config.policy C.shellLine = .error (.policyDenied msg) →
    (jsonFrame MsgType.POLICY_DENIED (policyDeniedJson msg)).Fits DEFAULT_MAX_PAYLOAD_LEN

/-- The response to the challenge of the session. -/
def response (X : Ext) (E : Session.Env) (sk : ByteArr 32) : Frame :=
  ClientSession.authResponse X sk E.nonce.1 E.sessionId

def shellRequest (C : ClientSession.Env) : Frame := ClientSession.execShell C.shellLine

section Ready

variable {E : Session.Env} {C : ClientSession.Env} {sk : ByteArr 32} {keys : List (AuthorizedKey X)}
  {entry : AuthorizedKey X} (h : Ready X E C sk keys entry)
include h

theorem Ready.accepted : ∃ ar, Session.Accepted E keys (response X E sk) entry ar :=
  ⟨_, Session.accepted_authResponse h.lawful h.found h.listed⟩

theorem Ready.reaction : Session.reaction X E (shellRequest C) = match checkShell X E.config.policy C.shellLine with
    | .error (.policyDenied msg) => .deny (jsonFrame MsgType.POLICY_DENIED (policyDeniedJson msg))
    | _ => .run (E.config.shellArgv ++ [C.shellLine]) := by
  have hmt : (shellRequest C).msgType = MsgType.EXEC_SHELL := rfl
  have hdec : X.execShell (shellRequest C).payload = .ok C.shellLine := h.lawful.execShell _
  unfold Session.reaction
  rw [if_pos hmt, hdec]
  cases hc : checkShell X E.config.policy C.shellLine with
  | ok u => simp only [hc, if_neg (Nat.not_lt.2 (h.argv hc))]
  | error e =>
    obtain ⟨pat, -, -, rfl⟩ := checkShell_error hc
    simp only [hc]

theorem Ready.invited : Session.Invited E keys entry (response X E sk) (shellRequest C) where
  loaded := h.loaded
  challenge := h.challenge
  accepted := by
    obtain ⟨ar, hacc⟩ := h.accepted
    refine ⟨ar.signature, ?_⟩
    unfold Session.authReaction
    rw [Session.authenticate_ok_iff.2 ⟨ar, hacc, rfl⟩]
  authOk := h.authOk
  answered := by
    have hr := h.reaction
    cases hc : checkShell X E.config.policy C.shellLine with
    | ok u =>
      rw [hc] at hr
      exact Or.inr ⟨_, hr⟩
    | error e =>
      obtain ⟨pat, -, -, rfl⟩ := checkShell_error hc
      rw [hc] at hr
      exact Or.inl ⟨_, hr, h.denial _ hc⟩

/-- What the session denies it denies by its policy. -/
theorem Ready.denied {g : Frame} (hr : Session.reaction X E (shellRequest C) = .deny g) :
    ∃ msg, checkShell X E.config.policy C.shellLine = .error (.policyDenied msg) ∧
      g = jsonFrame MsgType.POLICY_DENIED (policyDeniedJson msg) := by
  rw [h.reaction] at hr
  cases hc : checkShell X E.config.policy C.shellLine with
  | ok u =>
    rw [hc] at hr
    cases hr
  | error e =>
    obtain ⟨pat, -, -, rfl⟩ := checkShell_error hc
    rw [hc] at hr
    exact ⟨_, rfl, (Session.Reaction.deny.inj hr).symm⟩

/-- Behind the greeting the client can make something of every frame. -/
theorem Ready.replies {act : Session.Activity} {reads frames : List Frame} {cs : List Child}
    (hc : Session.Course E entry (response X E sk) (shellRequest C) act reads cs frames) :
    ∃ more, frames <+: Session.greeting E entry ++ more ∧ ∀ f ∈ more, ClientSession.Reply X f := by
  have hstream : ∀ cs : List StreamChunk, ∀ f ∈ Session.streamFrames cs, ClientSession.Reply X f := by
    intro cs f hf
    obtain ⟨ch, -, rfl⟩ := List.mem_map.1 hf
    exact Or.inl (ClientSession.streams_chunkFrame h.lawful ch)
  cases hc with
  | opening => exact ⟨[], List.nil_prefix, nofun⟩
  | challenged => exact ⟨[], ⟨[Session.authOk E entry], rfl⟩, nofun⟩
  | greeted => exact ⟨[], List.prefix_append _ _, nofun⟩
  | asked hr => exact ⟨[], List.prefix_append _ _, nofun⟩
  | @denied g hr =>
    refine ⟨[g], List.prefix_refl _, fun f hf => ?_⟩
    obtain ⟨msg, -, rfl⟩ := h.denied hr
    rw [List.mem_singleton.1 hf]
    exact Or.inr ⟨126, ClientSession.exitOf_denied msg⟩
  | running hr hrun => exact ⟨_, List.prefix_refl _, hstream _⟩
  | waiting hr hrun hd => exact ⟨_, List.prefix_refl _, hstream _⟩
  | ran hr hrep =>
    refine ⟨_, List.prefix_refl _, fun f hf => ?_⟩
    rcases List.mem_append.1 hf with hf | hf
    · exact hstream _ f hf
    · rw [List.mem_singleton.1 hf]
      exact Or.inr ⟨_, ClientSession.exitOf_exitFrame h.lawful _⟩

/-- The frame behind which the session waits for more requests ends the client. -/
theorem Ready.ended {reads frames : List Frame} {cs : List Child}
    (hc : Session.Course E entry (response X E sk) (shellRequest C) .idle reads cs frames) :
    (reads = [response X E sk] ∧ frames = Session.greeting E entry) ∨ ∃ outs last code,
      frames = Session.greeting E entry ++ (outs ++ [last]) ∧ ClientSession.exitOf X last = some code := by
  cases hc with
  | greeted => exact Or.inl ⟨rfl, rfl⟩
  | @denied g hr =>
    obtain ⟨msg, -, rfl⟩ := h.denied hr
    exact Or.inr ⟨[], _, 126, rfl, ClientSession.exitOf_denied msg⟩
  | ran hr hrep => exact Or.inr ⟨_, _, _, rfl, ClientSession.exitOf_exitFrame h.lawful _⟩

/-- The only response to the challenge of the session. -/
theorem Ready.responds {resp : Frame} (hr : ClientSession.Responds X C (Session.challenge E) resp) :
    resp = response X E sk := by
  obtain ⟨sk', nonce, sid, hk, hch, rfl⟩ := hr
  rw [h.key, Except.ok.injEq] at hk
  obtain ⟨rfl, rfl⟩ := hch.unique (ClientSession.challenges_challenge h.lawful E)
  rw [hk, response]

end Ready

/-! ## What a run keeps -/

structure ServerInv (E : Session.Env) (P : Program) (t : Session.State X) : Prop where
  inv : Session.Inv E t
  opens : Session.Opens E t
  told : Session.Told Session.smooth E t
  receiving : Session.Receiving t
  obey : Session.AllObey P t

/-- How the two ends of the stream stand to each other: neither has failed, and the session ends only
after its client. -/
structure Coupled (E : Session.Env) (C : ClientSession.Env) (P : Program) (s : Joint X) : Prop where
  server : ServerInv E P s.server
  client : ClientSession.Told X C s.client
  toClient : s.client.received <+: s.server.out
  toServer : s.server.received <+: s.client.out
  clientEof : s.client.eof = true → ∃ r, s.server.pc = .done r
  serverEof : s.server.eof = true → s.server.received = s.client.out ∧ ∃ r, s.client.pc = .done r
  clientOk : ∀ o, s.client.pc = .done o → ¬ o.Failed
  serverOk : ∀ r, s.server.pc = .done r → r = .ok () ∧ ∃ code, s.client.pc = .done (.exit code)

section Init

variable {E : Session.Env} {C : ClientSession.Env} {P : Program}

theorem serverInv_init : ServerInv E P (Session.init X) :=
  ⟨Session.inv_init, Session.opens_init, Session.told_init, Session.receiving_of_not rfl, nofun⟩

theorem ServerInv.step {t t' : Session.State X} {a : Session.Action} (h : ServerInv E P t) (hlive : Session.AllLive t)
    (hsm : Session.Smooth P t a) (hs : Session.step E t a = some t') : ServerInv E P t' :=
  ⟨Session.inv_step h.inv hs, Session.opens_step h.opens hs, Session.told_step hsm.allows h.told hs,
    Session.receiving_step h.receiving hs, Session.allObey_step h.obey hlive hsm hs⟩

theorem coupled_init : Coupled E C P (Joint.init : Joint X) :=
  ⟨serverInv_init, ClientSession.told_init, List.nil_prefix, List.nil_prefix, nofun, nofun, nofun, nofun⟩

end Init

section View

variable {E : Session.Env} {C : ClientSession.Env} {sk : ByteArr 32} {keys : List (AuthorizedKey X)}
  {entry : AuthorizedKey X} {P : Program} {s s' : Joint X} (h : Ready X E C sk keys entry) (hi : Coupled E C P s)
include hi

theorem Coupled.hears_client : Hears DEFAULT_MAX_PAYLOAD_LEN s.client.received s.client.inbuf
    (ClientSession.readsOf s.client.log) := ⟨hi.client.stream, hi.client.fits⟩

/-- What the client reads first is the challenge. -/
theorem Coupled.first_read {ch : Frame} {more : List Frame} (hreads : ClientSession.readsOf s.client.log = ch :: more) :
    ch = Session.challenge E := by
  have hfits : ch.Fits DEFAULT_MAX_PAYLOAD_LEN := hi.client.fits ch (by rw [hreads]; exact List.mem_cons_self)
  refine hi.server.opens.first_frame hfits (List.IsPrefix.trans ?_ hi.toClient)
  rw [hi.client.stream, hreads]
  exact ⟨encodeAll more ++ s.client.inbuf, by simp [encodeAll]⟩

/-- The client has ended, so it has exited. -/
theorem Coupled.exited {r : ClientSession.Outcome} (hpc : s.client.pc = .done r) :
    ∃ code, s.client.pc = .done (.exit code) := by
  cases r with
  | exit code => exact ⟨code, hpc⟩
  | err text => exact absurd trivial (hi.clientOk _ hpc)
  | panic => exact absurd trivial (hi.clientOk _ hpc)

include h

/-- What the client has begun to write are its response and its request. -/
theorem Coupled.client_says : ∃ begun, begun <+: [response X E sk, shellRequest C] ∧
    Says DEFAULT_MAX_PAYLOAD_LEN s.client.out s.client.pc.rest begun := by
  have hresp : (response X E sk).Fits DEFAULT_MAX_PAYLOAD_LEN := ClientSession.authResponse_fits ..
  rcases hi.client.talk.begun hi.clientOk with ⟨-, ho⟩ | ⟨ch, resp, more, hreads, hr, ho⟩
  · exact ⟨[], List.nil_prefix, ho, nofun⟩
  · rw [hi.first_read hreads] at hr
    rw [h.responds hr] at ho
    rcases ho with ho | ho
    · refine ⟨[response X E sk], ⟨[shellRequest C], rfl⟩, by rw [ho]; simp, fun f hf => ?_⟩
      rw [List.mem_singleton.1 hf]
      exact hresp
    · refine ⟨_, List.prefix_refl _, by rw [ho]; simp [shellRequest], fun f hf => ?_⟩
      rcases List.mem_pair.1 hf with rfl | rfl
      · exact hresp
      · exact h.request

theorem Coupled.says_response (hpc : s.client.pc = .awaitResult) :
    Says DEFAULT_MAX_PAYLOAD_LEN s.client.out [] [response X E sk] := by
  obtain ⟨ch, resp, hr, hreads, ho, -⟩ := ClientSession.Talk.of_awaitResult (hpc ▸ hi.client.talk)
  rw [hi.first_read hreads] at hr
  refine ⟨by rw [ho, h.responds hr]; simp, fun f hf => ?_⟩
  rw [List.mem_singleton.1 hf]
  exact ClientSession.authResponse_fits ..

/-- A client that waits for replies, or has exited, has said all. -/
theorem Coupled.says_all (hpc : s.client.pc = .replies ∨ ∃ code, s.client.pc = .done (.exit code)) :
    Says DEFAULT_MAX_PAYLOAD_LEN s.client.out [] [response X E sk, shellRequest C] := by
  have hout : s.client.out = encode (response X E sk) ++ encode (shellRequest C) := by
    rcases hpc with hpc | ⟨code, hpc⟩
    · obtain ⟨ch, resp, res, outs, hr, -, -, -, hreads, ho, -⟩ := ClientSession.Talk.of_replies (hpc ▸ hi.client.talk)
      rw [hi.first_read hreads] at hr
      rw [ho, h.responds hr, shellRequest]
    · obtain ⟨ch, resp, res, outs, last, hr, -, -, -, -, hreads, ho, -⟩ :=
        ClientSession.Talk.of_exited (hpc ▸ hi.client.talk)
      rw [hi.first_read hreads] at hr
      rw [ho, h.responds hr, shellRequest]
  refine ⟨by rw [hout]; simp, fun f hf => ?_⟩
  rcases List.mem_pair.1 hf with rfl | rfl
  · exact ClientSession.authResponse_fits ..
  · exact h.request

theorem Coupled.server_reads : Session.readsOf s.server.log <+: [response X E sk, shellRequest C] := by
  obtain ⟨begun, hb, hsays⟩ := hi.client_says h
  exact ((Session.hears_of_inv hi.server.inv).reads_isPrefix hsays hi.toServer).trans hb

/-- **The session is on its course.** -/
theorem Coupled.course : ∃ act, Session.At E s.server act ∧
    Session.Course E entry (response X E sk) (shellRequest C) act (Session.readsOf s.server.log)
      (Session.children s.server) (Session.history s.server) ∧
    Says DEFAULT_MAX_PAYLOAD_LEN s.server.out s.server.pc.rest (Session.history s.server) := by
  obtain ⟨act, hat, hc, ho⟩ := Session.course_of_told h.invited hi.server.told (hi.server_reads h)
  exact ⟨act, hat, hc, Session.says_of_course h.invited hi.server.obey hc ho⟩

theorem Coupled.client_reads : ClientSession.readsOf s.client.log <+: Session.history s.server := by
  obtain ⟨act, -, -, hsays⟩ := hi.course h
  exact hi.hears_client.reads_isPrefix hsays hi.toClient

/-! ## One step -/

/-- The frame the client reads next. -/
theorem Coupled.next_read {f : Frame} {r : Bytes} (hr : readFrame DEFAULT_MAX_PAYLOAD_LEN s.client.inbuf = .ok (f, r)) :
    ∃ more, ClientSession.readsOf s.client.log ++ [f] <+: Session.greeting E entry ++ more ∧
      ∀ g ∈ more, ClientSession.Reply X g := by
  obtain ⟨act, -, hc, hsays⟩ := hi.course h
  obtain ⟨more, hmore, hreply⟩ := h.replies hc
  exact ⟨more, (hi.hears_client.read_prefix hsays hi.toClient hr).trans hmore, hreply⟩

/-- **The client does not fail.** -/
theorem Coupled.client_ok {a : ClientSession.Action} {u : ClientSession.State} (hsm : Joint.Smooth P s (.client a))
    (ha : a.Own) (hs : ClientSession.step X C s.client a = some u) (o : ClientSession.Outcome) :
    u.pc = .done o → ¬ o.Failed := by
  have hfits : ∀ {t : ClientSession.State} {f : Frame} {k : ClientSession.Cont}, f.Fits DEFAULT_MAX_PAYLOAD_LEN →
      (t.beginWrite f k).pc = .done o → ¬ o.Failed := by
    intro t f k hf
    rw [ClientSession.beginWrite_fits hf]
    nofun
  cases ClientSession.step_cases hs with
  | serverSend b he => exact hi.clientOk o
  | serverClose => exact hi.clientOk o
  | startOk sk' hpc hk => nofun
  | startErr e hpc hk =>
    rw [h.key] at hk
    cases hk
  | readChallenge sk' f r hpc hr =>
    obtain ⟨more, hmore, -⟩ := hi.next_read h hr
    obtain ⟨-, hnil, -⟩ := ClientSession.Talk.of_awaitChallenge (hpc ▸ hi.client.talk)
    rw [hnil] at hmore
    obtain ⟨rfl, -⟩ := List.cons_prefix_cons.1 hmore
    rw [ClientSession.answerChallenge_eq (ClientSession.challenges_challenge h.lawful E)]
    exact hfits (ClientSession.authResponse_fits ..)
  | readResult f r hpc hr =>
    obtain ⟨more, hmore, -⟩ := hi.next_read h hr
    obtain ⟨ch, resp, -, hone, -⟩ := ClientSession.Talk.of_awaitResult (hpc ▸ hi.client.talk)
    rw [hone] at hmore
    obtain ⟨-, hmore⟩ := List.cons_prefix_cons.1 hmore
    obtain ⟨rfl, -⟩ := List.cons_prefix_cons.1 hmore
    rw [ClientSession.handleResult_eq rfl (h.lawful.authOk _ _) rfl]
    exact hfits h.request
  | readReply a f r hpc hr =>
    obtain ⟨more, hmore, hreply⟩ := hi.next_read h hr
    obtain ⟨ch, resp, res, outs, -, -, -, -, hreads, -⟩ := ClientSession.Talk.of_replies (hpc ▸ hi.client.talk)
    rw [hreads] at hmore
    obtain ⟨-, hmore⟩ := List.cons_prefix_cons.1 hmore
    obtain ⟨-, hmore⟩ := List.cons_prefix_cons.1 hmore
    exact ClientSession.handleReply_ok (hreply f (hmore.subset (by simp))) _ o
  | readBroken => exact hsm.elim
  | readFail a e hpc hr he =>
    -- the stream has not ended, since the session ends only after its client
    obtain ⟨act, -, -, hsays⟩ := hi.course h
    obtain ⟨r, hdone⟩ := hi.clientEof (he (hi.hears_client.read_error hsays hi.toClient hr))
    obtain ⟨-, code, hexit⟩ := hi.serverOk r hdone
    rcases hpc with ⟨sk', hpc⟩ | hpc | hpc <;> rw [hexit] at hpc <;> cases hpc
  | put n f rest k hpc h0 hn => nofun
  | flushed f k hpc => cases k <;> nofun
  | ioError e hpc => exact hsm.elim

/-- **The session ends well, and after its client.** -/
theorem Coupled.server_ok {a : Session.Action} {t : Session.State X} (hsm : Session.Smooth P s.server a)
    (hs : Session.step E s.server a = some t) {r : Except Str Unit} (hd : t.pc = .done r) :
    r = .ok () ∧ ∃ code, s.client.pc = .done (.exit code) := by
  obtain ⟨begun, hbegun, hsays⟩ := hi.client_says h
  have hhears := Session.hears_of_inv hi.server.inv
  obtain ⟨act, hat, hc, -⟩ := hi.course h
  have hread : ∀ f r, readFrame DEFAULT_MAX_PAYLOAD_LEN s.server.inbuf = .ok (f, r) →
      Session.readsOf s.server.log ++ [f] <+: [response X E sk, shellRequest C] :=
    fun f r hr => (hhears.read_prefix hsays hi.toServer hr).trans hbegun
  rcases Session.done_step h.invited hat hc hi.server.obey hi.server.opens hsm hread hs hd with hpc | ⟨e, hst⟩
  · exact hi.serverOk r hpc
  · have heof := hhears.read_error hsays hi.toServer hst.error
    obtain ⟨hall, out, hout⟩ := hi.serverEof (hst.eof heof)
    obtain ⟨code, hexit⟩ := hi.exited hout
    rcases hst.pc with hpc | ⟨hpc, hr⟩
    · -- a client that has exited has responded
      have hact := hat.act_eq (show s.server.pc.activity = some .challenged by rw [hpc]; rfl)
      subst hact
      obtain ⟨hnil, -, -⟩ := hc.of_challenged
      obtain ⟨f, r', hr'⟩ := hhears.next_frame (hi.says_all h (Or.inr ⟨code, hexit⟩)) hall (by rw [hnil]; nofun)
      rw [hst.error] at hr'
      cases hr'
    · exact ⟨hr heof, code, hexit⟩

/-- **Every smooth step of the two keeps it.** -/
theorem coupled_step {m : Move} (hsm : Joint.Smooth P s m) (hs : s.step E C m = some s') : Coupled E C P s' := by
  obtain ⟨act, hat, hc, -⟩ := hi.course h
  have hlive : Session.AllLive s.server := hc.live hat hi.server.receiving
  cases Joint.step_cases hs with
  | server a t ha hstep =>
    have hk := Session.keeps_step ha hstep
    refine ⟨hi.server.step hlive hsm hstep, hi.client, hi.toClient.trans hk.out, ?_, fun he => ?_, fun he => ?_,
      hi.clientOk, fun r hr => hi.server_ok h hsm hstep hr⟩
    · show t.received <+: s.client.out
      exact hk.received ▸ hi.toServer
    · obtain ⟨r, hr⟩ := hi.clientEof he
      exact ⟨r, Session.done_keeps hr hstep⟩
    · show t.received = s.client.out ∧ _
      rw [hk.received]
      exact hi.serverEof (hk.eof.symm.trans he)
  | client a u ha hstep =>
    have hk := ClientSession.keeps_step ha hstep
    have hgo : ∀ r, s.client.pc ≠ .done r := by
      intro r hr
      rw [ClientSession.own_of_done ha hr] at hstep
      cases hstep
    refine ⟨hi.server, ClientSession.told_step hi.client hstep, ?_, hi.toServer.trans hk.out, fun he => ?_, fun he => ?_,
      hi.client_ok h hsm ha hstep, fun r hr => ?_⟩
    · show u.received <+: s.server.out
      exact hk.received ▸ hi.toClient
    · exact hi.clientEof (hk.eof.symm.trans he)
    · obtain ⟨-, r, hr⟩ := hi.serverEof he
      exact absurd hr (hgo r)
    · obtain ⟨-, code, hexit⟩ := hi.serverOk r hr
      exact absurd hexit (hgo _)
  | toServer n t h0 hn hstep =>
    have hserver := hi.server.step hlive (a := .clientSend (s.toServer.take n)) trivial hstep
    cases Session.step_cases hstep with
    | clientSend b he =>
      refine ⟨hserver, hi.client, hi.toClient, prefix_arrived hi.toServer n, hi.clientEof, fun he' => ?_, hi.clientOk,
        hi.serverOk⟩
      have heof : s.server.eof = true := he'
      rw [he] at heof
      cases heof
  | toClient n u h0 hn hstep =>
    have hclient := ClientSession.told_step hi.client hstep
    simp only [ClientSession.step] at hstep
    split at hstep
    · cases hstep
    · cases hstep
      exact ⟨hi.server, hclient, prefix_arrived hi.toClient n, hi.toServer, hi.clientEof, hi.serverEof, hi.clientOk,
        hi.serverOk⟩
  | closeServer r hpc hall heof =>
    have hserver : ServerInv E P { s.server with eof := true } :=
      hi.server.step hlive (a := .clientClose) trivial rfl
    exact ⟨hserver, hi.client, hi.toClient, hi.toServer, hi.clientEof,
      fun _ => ⟨all_arrived hi.toServer hall, r, hpc⟩, hi.clientOk, hi.serverOk⟩
  | closeClient r hpc hall heof =>
    have hclient : ClientSession.Told X C { s.client with eof := true } :=
      ClientSession.told_step hi.client (a := .serverClose) rfl
    exact ⟨hi.server, hclient, hi.toClient, hi.toServer, fun _ => ⟨r, hpc⟩, hi.serverEof, hi.clientOk, hi.serverOk⟩

end View

end Sao.System
