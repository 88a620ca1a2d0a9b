import Sao.Server.Session

/-!
# What one step of a session can do

`Step` lists the transitions of `step` with what enables each of them; `step_cases` is the only
place where `step` is unfolded. The functions a step calls have one spec lemma each:

* `beginWrite_cases` — a frame within the maximum is written, any other ends the session.
* `handleAuth_cases`, `handleFrame_cases` — the answers to a response frame and to a request.
* `log_step` — what a step records.
-/

namespace Sao.Session

open MsgType State

variable {X : Ext} {E : Env} {s s' : State X}

/-! ## Projections -/

@[simp] theorem finish_pc (s : State X) (r : Except Str Unit) : (s.finish r).pc = .done r := rfl
@[simp] theorem finish_log (s : State X) (r : Except Str Unit) : (s.finish r).log = s.log := rfl
@[simp] theorem finish_out (s : State X) (r : Except Str Unit) : (s.finish r).out = s.out := rfl
@[simp] theorem finish_received (s : State X) (r : Except Str Unit) : (s.finish r).received = s.received := rfl
@[simp] theorem finish_inbuf (s : State X) (r : Except Str Unit) : (s.finish r).inbuf = s.inbuf := rfl
@[simp] theorem finish_keys (s : State X) (r : Except Str Unit) : (s.finish r).keys = s.keys := rfl

@[simp] theorem emit_pc (s : State X) (e : Event X) : (s.emit e).pc = s.pc := rfl
@[simp] theorem emit_log (s : State X) (e : Event X) : (s.emit e).log = s.log ++ [e] := rfl
@[simp] theorem emit_out (s : State X) (e : Event X) : (s.emit e).out = s.out := rfl
@[simp] theorem emit_received (s : State X) (e : Event X) : (s.emit e).received = s.received := rfl
@[simp] theorem emit_inbuf (s : State X) (e : Event X) : (s.emit e).inbuf = s.inbuf := rfl
@[simp] theorem emit_keys (s : State X) (e : Event X) : (s.emit e).keys = s.keys := rfl
@[simp] theorem emit_child (s : State X) (e : Event X) : (s.emit e).child = s.child := rfl

/-! ## Spec lemmas -/

theorem beginWrite_fits {f : Frame} (hf : f.Fits DEFAULT_MAX_PAYLOAD_LEN) (s : State X) (k : Cont) :
    s.beginWrite f k = { s with pc := .write f (encode f) k } := by
  unfold State.beginWrite
  rw [encodeFrame_fits hf]

theorem beginWrite_cases (s : State X) (f : Frame) (k : Cont) :
    (f.Fits DEFAULT_MAX_PAYLOAD_LEN ∧ s.beginWrite f k = { s with pc := .write f (encode f) k }) ∨
    ∃ e, s.beginWrite f k = s.finish (.error e) := by
  by_cases hf : f.Fits DEFAULT_MAX_PAYLOAD_LEN
  · exact Or.inl ⟨hf, beginWrite_fits hf s k⟩
  · obtain ⟨len, he⟩ := encodeFrame_not_fits hf
    refine Or.inr ⟨(ProtocolError.payloadTooLarge len DEFAULT_MAX_PAYLOAD_LEN).display, ?_⟩
    unfold State.beginWrite
    rw [he]

/-- A response frame that `run_session` accepts, with the entry it is accepted for. -/
structure Accepted (E : Env) (keys : List (AuthorizedKey X)) (resp : Frame) (entry : AuthorizedKey X)
    (ar : AuthResponsePayload) : Prop where
  msgType : resp.msgType = AUTH_RESPONSE
  decodes : X.authResponse resp.payload = .ok ar
  keyType : ar.keyType = KEY_TYPE_ED25519
  found : findKey X keys ar.fingerprint = some entry
  verified : verifyEd25519Signature X entry.verifyingKey (signingBytes E.nonce.1 E.sessionId) ar.signature = .ok ()

theorem authenticate_ok_iff {keys : List (AuthorizedKey X)} {resp : Frame} {entry : AuthorizedKey X} {sig : Str} :
    authenticate E keys resp = .ok entry sig ↔ ∃ ar, Accepted E keys resp entry ar ∧ ar.signature = sig := by
  unfold authenticate
  constructor
  · intro h
    split at h
    · cases h
    rename_i hmt
    split at h
    · cases h
    rename_i ar har
    split at h
    · cases h
    rename_i hkt
    split at h
    · cases h
    rename_i e hfind
    split at h
    · cases h
    rename_i hver
    cases h
    rw [ne_eq, Decidable.not_not] at hmt hkt
    exact ⟨ar, ⟨hmt, har, hkt, hfind, hver⟩, rfl⟩
  · rintro ⟨ar, ⟨hmt, har, hkt, hfind, hver⟩, rfl⟩
    simp only [hmt, har, hkt, hfind, hver, ne_eq, not_true_eq_false, if_false]

/-- What a response frame leads to. -/
theorem handleAuth_cases (E : Env) (s : State X) (f : Frame) :
    (∃ entry ar, Accepted E s.keys f entry ar ∧
      handleAuth E s f = (s.emit (.authed entry ar.signature)).beginWrite (authOk E entry) .authOk) ∨
    (∃ g, handleAuth E s f = s.beginWrite g .finish) ∨ ∃ r, handleAuth E s f = s.finish r := by
  unfold handleAuth
  cases h : authenticate E s.keys f with
  | expectedAuthResponse => exact Or.inr (Or.inl ⟨_, rfl⟩)
  | malformed e => exact Or.inr (Or.inr ⟨_, rfl⟩)
  | fail reason message => exact Or.inr (Or.inl ⟨_, rfl⟩)
  | ok entry sig =>
    obtain ⟨ar, hacc, rfl⟩ := authenticate_ok_iff.1 h
    exact Or.inl ⟨entry, ar, hacc, rfl⟩

/-- The shell line of a request that passes the policy. -/
def permitted (E : Env) (f : Frame) : Option Str :=
  if f.msgType = EXEC_SHELL then
    match X.execShell f.payload with
    | .error _ => none
    | .ok shell => if checkShell X E.config.policy shell = .ok () then some shell else none
  else none

theorem permitted_some {f : Frame} {shell : Str} (h : permitted (X := X) E f = some shell) :
    f.msgType = EXEC_SHELL ∧ X.execShell f.payload = .ok shell ∧ checkShell X E.config.policy shell = .ok () := by
  unfold permitted at h
  split at h
  · rename_i hmt
    split at h
    · cases h
    · rename_i hs
      split at h
      · rename_i hc
        cases h
        exact ⟨hmt, hs, hc⟩
      · cases h
  · cases h

/-- What a request leads to. -/
theorem handleFrame_cases (E : Env) (s : State X) (f : Frame) :
    (∃ shell, permitted (X := X) E f = some shell ∧ 2 ≤ E.config.shellArgv.length ∧
      handleFrame E s f = { s with pc := .spawning (E.config.shellArgv ++ [shell]) }) ∨
    (∃ g k, (k = .serve ∨ k = .finish) ∧ handleFrame E s f = s.beginWrite g k) ∨
    ∃ r, handleFrame E s f = s.finish r := by
  unfold handleFrame
  split
  · rename_i hmt
    split
    · exact Or.inr (Or.inr ⟨_, rfl⟩)
    · rename_i shell hs
      unfold runOneExec
      cases hc : checkShell X E.config.policy shell with
      | error e =>
        obtain ⟨pat, -, -, rfl⟩ := checkShell_error hc
        exact Or.inr (Or.inl ⟨_, .serve, Or.inl rfl, rfl⟩)
      | ok u =>
        simp only
        split
        · exact Or.inr (Or.inr ⟨_, rfl⟩)
        · rename_i hlen
          refine Or.inl ⟨shell, ?_, by omega, rfl⟩
          unfold permitted
          rw [if_pos hmt, hs]
          simp only
          rw [if_pos hc]
  · exact Or.inr (Or.inl ⟨_, .finish, Or.inr rfl, rfl⟩)

/-! ## Transitions -/

inductive Step (E : Env) (s : State X) : Action → State X → Prop where
  | clientSend (b : Bytes) (h : s.eof = false) :
    Step E s (.clientSend b) { s with received := s.received ++ b, inbuf := s.inbuf ++ b }
  | clientClose : Step E s .clientClose { s with eof := true }
  | child (a : Child.Action) (c c' : Child) (hc : s.child = some c) (h : c.step a = some c') :
    Step E s (.child a) { s with child := some c' }
  | leftover (i : Nat) (a : Child.Action) (c c' : Child) (hc : s.leftover[i]? = some c) (h : c.step a = some c') :
    Step E s (.leftover i a) { s with leftover := s.leftover.set i c' }
  | start (h : s.pc = .start) : Step E s .start (start E s)
  | readAuth (f : Frame) (r : Bytes) (h : s.pc = .awaitAuth)
      (hr : readFrame DEFAULT_MAX_PAYLOAD_LEN s.inbuf = .ok (f, r)) :
    Step E s .read (handleAuth E ({ s with inbuf := r }.emit (.read f)) f)
  | readServe (f : Frame) (r : Bytes) (h : s.pc = .serve)
      (hr : readFrame DEFAULT_MAX_PAYLOAD_LEN s.inbuf = .ok (f, r)) :
    Step E s .read (handleFrame E ({ s with inbuf := r }.emit (.read f)) f)
  | readFail (r : Except Str Unit) (e : ProtocolError) (h : s.pc = .awaitAuth ∨ s.pc = .serve)
      (hr : readFrame DEFAULT_MAX_PAYLOAD_LEN s.inbuf = .error e) (he : e = .unexpectedEof → s.eof = true) :
    Step E s .read (s.finish r)
  | put (n : Nat) (f : Frame) (rest : Bytes) (k : Cont) (h : s.pc = .write f rest k) (h0 : 0 < n)
      (hn : n ≤ rest.length) :
    Step E s (.put n) { s with out := s.out ++ rest.take n, pc := .write f (rest.drop n) k }
  | flushed (f : Frame) (k : Cont) (h : s.pc = .write f [] k) : Step E s .flushed (afterWrite s f k)
  | ioError (e : Str) (h : s.pc.onStream = true) :
    Step E s (.ioError e) (s.finish (.error (ProtocolError.io e).display))
  | spawnOk (argv : List Str) (h : s.pc = .spawning argv) :
    Step E s .spawnOk (spawned s argv)
  | spawnErr (e : Str) (argv : List Str) (h : s.pc = .spawning argv) : Step E s (.spawnErr e) (s.finish (.error e))
  | recv (c : Child) (chunk : StreamChunk) (q : List StreamChunk) (h : s.pc = .recv) (hc : s.child = some c)
      (hq : c.queue = chunk :: q) :
    Step E s .recv ({ s with child := some { c with queue := q } }.beginWrite (chunkFrame chunk) .forward)
  | recvNone (c : Child) (h : s.pc = .recv) (hc : s.child = some c) (hq : c.queue = []) (hg : c.sendersGone) :
    Step E s .recvNone { s with pc := .wait }
  | waitOk (c : Child) (code : Option Int32) (h : s.pc = .wait) (hc : s.child = some c) (hs : c.status = some code) :
    Step E s .waitOk ((s.emit .reaped).beginWrite (exitFrame (code.getD (-1))) .execEnd)
  | waitErr (e : Str) (h : s.pc = .wait) : Step E s (.waitErr e) (s.finish (.error e))
  | timeout (h : s.pc.inExec = true) : Step E s .timeout (timeout s)

/-- A `read` ends in a handler or ends the session. -/
theorem read_cases {handle : State X → Frame → State X} {eof : Except Str Unit}
    (h : read s handle eof = some s') :
    (∃ f r, readFrame DEFAULT_MAX_PAYLOAD_LEN s.inbuf = .ok (f, r) ∧
      s' = handle ({ s with inbuf := r }.emit (.read f)) f) ∨
    ∃ r e, readFrame DEFAULT_MAX_PAYLOAD_LEN s.inbuf = .error e ∧ (e = .unexpectedEof → s.eof = true) ∧
      s' = s.finish r := by
  unfold read at h
  split at h
  · rename_i f r hr
    cases h
    exact Or.inl ⟨f, r, hr, rfl⟩
  · rename_i hr
    split at h
    · rename_i he
      cases h
      exact Or.inr ⟨_, _, hr, fun _ => he, rfl⟩
    · cases h
  · rename_i e hne hr
    cases h
    exact Or.inr ⟨_, _, hr, fun he => (hne he).elim, rfl⟩

theorem step_cases {a : Action} (h : step E s a = some s') : Step E s a s' := by
  cases a with
  | clientSend b =>
    simp only [step] at h
    split at h
    · cases h
    · rename_i he
      cases h
      exact .clientSend b (by simpa using he)
  | clientClose => simp only [step, Option.some.injEq] at h; exact h ▸ .clientClose
  | child a =>
    simp only [step] at h
    split at h
    · cases h
    · rename_i c hc
      obtain ⟨c', hc', rfl⟩ := Option.map_eq_some_iff.1 h
      exact .child a c c' hc hc'
  | leftover i a =>
    simp only [step] at h
    split at h
    · cases h
    · rename_i c hc
      obtain ⟨c', hc', rfl⟩ := Option.map_eq_some_iff.1 h
      exact .leftover i a c c' hc hc'
  | start =>
    simp only [step] at h
    split at h
    · rename_i hpc; cases h; exact .start hpc
    · cases h
  | read =>
    simp only [step] at h
    split at h
    · rename_i hpc
      rcases read_cases h with ⟨f, r, hr, rfl⟩ | ⟨r, e, hr, he, rfl⟩
      · exact .readAuth f r hpc hr
      · exact .readFail r e (Or.inl hpc) hr he
    · rename_i hpc
      rcases read_cases h with ⟨f, r, hr, rfl⟩ | ⟨r, e, hr, he, rfl⟩
      · exact .readServe f r hpc hr
      · exact .readFail r e (Or.inr hpc) hr he
    · cases h
  | put n =>
    simp only [step] at h
    split at h
    · rename_i f rest k hpc
      split at h
      · rename_i hn; cases h; exact .put n f rest k hpc hn.1 hn.2
      · cases h
    · cases h
  | flushed =>
    simp only [step] at h
    split at h
    · rename_i f k hpc; cases h; exact .flushed f k hpc
    · cases h
  | ioError e =>
    simp only [step] at h
    split at h
    · rename_i hpc; cases h; exact .ioError e hpc
    · cases h
  | spawnOk =>
    simp only [step] at h
    split at h
    · rename_i argv hpc; cases h; exact .spawnOk argv hpc
    · cases h
  | spawnErr e =>
    simp only [step] at h
    split at h
    · rename_i argv hpc; cases h; exact .spawnErr e argv hpc
    · cases h
  | recv =>
    simp only [step] at h
    split at h
    · rename_i c hpc hc
      unfold recv at h
      split at h
      · cases h
      · rename_i chunk q hq; cases h; exact .recv c chunk q hpc hc hq
    · cases h
  | recvNone =>
    simp only [step] at h
    split at h
    · rename_i c hpc hc
      split at h
      · rename_i hg; cases h; exact .recvNone c hpc hc hg.1 hg.2
      · cases h
    · cases h
  | waitOk =>
    simp only [step] at h
    split at h
    · rename_i c hpc hc
      unfold waitOk at h
      split at h
      · cases h
      · rename_i code hs; cases h; exact .waitOk c code hpc hc hs
    · cases h
  | waitErr e =>
    simp only [step] at h
    split at h
    · rename_i hpc; cases h; exact .waitErr e hpc
    · cases h
  | timeout =>
    simp only [step] at h
    split at h
    · rename_i hpc; cases h; exact .timeout hpc
    · cases h

/-! ## What is recorded -/

@[simp] theorem beginWrite_log (s : State X) (f : Frame) (k : Cont) : (s.beginWrite f k).log = s.log := by
  rcases beginWrite_cases s f k with ⟨-, h⟩ | ⟨e, h⟩ <;> rw [h]
  rfl

theorem handleFrame_log (E : Env) (s : State X) (f : Frame) : (handleFrame E s f).log = s.log := by
  rcases handleFrame_cases E s f with ⟨_, -, -, h⟩ | ⟨g, k, -, h⟩ | ⟨r, h⟩
  · rw [h]
  · rw [h, beginWrite_log]
  · rw [h, finish_log]

/-- **A step only adds to the log**; it authenticates at most the response it has just read. -/
theorem log_step {a : Action} (h : step E s a = some s') : ∃ l, s'.log = s.log ++ l ∧
    ∀ entry sig, .authed entry sig ∈ l →
      ∃ f ar, s.pc = .awaitAuth ∧ Accepted E s.keys f entry ar ∧ ar.signature = sig := by
  cases step_cases h with
  | clientSend b he => exact ⟨[], by simp, by simp⟩
  | clientClose => exact ⟨[], by simp, by simp⟩
  | child a c c' hc hs => exact ⟨[], by simp, by simp⟩
  | leftover i a c c' hc hs => exact ⟨[], by simp, by simp⟩
  | start hpc =>
    refine ⟨[], ?_, by simp⟩
    unfold Session.start
    split
    · simp
    · simp
  | readAuth f r hpc hr =>
    rcases handleAuth_cases E ({ s with inbuf := r }.emit (.read f)) f with ⟨entry, ar, hacc, heq⟩ | ⟨g, heq⟩ | ⟨e, heq⟩
    · refine ⟨[.read f, .authed entry ar.signature], by simp [heq], fun entry' sig hm => ?_⟩
      simp only [List.mem_cons, reduceCtorEq, Event.authed.injEq, List.not_mem_nil, or_false, false_or] at hm
      obtain ⟨rfl, rfl⟩ := hm
      exact ⟨f, ar, hpc, hacc, rfl⟩
    · exact ⟨[.read f], by simp [heq], by simp⟩
    · exact ⟨[.read f], by simp [heq], by simp⟩
  | readServe f r hpc hr => exact ⟨[.read f], by simp [handleFrame_log], by simp⟩
  | readFail e hpc hr he => exact ⟨[], by simp, by simp⟩
  | put n f rest k hpc h0 hn => exact ⟨[], by simp, by simp⟩
  | flushed f k hpc => exact ⟨[.wrote f], by cases k <;> rfl, by simp⟩
  | ioError e hpc => exact ⟨[], by simp, by simp⟩
  | spawnOk argv hpc => exact ⟨[.spawned argv], rfl, by simp⟩
  | spawnErr e argv hpc => exact ⟨[], by simp, by simp⟩
  | recv c chunk q hpc hc hq => exact ⟨[], by simp, by simp⟩
  | recvNone c hpc hc hq hg => exact ⟨[], by simp, by simp⟩
  | waitOk c code hpc hc hs => exact ⟨[.reaped], by simp, by simp⟩
  | waitErr e hpc => exact ⟨[], by simp, by simp⟩
  | timeout hpc => exact ⟨[.killed s.pc], by simp [Session.timeout], by simp⟩

theorem run_log {as : List Action} (h : run E s as = some s') : s.log <+: s'.log :=
  Lts.run_rel (fun s t => s.log <+: t.log) (fun s => List.prefix_refl _) (fun _ _ _ => List.IsPrefix.trans)
    (fun s a t hstep => by obtain ⟨l, hl, -⟩ := log_step hstep; exact ⟨l, hl.symm⟩) h

/-- What was authenticated in a run verified under the key of its entry. -/
def VerifiedInv (E : Env) (s : State X) : Prop := ∀ entry sig, .authed entry sig ∈ s.log →
  verifyEd25519Signature X entry.verifyingKey (signingBytes E.nonce.1 E.sessionId) sig = .ok ()

theorem verifiedInv_step {a : Action} (hi : VerifiedInv E s) (h : step E s a = some s') : VerifiedInv E s' := by
  obtain ⟨l, hl, hauthed⟩ := log_step h
  intro entry sig hm
  rw [hl, List.mem_append] at hm
  rcases hm with hm | hm
  · exact hi entry sig hm
  · obtain ⟨f, ar, -, hacc, rfl⟩ := hauthed entry sig hm
    exact hacc.verified

theorem verifiedInv_run {as : List Action} (h : run E (init X) as = some s) : VerifiedInv E s :=
  Lts.run_inv (VerifiedInv E) (fun _ _ _ hi hs => verifiedInv_step hi hs) (fun entry sig hm => by cases hm) h

end Sao.Session
