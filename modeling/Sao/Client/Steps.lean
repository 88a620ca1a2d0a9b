import Sao.Client.Session

/-!
# What one step of a client session can do

`Step` lists the transitions of `step` with what enables each of them; `step_cases` is the only
place where `step` is unfolded.

* `answerChallenge_cases`, `handleResult_cases`, `handleReply_cases` — what each frame leads to.
* `log_step` — a step only adds to the log, and signs at most the challenge it has just read.
-/

namespace Sao.ClientSession

open MsgType State

variable {X : Ext} {E : Env} {s s' : State}

/-! ## Spec lemmas -/

theorem beginWrite_fits {f : Frame} (hf : f.Fits DEFAULT_MAX_PAYLOAD_LEN) (s : State) (k : Cont) :
    s.beginWrite f k = { s with pc := .write f (encode f) k } := by
  unfold State.beginWrite
  rw [encodeFrame_fits hf]

theorem beginWrite_cases (s : State) (f : Frame) (k : Cont) :
    (f.Fits DEFAULT_MAX_PAYLOAD_LEN ∧ s.beginWrite f k = { s with pc := .write f (encode f) k }) ∨
    ∃ text, s.beginWrite f k = s.fail text := by
  by_cases hf : f.Fits DEFAULT_MAX_PAYLOAD_LEN
  · exact Or.inl ⟨hf, beginWrite_fits hf s k⟩
  · obtain ⟨len, he⟩ := encodeFrame_not_fits hf
    refine Or.inr ⟨(ProtocolError.payloadTooLarge len DEFAULT_MAX_PAYLOAD_LEN).display, ?_⟩
    unfold State.beginWrite
    rw [he]

@[simp] theorem beginWrite_log (s : State) (f : Frame) (k : Cont) : (s.beginWrite f k).log = s.log := by
  rcases beginWrite_cases s f k with ⟨-, h⟩ | ⟨text, h⟩
  · rw [h]
  · rw [h]; rfl

@[simp] theorem fail_log (s : State) (text : Str) : (s.fail text).log = s.log := rfl
@[simp] theorem exit_log (s : State) (code : Int32) : (s.exit code).log = s.log := rfl
@[simp] theorem emit_log (s : State) (e : Event) : (s.emit e).log = s.log ++ [e] := rfl
@[simp] theorem eprintln_log (s : State) (text : Bytes) : (s.eprintln text).log = s.log := rfl
@[simp] theorem writeStd_log (s : State) (t : UInt8) (raw : Bytes) : (s.writeStd t raw).log = s.log := by
  unfold State.writeStd
  split <;> rfl

/-- The frame is a challenge with this nonce and this session id. -/
structure Challenges (X : Ext) (f : Frame) (nonce : Bytes) (sessionId : Str) : Prop where
  msgType : f.msgType = AUTH_CHALLENGE
  decodes : ∃ ch, X.authChallenge f.payload = .ok ch ∧ X.base64Decode ch.nonce = .ok nonce ∧ ch.sessionId = sessionId

theorem Challenges.unique {f : Frame} {nonce nonce' : Bytes} {sessionId sessionId' : Str}
    (h : Challenges X f nonce sessionId) (h' : Challenges X f nonce' sessionId') :
    nonce = nonce' ∧ sessionId = sessionId' := by
  obtain ⟨-, ch, hch, hnonce, rfl⟩ := h
  obtain ⟨-, ch', hch', hnonce', rfl⟩ := h'
  rw [hch, Except.ok.injEq] at hch'
  subst hch'
  rw [hnonce, Except.ok.injEq] at hnonce'
  exact ⟨hnonce', rfl⟩

/-- A challenge is signed and answered; whatever else comes first ends the session. -/
theorem answerChallenge_cases (X : Ext) (sk : ByteArr 32) (s : State) (f : Frame) :
    (∃ nonce sessionId, Challenges X f nonce sessionId ∧ answerChallenge X sk s f =
      (s.emit (.signed (signingBytes nonce sessionId) (signature X sk nonce sessionId))).beginWrite
        (authResponse X sk nonce sessionId) .awaitResult) ∨
    ∃ text, answerChallenge X sk s f = s.fail text := by
  unfold answerChallenge
  split
  · exact Or.inr ⟨_, rfl⟩
  rename_i hmt
  rw [ne_eq, Decidable.not_not] at hmt
  split
  · exact Or.inr ⟨_, rfl⟩
  rename_i ch hch
  split
  · exact Or.inr ⟨_, rfl⟩
  rename_i nonce hnonce
  exact Or.inl ⟨nonce, ch.sessionId, ⟨hmt, ch, hch, hnonce, rfl⟩, rfl⟩

theorem answerChallenge_eq {sk : ByteArr 32} {f : Frame} {nonce : Bytes} {sessionId : Str}
    (h : Challenges X f nonce sessionId) (s : State) : answerChallenge X sk s f =
      (s.emit (.signed (signingBytes nonce sessionId) (signature X sk nonce sessionId))).beginWrite
        (authResponse X sk nonce sessionId) .awaitResult := by
  obtain ⟨hmt, ch, hch, hnonce, rfl⟩ := h
  simp only [answerChallenge, hmt, hch, hnonce, ne_eq, not_true_eq_false, if_false]

/-- The request is sent after a result that says `ok`, and only then. -/
theorem handleResult_cases (X : Ext) (shellLine : Str) (s : State) (f : Frame) :
    (∃ ar, f.msgType = AUTH_RESULT ∧ X.authResult f.payload = .ok ar ∧ ar.ok = true ∧
      handleResult X shellLine s f = s.beginWrite (execShell shellLine) .replies) ∨
    ∃ text, handleResult X shellLine s f = s.fail text := by
  unfold handleResult
  split
  · exact Or.inr ⟨_, rfl⟩
  rename_i hmt
  rw [ne_eq, Decidable.not_not] at hmt
  split
  · exact Or.inr ⟨_, rfl⟩
  rename_i ar har
  split
  · rename_i hok
    exact Or.inl ⟨ar, hmt, har, hok, rfl⟩
  · exact Or.inr ⟨_, rfl⟩

/-- The exit code a frame in the loop leads to, where it ends the client by `process::exit`. -/
def exitOf (X : Ext) (f : Frame) : Option Int32 :=
  if f.msgType = STREAM_STDOUT ∨ f.msgType = STREAM_STDERR then none
  else if f.msgType = EXEC_EXIT then
    match X.exitCode f.payload with
    | .error _ => none
    | .ok code => some (code.getD (-1)).toInt32
  else if f.msgType = POLICY_DENIED then some 126
  else some 1

theorem exitOf_exit {X : Ext} {f : Frame} {code : Option Int64} (hmt : f.msgType = EXEC_EXIT)
    (hcode : X.exitCode f.payload = .ok code) : exitOf X f = some (code.getD (-1)).toInt32 := by
  unfold exitOf
  rw [if_neg (by rw [hmt]; decide), if_pos hmt, hcode]

/-- What a frame in the loop leads to: data is written, or the session ends. -/
theorem handleReply_cases (X : Ext) (s : State) (f : Frame) :
    (∃ raw, (f.msgType = STREAM_STDOUT ∨ f.msgType = STREAM_STDERR) ∧ streamBytes X f = .ok raw ∧
      handleReply X s f = { s.writeStd f.msgType raw with pc := .replies }) ∨
    (∃ code, exitOf X f = some code ∧
      handleReply X s f = { s with stderr := s.stderr ++ printed X f, pc := .done (.exit code) }) ∨
    ∃ text, handleReply X s f = s.fail text := by
  unfold handleReply printed
  split
  · rename_i hmt
    split
    · exact Or.inr (Or.inr ⟨_, rfl⟩)
    · rename_i raw hraw
      exact Or.inl ⟨raw, hmt, hraw, rfl⟩
  rename_i hstream
  split
  · rename_i hmt
    split
    · exact Or.inr (Or.inr ⟨_, rfl⟩)
    · rename_i code hcode
      exact Or.inr (Or.inl ⟨_, exitOf_exit hmt hcode, by rw [List.append_nil]; rfl⟩)
  rename_i hexit
  unfold exitOf
  rw [if_neg hstream, if_neg hexit]
  split
  · rename_i hpd
    exact Or.inr (Or.inl ⟨126, rfl, by rw [if_pos (Or.inl hpd), ← List.append_assoc]; rfl⟩)
  rename_i hpd
  split
  · rename_i herr
    exact Or.inr (Or.inl ⟨1, rfl, by rw [if_pos (Or.inr herr), ← List.append_assoc]; rfl⟩)
  · rename_i herr
    exact Or.inr (Or.inl ⟨1, rfl, by rw [if_neg (by rintro (h | h); exacts [hpd h, herr h]), ← List.append_assoc]; rfl⟩)

@[simp] theorem handleReply_log (X : Ext) (s : State) (f : Frame) : (handleReply X s f).log = s.log := by
  rcases handleReply_cases X s f with ⟨raw, -, -, h⟩ | ⟨code, -, h⟩ | ⟨text, h⟩ <;> rw [h]
  · exact writeStd_log _ _ _
  · rfl

/-- What is left where `s` ends on the way to `t`: some of what is new is written. -/
structure Breaks (s t : State) (o : Outcome) (stdout held stderr : Bytes) : Prop where
  failed : o.Failed
  out : stdout <+: t.stdout
  err : stderr <+: t.stderr
  buffer : held = [] ∨ stdout = s.stdout ∧ held = s.held

theorem handleReply_stream {f : Frame} {raw : Bytes} (hmt : f.msgType = STREAM_STDOUT ∨ f.msgType = STREAM_STDERR)
    (hraw : streamBytes X f = .ok raw) (s : State) :
    handleReply X s f = { s.writeStd f.msgType raw with pc := .replies } := by
  simp only [handleReply, hmt, hraw, if_true]

theorem handleReply_printed {f : Frame} (hmt : ¬ (f.msgType = STREAM_STDOUT ∨ f.msgType = STREAM_STDERR)) (s : State) :
    (handleReply X s f).stdout = s.stdout ∧ (handleReply X s f).stderr = s.stderr ++ printed X f := by
  unfold handleReply printed
  rw [if_neg hmt]
  split
  · rw [List.append_nil]
    split <;> exact ⟨rfl, rfl⟩
  · split
    · rename_i hpd
      rw [if_pos (Or.inl hpd), ← List.append_assoc]
      exact ⟨rfl, rfl⟩
    · rename_i hpd
      split
      · rename_i herr
        rw [if_pos (Or.inr herr), ← List.append_assoc]
        exact ⟨rfl, rfl⟩
      · rename_i herr
        rw [if_neg (not_or.2 ⟨hpd, herr⟩), ← List.append_assoc]
        exact ⟨rfl, rfl⟩

/-- A standard stream that fails ends the session within a reply, unless nothing was to be passed on. -/
theorem handleReplyBroken_cases (X : Ext) (n : Nat) (e : Str) (s : State) (f : Frame) :
    handleReplyBroken X n e s f = handleReply X s f ∨
    ∃ o stdout held stderr, Breaks s (handleReply X s f) o stdout held stderr ∧
      handleReplyBroken X n e s f = { s with stdout, held, stderr, pc := .done o } := by
  unfold handleReplyBroken
  split
  · rename_i hmt
    cases hraw : streamBytes X f with
    | error e => exact Or.inl (by simp only [handleReply, hmt, hraw, if_true])
    | ok raw =>
      rw [handleReply_stream hmt hraw]
      unfold State.writeStd
      dsimp only
      split
      · split
        · have herr : s.stderr ++ raw.take n <+: s.stderr ++ raw := (List.prefix_append_right_inj _).2 (List.take_prefix _ _)
          exact Or.inr ⟨.err e, _, _, _, ⟨trivial, List.prefix_refl _, herr, Or.inr ⟨rfl, rfl⟩⟩, rfl⟩
        · exact Or.inl rfl
      · split
        · exact Or.inr ⟨.err e, _, _, _, ⟨trivial, List.take_prefix _ _, List.prefix_refl _, Or.inl rfl⟩, rfl⟩
        · exact Or.inl rfl
  · rename_i hmt
    obtain ⟨hout, herr⟩ := handleReply_printed (X := X) hmt s
    split
    · refine Or.inr ⟨.panic, _, _, _, ⟨trivial, hout ▸ List.prefix_refl _, ?_, Or.inr ⟨rfl, rfl⟩⟩, rfl⟩
      rw [herr]
      exact (List.prefix_append_right_inj _).2 (List.take_prefix _ _)
    · exact Or.inl rfl

/-! ## Transitions -/

inductive Step (X : Ext) (E : Env) (s : State) : Action → State → Prop where
  | serverSend (b : Bytes) (h : s.eof = false) :
    Step X E s (.serverSend b) { s with received := s.received ++ b, inbuf := s.inbuf ++ b }
  | serverClose : Step X E s .serverClose { s with eof := true }
  | startOk (sk : ByteArr 32) (h : s.pc = .start) (hk : E.signingKey = .ok sk) :
    Step X E s .start { s with pc := .awaitChallenge sk }
  | startErr (e : CoreError) (h : s.pc = .start) (hk : E.signingKey = .error e) :
    Step X E s .start (s.fail e.display)
  | readChallenge (sk : ByteArr 32) (f : Frame) (r : Bytes) (h : s.pc = .awaitChallenge sk)
      (hr : readFrame DEFAULT_MAX_PAYLOAD_LEN s.inbuf = .ok (f, r)) :
    Step X E s .read (answerChallenge X sk ({ s with inbuf := r }.emit (.read f)) f)
  | readResult (f : Frame) (r : Bytes) (h : s.pc = .awaitResult)
      (hr : readFrame DEFAULT_MAX_PAYLOAD_LEN s.inbuf = .ok (f, r)) :
    Step X E s .read (handleResult X E.shellLine ({ s with inbuf := r }.emit (.read f)) f)
  | readReply (a : Action) (f : Frame) (r : Bytes) (h : s.pc = .replies)
      (hr : readFrame DEFAULT_MAX_PAYLOAD_LEN s.inbuf = .ok (f, r)) :
    Step X E s a (handleReply X ({ s with inbuf := r }.emit (.read f)) f)
  | readBroken (n : Nat) (e : Str) (f : Frame) (r : Bytes) (o : Outcome) (stdout held stderr : Bytes) (h : s.pc = .replies)
      (hr : readFrame DEFAULT_MAX_PAYLOAD_LEN s.inbuf = .ok (f, r))
      (hb : Breaks s (handleReply X ({ s with inbuf := r }.emit (.read f)) f) o stdout held stderr) :
    Step X E s (.readBroken n e)
      { ({ s with inbuf := r }.emit (.read f)) with stdout, held, stderr, pc := .done o }
  | readFail (a : Action) (e : ProtocolError)
      (h : (∃ sk, s.pc = .awaitChallenge sk) ∨ s.pc = .awaitResult ∨ s.pc = .replies)
      (hr : readFrame DEFAULT_MAX_PAYLOAD_LEN s.inbuf = .error e) (he : e = .unexpectedEof → s.eof = true) :
    Step X E s a (s.fail e.display)
  | put (n : Nat) (f : Frame) (rest : Bytes) (k : Cont) (h : s.pc = .write f rest k) (h0 : 0 < n)
      (hn : n ≤ rest.length) :
    Step X E s (.put n) { s with out := s.out ++ rest.take n, pc := .write f (rest.drop n) k }
  | flushed (f : Frame) (k : Cont) (h : s.pc = .write f [] k) : Step X E s .flushed (afterWrite s f k)
  | ioError (e : Str) (h : s.pc.onStream = true) : Step X E s (.ioError e) (s.fail (ProtocolError.io e).display)

/-- A `read` ends in a handler or ends the session. -/
theorem readWith_cases {handle : State → Frame → State} (h : readWith s handle = some s') :
    (∃ f r, readFrame DEFAULT_MAX_PAYLOAD_LEN s.inbuf = .ok (f, r) ∧
      s' = handle ({ s with inbuf := r }.emit (.read f)) f) ∨
    ∃ e, readFrame DEFAULT_MAX_PAYLOAD_LEN s.inbuf = .error e ∧ (e = .unexpectedEof → s.eof = true) ∧
      s' = s.fail e.display := by
  unfold readWith at h
  split at h
  · rename_i f r hr
    cases h
    exact Or.inl ⟨f, r, hr, rfl⟩
  · rename_i e hr
    split at h
    · cases h
    · rename_i he
      cases h
      exact Or.inr ⟨e, hr, fun heof => by simpa [heof] using he, rfl⟩

theorem step_cases {a : Action} (h : step X E s a = some s') : Step X E s a s' := by
  cases a with
  | serverSend b =>
    simp only [step] at h
    split at h
    · cases h
    · rename_i he
      cases h
      exact .serverSend b (by simpa using he)
  | serverClose => simp only [step, Option.some.injEq] at h; exact h ▸ .serverClose
  | start =>
    simp only [step] at h
    split at h
    · rename_i hpc
      split at h
      · rename_i e hk; cases h; exact .startErr e hpc hk
      · rename_i sk hk; cases h; exact .startOk sk hpc hk
    · cases h
  | read =>
    simp only [step] at h
    split at h
    · rename_i sk hpc
      rcases readWith_cases h with ⟨f, r, hr, rfl⟩ | ⟨e, hr, he, rfl⟩
      · exact .readChallenge sk f r hpc hr
      · exact .readFail _ e (Or.inl ⟨sk, hpc⟩) hr he
    · rename_i hpc
      rcases readWith_cases h with ⟨f, r, hr, rfl⟩ | ⟨e, hr, he, rfl⟩
      · exact .readResult f r hpc hr
      · exact .readFail _ e (Or.inr (Or.inl hpc)) hr he
    · rename_i hpc
      rcases readWith_cases h with ⟨f, r, hr, rfl⟩ | ⟨e, hr, he, rfl⟩
      · exact .readReply _ f r hpc hr
      · exact .readFail _ e (Or.inr (Or.inr hpc)) hr he
    · cases h
  | readBroken n e =>
    simp only [step] at h
    split at h
    · rename_i hpc
      rcases readWith_cases h with ⟨f, r, hr, rfl⟩ | ⟨e', hr, he, rfl⟩
      · rcases handleReplyBroken_cases X n e ({ s with inbuf := r }.emit (.read f)) f with heq |
          ⟨o, stdout, held, stderr, hb, heq⟩ <;> rw [heq]
        · exact .readReply _ f r hpc hr
        · exact .readBroken n e f r o stdout held stderr hpc hr ⟨hb.failed, hb.out, hb.err, hb.buffer⟩
      · exact .readFail _ e' (Or.inr (Or.inr hpc)) hr he
    · cases h
  | put n =>
    simp only [step] at h
    split at h
    · rename_i f rest k hpc
      split at h
      · rename_i hn; cases h; exact .put n f rest k hpc hn.1 hn.2
      · cases h
    · cases h
  | flushed =>
    simp only [step] at h
    split at h
    · rename_i f k hpc; cases h; exact .flushed f k hpc
    · cases h
  | ioError e =>
    simp only [step] at h
    split at h
    · rename_i hpc; cases h; exact .ioError e hpc
    · cases h

/-! ## What is signed -/

/-- **A step only adds to the log**; it signs at most the challenge it has just read. -/
theorem log_step {a : Action} (h : step X E s a = some s') : ∃ l, s'.log = s.log ++ l ∧
    ∀ m sig, .signed m sig ∈ l → ∃ sk f nonce sessionId, s.pc = .awaitChallenge sk ∧ l = [.read f, .signed m sig] ∧
      Challenges X f nonce sessionId ∧ m = signingBytes nonce sessionId ∧ sig = signature X sk nonce sessionId := by
  cases step_cases h with
  | serverSend b he => exact ⟨[], by simp, by simp⟩
  | serverClose => exact ⟨[], by simp, by simp⟩
  | startOk sk hpc hk => exact ⟨[], by simp, by simp⟩
  | startErr e hpc hk => exact ⟨[], by simp, by simp⟩
  | readChallenge sk f r hpc hr =>
    rcases answerChallenge_cases X sk ({ s with inbuf := r }.emit (.read f)) f with ⟨nonce, sid, hch, heq⟩ | ⟨t, heq⟩
    · refine ⟨[.read f, .signed (signingBytes nonce sid) (signature X sk nonce sid)], by simp [heq], ?_⟩
      intro m sig hm
      simp only [List.mem_cons, reduceCtorEq, Event.signed.injEq, List.not_mem_nil, or_false, false_or] at hm
      exact ⟨sk, f, nonce, sid, hpc, by rw [hm.1, hm.2], hch, hm.1, hm.2⟩
    · exact ⟨[.read f], by simp [heq], by simp⟩
  | readResult f r hpc hr =>
    refine ⟨[.read f], ?_, by simp⟩
    rcases handleResult_cases X E.shellLine ({ s with inbuf := r }.emit (.read f)) f with ⟨ar, -, -, -, heq⟩ | ⟨t, heq⟩
    · simp [heq]
    · simp [heq]
  | readReply a f r hpc hr => exact ⟨[.read f], by simp, by simp⟩
  | readBroken n e f r o stdout held stderr hpc hr hb => exact ⟨[.read f], rfl, by simp⟩
  | readFail e hpc hr he => exact ⟨[], by simp, by simp⟩
  | put n f rest k hpc h0 hn => exact ⟨[], by simp, by simp⟩
  | flushed f k hpc => exact ⟨[.wrote f], by cases k <;> rfl, by simp⟩
  | ioError e hpc => exact ⟨[], by simp, by simp⟩

/-- The signatures of a run: each is of a challenge that was read, with the key of the run. -/
structure SignedInv (X : Ext) (E : Env) (s : State) : Prop where
  key : ∀ sk, s.pc = .awaitChallenge sk → E.signingKey = .ok sk
  signed : ∀ m sig, .signed m sig ∈ s.log → ∃ sk f nonce sessionId, E.signingKey = .ok sk ∧ .read f ∈ s.log ∧
    Challenges X f nonce sessionId ∧ m = signingBytes nonce sessionId ∧ sig = signature X sk nonce sessionId

theorem signedInv_init : SignedInv X E init := ⟨fun sk h => (by cases h), fun m sig h => (by cases h)⟩

theorem beginWrite_pc_ne {f : Frame} {k : Cont} {sk : ByteArr 32} : (s.beginWrite f k).pc ≠ .awaitChallenge sk := by
  rcases beginWrite_cases s f k with ⟨-, h⟩ | ⟨text, h⟩ <;> rw [h] <;> intro hc <;> cases hc

/-- Only `start` leads to the wait for the challenge. -/
theorem awaitChallenge_step {a : Action} (h : step X E s a = some s') {sk : ByteArr 32}
    (hpc' : s'.pc = .awaitChallenge sk) : s.pc = .awaitChallenge sk ∨ E.signingKey = .ok sk := by
  cases step_cases h with
  | serverSend b he => exact Or.inl hpc'
  | serverClose => exact Or.inl hpc'
  | startOk sk' hpc hk => cases hpc'; exact Or.inr hk
  | startErr e hpc hk => cases hpc'
  | readChallenge sk' f r hpc hr =>
    rcases answerChallenge_cases X sk' ({ s with inbuf := r }.emit (.read f)) f with ⟨_, _, -, heq⟩ | ⟨t, heq⟩
    · rw [heq] at hpc'; exact absurd hpc' beginWrite_pc_ne
    · rw [heq] at hpc'; cases hpc'
  | readResult f r hpc hr =>
    rcases handleResult_cases X E.shellLine ({ s with inbuf := r }.emit (.read f)) f with ⟨_, -, -, -, heq⟩ | ⟨t, heq⟩
    · rw [heq] at hpc'; exact absurd hpc' beginWrite_pc_ne
    · rw [heq] at hpc'; cases hpc'
  | readReply a f r hpc hr =>
    rcases handleReply_cases X ({ s with inbuf := r }.emit (.read f)) f with ⟨_, -, -, heq⟩ | ⟨_, -, heq⟩ | ⟨t, heq⟩
    · rw [heq] at hpc'; cases hpc'
    · rw [heq] at hpc'; cases hpc'
    · rw [heq] at hpc'; cases hpc'
  | readBroken n e f r o stdout held stderr hpc hr hb => cases hpc'
  | readFail e hpc hr he => cases hpc'
  | put n f rest k hpc h0 hn => cases hpc'
  | flushed f k hpc => cases k <;> cases hpc'
  | ioError e hpc => cases hpc'

theorem signedInv_step {a : Action} (hi : SignedInv X E s) (h : step X E s a = some s') : SignedInv X E s' := by
  obtain ⟨l, hl, hsigned⟩ := log_step h
  constructor
  · intro sk hpc
    rcases awaitChallenge_step h hpc with hpc | hk
    · exact hi.key sk hpc
    · exact hk
  · intro m sig hm
    rw [hl, List.mem_append] at hm
    rcases hm with hm | hm
    · obtain ⟨sk, f, nonce, sid, hk, hf, hch⟩ := hi.signed m sig hm
      exact ⟨sk, f, nonce, sid, hk, hl ▸ List.mem_append_left _ hf, hch⟩
    · obtain ⟨sk, f, nonce, sid, hpc, hf, hch⟩ := hsigned m sig hm
      have hread : .read f ∈ l := by simp [hf]
      exact ⟨sk, f, nonce, sid, hi.key sk hpc, hl ▸ List.mem_append_right _ hread, hch⟩

theorem signedInv_run {as : List Action} (h : run X E init as = some s) : SignedInv X E s :=
  Lts.run_inv (SignedInv X E) (fun _ _ _ hi hs => signedInv_step hi hs) signedInv_init h

/-! ## An answered challenge -/

/-- A response is never too long. -/
theorem authResponse_fits (X : Ext) (sk : ByteArr 32) (nonce : Bytes) (sessionId : Str) :
    (authResponse X sk nonce sessionId).Fits DEFAULT_MAX_PAYLOAD_LEN := by
  have hmax : DEFAULT_MAX_PAYLOAD_LEN.toNat = 1048576 := by decide
  have hfp : (ed25519FingerprintHex X (X.verifyingKey sk)).length = 64 := by
    rw [ed25519FingerprintHex, Text.length_hexEncode, (X.sha256 _).2]
  have hsig : (Base64.encode (signature X sk nonce sessionId).1).length = 88 := by
    rw [Base64.length_encode, (signature X sk nonce sessionId).2]
  have hlen := Json.length_toVec_le (o := authResponseJson (ed25519FingerprintHex X (X.verifyingKey sk)) KEY_TYPE_ED25519
    (Base64.encode (signature X sk nonce sessionId).1)) (n := 88) <| by
      simp only [authResponseJson, List.mem_cons, List.not_mem_nil, or_false, forall_eq_or_imp, forall_eq]
      exact ⟨⟨by decide, _, rfl, by omega⟩, ⟨by decide, _, rfl, by decide⟩, by decide, _, rfl, by omega⟩
  unfold Frame.Fits
  rw [hmax]
  exact hlen.trans (by simp [authResponseJson])

theorem run_cons_eq {a : Action} {m : State} (h : step X E s a = some m) (as : List Action) :
    run X E s (a :: as) = run X E m as := by
  unfold run
  rw [Lts.run, h]

/-- A whole frame is written and flushed. -/
theorem run_write {f : Frame} {k : Cont} (hpc : s.pc = .write f (encode f) k) (as : List Action) :
    run X E s (.put (encode f).length :: .flushed :: as) =
      run X E (afterWrite { s with out := s.out ++ encode f, pc := .write f [] k } f k) as := by
  have hput : step X E s (.put (encode f).length) = some { s with out := s.out ++ encode f, pc := .write f [] k } := by
    simp only [step, hpc]
    rw [if_pos ⟨by rw [length_encode]; omega, Nat.le_refl _⟩, List.take_length, List.drop_length]
  rw [run_cons_eq hput, run_cons_eq (by rfl)]

theorem readWith_frame {f : Frame} {r : Bytes} (hf : f.Fits DEFAULT_MAX_PAYLOAD_LEN) (hin : s.inbuf = encode f ++ r)
    (handle : State → Frame → State) : readWith s handle = some (handle ({ s with inbuf := r }.emit (.read f)) f) := by
  unfold readWith
  rw [hin, readFrame_encode hf]

theorem step_readChallenge {sk : ByteArr 32} {f : Frame} {r : Bytes} (hpc : s.pc = .awaitChallenge sk)
    (hf : f.Fits DEFAULT_MAX_PAYLOAD_LEN) (hin : s.inbuf = encode f ++ r) :
    step X E s .read = some (answerChallenge X sk ({ s with inbuf := r }.emit (.read f)) f) := by
  have hread : step X E s .read = readWith s (answerChallenge X sk) := by simp only [step, hpc]
  exact hread.trans (readWith_frame hf hin _)

theorem step_readResult {f : Frame} {r : Bytes} (hpc : s.pc = .awaitResult) (hf : f.Fits DEFAULT_MAX_PAYLOAD_LEN)
    (hin : s.inbuf = encode f ++ r) :
    step X E s .read = some (handleResult X E.shellLine ({ s with inbuf := r }.emit (.read f)) f) := by
  have hread : step X E s .read = readWith s (handleResult X E.shellLine) := by simp only [step, hpc]
  exact hread.trans (readWith_frame hf hin _)

theorem step_readReply {f : Frame} {r : Bytes} (hpc : s.pc = .replies) (hf : f.Fits DEFAULT_MAX_PAYLOAD_LEN)
    (hin : s.inbuf = encode f ++ r) :
    step X E s .read = some (handleReply X ({ s with inbuf := r }.emit (.read f)) f) := by
  have hread : step X E s .read = readWith s (handleReply X) := by simp only [step, hpc]
  exact hread.trans (readWith_frame hf hin _)

/-- A result that says `ok` makes the client ask. -/
theorem handleResult_eq {shellLine : Str} {f : Frame} {ar : AuthResult} (hmt : f.msgType = AUTH_RESULT)
    (har : X.authResult f.payload = .ok ar) (hok : ar.ok = true) (s : State) :
    handleResult X shellLine s f = s.beginWrite (execShell shellLine) .replies := by
  simp only [handleResult, hmt, har, hok, ne_eq, not_true_eq_false, if_false, if_true]

/-- A client that is sent a challenge signs and answers it. -/
theorem run_challenged {sk : ByteArr 32} {ch : Frame} {nonce : Bytes} {sid : Str} (hk : E.signingKey = .ok sk)
    (hch : Challenges X ch nonce sid) (hf : ch.Fits DEFAULT_MAX_PAYLOAD_LEN) (r : Bytes) :
    ∃ u, run X E init [.serverSend (encode ch ++ r), .start, .read,
        .put (encode (authResponse X sk nonce sid)).length, .flushed] = some u ∧ u.pc = .awaitResult ∧
      u.received = encode ch ++ r ∧ u.inbuf = r ∧ u.out = encode (authResponse X sk nonce sid) ∧
      u.log = [.read ch, .signed (signingBytes nonce sid) (signature X sk nonce sid),
        .wrote (authResponse X sk nonce sid)] := by
  have hsend : step X E init (.serverSend (encode ch ++ r)) =
      some { init with received := encode ch ++ r, inbuf := encode ch ++ r } := rfl
  have hstart : step X E { init with received := encode ch ++ r, inbuf := encode ch ++ r } .start =
      some { init with received := encode ch ++ r, inbuf := encode ch ++ r, pc := .awaitChallenge sk } := by
    simp only [step, init, hk]
  have hread : step X E { init with received := encode ch ++ r, inbuf := encode ch ++ r, pc := .awaitChallenge sk }
      .read = some (answerChallenge X sk
        ({ init with received := encode ch ++ r, inbuf := r, pc := .awaitChallenge sk }.emit (.read ch)) ch) :=
    step_readChallenge rfl hf rfl
  rw [run_cons_eq hsend, run_cons_eq hstart, run_cons_eq hread, answerChallenge_eq hch,
    beginWrite_fits (authResponse_fits X sk nonce sid), run_write rfl]
  exact ⟨_, rfl, rfl, rfl, rfl, rfl, rfl⟩

end Sao.ClientSession
