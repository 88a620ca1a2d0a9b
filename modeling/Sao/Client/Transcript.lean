import Sao.Client.Steps

/-!
# How a client run and what it has read hang together

* `Talk` — the course of a client run by its frames: the challenge, the result, the stream frames, and
  the frame it exits with; with what the client has put on its own stream, its standard output and
  its standard error so far.
* `told_run` — it holds in every state reached.
* `file_run` — what the last flush of the standard output may lose.
* `signed_first` — a run signs the first frame it has read, and no other.
* `run_own_length`, `quiet_enabled` — no client goes on for ever on the bytes it has received, and one
  that is not waiting for its peer can go on until it is done.
-/

namespace Sao.ClientSession

open MsgType State

variable {X : Ext} {E : Env} {s s' : State}

/-! ## Frames -/

def Event.frame? : Event → Option Frame
  | .read f => some f
  | _ => none

/-- The frames read, in order. -/
def readsOf (log : List Event) : List Frame := log.filterMap Event.frame?

@[simp] theorem readsOf_append (l m : List Event) : readsOf (l ++ m) = readsOf l ++ readsOf m := List.filterMap_append

@[simp] theorem readsOf_nil : readsOf [] = [] := rfl
@[simp] theorem readsOf_read (f : Frame) (l : List Event) : readsOf (.read f :: l) = f :: readsOf l := rfl
@[simp] theorem readsOf_wrote (f : Frame) (l : List Event) : readsOf (.wrote f :: l) = readsOf l := rfl
@[simp] theorem readsOf_signed (m : Bytes) (sig : ByteArr 64) (l : List Event) :
    readsOf (.signed m sig :: l) = readsOf l := rfl

/-- `resp` is how the client responds to the challenge `ch`. -/
def Responds (X : Ext) (E : Env) (ch resp : Frame) : Prop :=
  ∃ sk nonce sessionId, E.signingKey = .ok sk ∧ Challenges X ch nonce sessionId ∧
    resp = authResponse X sk nonce sessionId

/-- `AUTH_RESULT` with `ok`. -/
def Grants (X : Ext) (f : Frame) : Prop :=
  f.msgType = AUTH_RESULT ∧ ∃ ar, X.authResult f.payload = .ok ar ∧ ar.ok = true

/-- A stream frame whose data decodes. -/
def Streams (X : Ext) (f : Frame) : Prop :=
  (f.msgType = STREAM_STDOUT ∨ f.msgType = STREAM_STDERR) ∧ ∃ raw, streamBytes X f = .ok raw

/-- What the stream frames of one type carry. -/
def carried (X : Ext) (t : UInt8) (fs : List Frame) : Bytes :=
  (fs.filter (·.msgType = t)).flatMap fun f => (streamBytes X f).toOption.getD []

theorem carried_snoc (X : Ext) (t : UInt8) (fs : List Frame) {f : Frame} {raw : Bytes} (h : streamBytes X f = .ok raw) :
    carried X t (fs ++ [f]) = carried X t fs ++ if f.msgType = t then raw else [] := by
  unfold carried
  rw [List.filter_append, List.flatMap_append]
  by_cases ht : f.msgType = t
  · simp [ht, h, Except.toOption]
  · simp [ht]

/-- Data goes to the standard stream its type names. -/
theorem writeStd_streams (s : State) {t : UInt8} (ht : t = STREAM_STDOUT ∨ t = STREAM_STDERR) (raw : Bytes) :
    s.writeStd t raw = { s with
      stdout := s.stdout ++ if t = STREAM_STDOUT then raw else []
      held := if t = STREAM_STDOUT then LineWriter.keep 0x0A STDOUT_CAPACITY s.held raw else s.held
      stderr := s.stderr ++ if t = STREAM_STDERR then raw else [] } := by
  unfold State.writeStd
  rcases ht with rfl | rfl <;> simp [STREAM_STDOUT, STREAM_STDERR]

/-! ## The course of a run -/

/-- What the client has put on the stream is a part of its response, and of its request only behind a
result that says `ok`. -/
def Cautious (X : Ext) (E : Env) (reads : List Frame) (out : Bytes) : Prop :=
  out = [] ∨ ∃ ch resp more, Responds X E ch resp ∧ reads = ch :: more ∧
    (out <+: encode resp ∨ ∃ res more', more = res :: more' ∧ Grants X res ∧
      out <+: encode resp ++ encode (execShell E.shellLine))

/-- How far the client has got: frames read, bytes put on the stream, standard output and error. -/
inductive Talk (X : Ext) (E : Env) : Pc → List Frame → Bytes → Bytes → Bytes → Prop where
  | start : Talk X E .start [] [] [] []
  | opening {sk : ByteArr 32} (hk : E.signingKey = .ok sk) : Talk X E (.awaitChallenge sk) [] [] [] []
  | responding {ch resp : Frame} {out rest : Bytes} (h : Responds X E ch resp) (ho : out ++ rest = encode resp) :
      Talk X E (.write resp rest .awaitResult) [ch] out [] []
  | responded {ch resp : Frame} (h : Responds X E ch resp) : Talk X E .awaitResult [ch] (encode resp) [] []
  | requesting {ch resp res : Frame} {out rest : Bytes} (h : Responds X E ch resp) (hg : Grants X res)
      (hq : (execShell E.shellLine).Fits DEFAULT_MAX_PAYLOAD_LEN)
      (ho : out ++ rest = encode resp ++ encode (execShell E.shellLine)) :
      Talk X E (.write (execShell E.shellLine) rest .replies) [ch, res] out [] []
  | replies {ch resp res : Frame} {outs : List Frame} (h : Responds X E ch resp) (hg : Grants X res)
      (hq : (execShell E.shellLine).Fits DEFAULT_MAX_PAYLOAD_LEN) (hs : ∀ f ∈ outs, Streams X f) :
      Talk X E .replies (ch :: res :: outs) (encode resp ++ encode (execShell E.shellLine))
        (carried X STREAM_STDOUT outs) (carried X STREAM_STDERR outs)
  | exited {ch resp res last : Frame} {outs : List Frame} {code : Int32} (h : Responds X E ch resp) (hg : Grants X res)
      (hq : (execShell E.shellLine).Fits DEFAULT_MAX_PAYLOAD_LEN) (hs : ∀ f ∈ outs, Streams X f) (hlast : exitOf X last = some code) :
      Talk X E (.done (.exit code)) (ch :: res :: (outs ++ [last]))
        (encode resp ++ encode (execShell E.shellLine)) (carried X STREAM_STDOUT outs)
        (carried X STREAM_STDERR outs ++ printed X last)
  | failed {o : Outcome} {reads : List Frame} {out stdout stderr : Bytes} (ho : o.Failed) (h : Cautious X E reads out) :
      Talk X E (.done o) reads out stdout stderr

/-- The run, the stream it has read from, and its course. -/
structure Told (X : Ext) (E : Env) (s : State) : Prop where
  stream : s.received = encodeAll (readsOf s.log) ++ s.inbuf
  fits : ∀ f ∈ readsOf s.log, f.Fits DEFAULT_MAX_PAYLOAD_LEN
  talk : Talk X E s.pc (readsOf s.log) s.out s.stdout s.stderr

theorem told_init : Told X E init := ⟨rfl, fun f hf => (by cases hf), .start⟩

/-- A client never asks before it is let in. -/
theorem Talk.cautious {pc : Pc} {reads : List Frame} {out stdout stderr : Bytes}
    (h : Talk X E pc reads out stdout stderr) : Cautious X E reads out := by
  cases h with
  | start => exact Or.inl rfl
  | opening hk => exact Or.inl rfl
  | responding h ho => exact Or.inr ⟨_, _, _, h, rfl, Or.inl ⟨_, ho⟩⟩
  | responded h => exact Or.inr ⟨_, _, _, h, rfl, Or.inl (List.prefix_refl _)⟩
  | requesting h hg hq ho => exact Or.inr ⟨_, _, _, h, rfl, Or.inr ⟨_, _, rfl, hg, _, ho⟩⟩
  | replies h hg hq hs => exact Or.inr ⟨_, _, _, h, rfl, Or.inr ⟨_, _, rfl, hg, List.prefix_refl _⟩⟩
  | exited h hg hq hs hlast => exact Or.inr ⟨_, _, _, h, rfl, Or.inr ⟨_, _, rfl, hg, List.prefix_refl _⟩⟩
  | failed ho h => exact h

/-- What is still to be put on the stream of the frame being written. -/
def Pc.rest : Pc → Bytes
  | .write _ rest _ => rest
  | _ => []

/-- What a client has begun to write that has not failed. -/
theorem Talk.begun {pc : Pc} {reads : List Frame} {out stdout stderr : Bytes}
    (h : Talk X E pc reads out stdout stderr) (hok : ∀ o, pc = .done o → ¬ o.Failed) :
    (reads = [] ∧ out ++ pc.rest = []) ∨ ∃ ch resp more, reads = ch :: more ∧ Responds X E ch resp ∧
      (out ++ pc.rest = encode resp ∨ out ++ pc.rest = encode resp ++ encode (execShell E.shellLine)) := by
  cases h with
  | start => exact Or.inl ⟨rfl, rfl⟩
  | opening hk => exact Or.inl ⟨rfl, rfl⟩
  | responding h ho => exact Or.inr ⟨_, _, _, rfl, h, Or.inl ho⟩
  | responded h => exact Or.inr ⟨_, _, _, rfl, h, Or.inl (List.append_nil _)⟩
  | requesting h hg hq ho => exact Or.inr ⟨_, _, _, rfl, h, Or.inr ho⟩
  | replies h hg hq hs => exact Or.inr ⟨_, _, _, rfl, h, Or.inr (List.append_nil _)⟩
  | exited h hg hq hs hlast => exact Or.inr ⟨_, _, _, rfl, h, Or.inr (List.append_nil _)⟩
  | failed ho h => exact absurd ho (hok _ rfl)

/-- Without stream frames nothing is written. -/
theorem Talk.stdout_nil {pc : Pc} {reads : List Frame} {out stdout stderr : Bytes}
    (h : Talk X E pc reads out stdout stderr) (hok : ∀ o, pc = .done o → ¬ o.Failed)
    (hreads : ∀ f ∈ reads.drop 2, ¬ Streams X f) : stdout = [] := by
  cases h with
  | @replies _ _ _ outs h hg hq hs =>
    have hnil : outs = [] := List.eq_nil_iff_forall_not_mem.2 fun f hf => hreads f hf (hs f hf)
    rw [hnil]
    rfl
  | @exited _ _ _ _ outs _ h hg hq hs hlast =>
    have hnil : outs = [] :=
      List.eq_nil_iff_forall_not_mem.2 fun f hf => hreads f (List.mem_append_left _ hf) (hs f hf)
    rw [hnil]
    rfl
  | failed ho h => exact absurd ho (hok _ rfl)
  | _ => rfl

theorem Cautious.read {reads : List Frame} {out : Bytes} (h : Cautious X E reads out) (f : Frame) :
    Cautious X E (reads ++ [f]) out := by
  rcases h with h | ⟨ch, resp, more, hr, rfl, h⟩
  · exact Or.inl h
  · refine Or.inr ⟨ch, resp, more ++ [f], hr, rfl, h.imp_right ?_⟩
    rintro ⟨res, more', rfl, hg, ho⟩
    exact ⟨res, more' ++ [f], rfl, hg, ho⟩

section Inversion

variable {reads : List Frame} {out stdout stderr rest : Bytes} {f : Frame} {sk : ByteArr 32}

theorem Talk.of_start (h : Talk X E .start reads out stdout stderr) :
    reads = [] ∧ out = [] ∧ stdout = [] ∧ stderr = [] := by
  cases h with
  | start => exact ⟨rfl, rfl, rfl, rfl⟩

theorem Talk.of_awaitChallenge (h : Talk X E (.awaitChallenge sk) reads out stdout stderr) :
    E.signingKey = .ok sk ∧ reads = [] ∧ out = [] ∧ stdout = [] ∧ stderr = [] := by
  cases h with
  | opening hk => exact ⟨hk, rfl, rfl, rfl, rfl⟩

theorem Talk.of_responding (h : Talk X E (.write f rest .awaitResult) reads out stdout stderr) :
    ∃ ch, Responds X E ch f ∧ reads = [ch] ∧ out ++ rest = encode f ∧ stdout = [] ∧ stderr = [] := by
  cases h with
  | responding h ho => exact ⟨_, h, rfl, ho, rfl, rfl⟩

theorem Talk.of_awaitResult (h : Talk X E .awaitResult reads out stdout stderr) :
    ∃ ch resp, Responds X E ch resp ∧ reads = [ch] ∧ out = encode resp ∧ stdout = [] ∧ stderr = [] := by
  cases h with
  | responded h => exact ⟨_, _, h, rfl, rfl, rfl, rfl⟩

theorem Talk.of_requesting (h : Talk X E (.write f rest .replies) reads out stdout stderr) :
    ∃ ch resp res, Responds X E ch resp ∧ Grants X res ∧ (execShell E.shellLine).Fits DEFAULT_MAX_PAYLOAD_LEN ∧
      f = execShell E.shellLine ∧ reads = [ch, res] ∧
      out ++ rest = encode resp ++ encode (execShell E.shellLine) ∧ stdout = [] ∧ stderr = [] := by
  cases h with
  | requesting h hg hq ho => exact ⟨_, _, _, h, hg, hq, rfl, rfl, ho, rfl, rfl⟩

theorem Talk.of_replies (h : Talk X E .replies reads out stdout stderr) :
    ∃ ch resp res outs, Responds X E ch resp ∧ Grants X res ∧
      (execShell E.shellLine).Fits DEFAULT_MAX_PAYLOAD_LEN ∧ (∀ g ∈ outs, Streams X g) ∧ reads = ch :: res :: outs ∧
      out = encode resp ++ encode (execShell E.shellLine) ∧ stdout = carried X STREAM_STDOUT outs ∧
      stderr = carried X STREAM_STDERR outs := by
  cases h with
  | replies h hg hq hs => exact ⟨_, _, _, _, h, hg, hq, hs, rfl, rfl, rfl, rfl⟩

theorem Talk.of_exited {code : Int32} (h : Talk X E (.done (.exit code)) reads out stdout stderr) :
    ∃ ch resp res outs last, Responds X E ch resp ∧ Grants X res ∧
      (execShell E.shellLine).Fits DEFAULT_MAX_PAYLOAD_LEN ∧ (∀ g ∈ outs, Streams X g) ∧
      exitOf X last = some code ∧ reads = ch :: res :: (outs ++ [last]) ∧
      out = encode resp ++ encode (execShell E.shellLine) ∧ stdout = carried X STREAM_STDOUT outs ∧
      stderr = carried X STREAM_STDERR outs ++ printed X last := by
  cases h with
  | exited h hg hq hs hlast => exact ⟨_, _, _, _, _, h, hg, hq, hs, hlast, rfl, rfl, rfl, rfl⟩
  | failed ho h => exact ho.elim

end Inversion

/-! ## One step -/

/-- A frame has been read from the stream, and the run stands where its course says. -/
theorem Told.read (h : Told X E s) {f : Frame} {r : Bytes} (hr : readFrame DEFAULT_MAX_PAYLOAD_LEN s.inbuf = .ok (f, r))
    (hrec : s'.received = s.received) (hin : s'.inbuf = r) (hlog : readsOf s'.log = readsOf s.log ++ [f])
    (ht : Talk X E s'.pc (readsOf s.log ++ [f]) s'.out s'.stdout s'.stderr) : Told X E s' := by
  obtain ⟨hf, hbuf⟩ := readFrame_ok_iff.1 hr
  refine ⟨?_, fun g hg => ?_, hlog ▸ ht⟩
  · rw [hrec, hin, hlog, h.stream, hbuf, encodeAll_append, List.append_assoc]
    simp
  · rw [hlog] at hg
    rcases List.mem_append.1 hg with hg | hg
    · exact h.fits g hg
    · rw [List.mem_singleton.1 hg]
      exact hf

theorem told_fail (h : Told X E s) (text : Str) : Told X E (s.fail text) :=
  ⟨h.stream, h.fits, .failed trivial h.talk.cautious⟩

section Read

variable {f : Frame} {r : Bytes} (h : Told X E s) (hr : readFrame DEFAULT_MAX_PAYLOAD_LEN s.inbuf = .ok (f, r))
include h hr

/-- The frame that was read ends the run. -/
theorem Told.readFailed {o : Outcome} (ho : o.Failed) (stdout held stderr : Bytes) :
    Told X E { ({ s with inbuf := r }.emit (.read f)) with stdout, held, stderr, pc := .done o } :=
  h.read hr rfl rfl (by simp [emit]) (.failed ho (h.talk.cautious.read f))

theorem told_readChallenge {sk : ByteArr 32} (hpc : s.pc = .awaitChallenge sk) :
    Told X E (answerChallenge X sk ({ s with inbuf := r }.emit (.read f)) f) := by
  obtain ⟨hk, hreads, ho, h1, h2⟩ := Talk.of_awaitChallenge (hpc ▸ h.talk)
  rcases answerChallenge_cases X sk ({ s with inbuf := r }.emit (.read f)) f with ⟨nonce, sid, hch, heq⟩ | ⟨t, heq⟩ <;>
    rw [heq]
  · rw [beginWrite_fits (authResponse_fits X sk nonce sid)]
    refine h.read hr rfl rfl (by simp [emit]) ?_
    simp only [emit, hreads, ho, h1, h2]
    exact .responding ⟨sk, nonce, sid, hk, hch, rfl⟩ rfl
  · exact h.readFailed hr (o := .err t) trivial s.stdout s.held s.stderr

theorem told_readResult (hpc : s.pc = .awaitResult) :
    Told X E (handleResult X E.shellLine ({ s with inbuf := r }.emit (.read f)) f) := by
  obtain ⟨ch, resp, hresp, hreads, ho, h1, h2⟩ := Talk.of_awaitResult (hpc ▸ h.talk)
  rcases handleResult_cases X E.shellLine ({ s with inbuf := r }.emit (.read f)) f with ⟨ar, hmt, har, hok, heq⟩ | ⟨t, heq⟩ <;>
    rw [heq]
  · rcases beginWrite_cases ({ s with inbuf := r }.emit (.read f)) (execShell E.shellLine) .replies with ⟨hq, hw⟩ | ⟨t, hw⟩ <;>
      rw [hw]
    · refine h.read hr rfl rfl (by simp [emit]) ?_
      simp only [emit, hreads, ho, h1, h2]
      exact .requesting hresp ⟨hmt, ar, har, hok⟩ hq rfl
    · exact h.readFailed hr (o := .err t) trivial s.stdout s.held s.stderr
  · exact h.readFailed hr (o := .err t) trivial s.stdout s.held s.stderr

theorem told_exited (hpc : s.pc = .replies) {code : Int32} (hlast : exitOf X f = some code) :
    Told X E { ({ s with inbuf := r }.emit (.read f)) with
      stderr := s.stderr ++ printed X f, pc := .done (.exit code) } := by
  obtain ⟨ch, resp, res, outs, hresp, hg, hq, hs, hreads, ho, h1, h2⟩ := Talk.of_replies (hpc ▸ h.talk)
  refine h.read hr rfl rfl (by simp [emit]) ?_
  simp only [emit, hreads, ho, h1, h2]
  exact .exited hresp hg hq hs hlast

theorem told_readReply (hpc : s.pc = .replies) : Told X E (handleReply X ({ s with inbuf := r }.emit (.read f)) f) := by
  rcases handleReply_cases X ({ s with inbuf := r }.emit (.read f)) f with ⟨raw, hmt, hraw, heq⟩ | ⟨code, hlast, heq⟩ |
    ⟨t, heq⟩ <;> rw [heq]
  · obtain ⟨ch, resp, res, outs, hresp, hg, hq, hs, hreads, ho, h1, h2⟩ := Talk.of_replies (hpc ▸ h.talk)
    rw [writeStd_streams _ hmt]
    refine h.read hr rfl rfl (by simp [emit]) ?_
    simp only [emit, hreads, ho, h1, h2, ← carried_snoc X _ _ hraw]
    refine .replies hresp hg hq fun g hg' => ?_
    rcases List.mem_append.1 hg' with hg' | hg'
    · exact hs g hg'
    · rw [List.mem_singleton.1 hg']
      exact ⟨hmt, raw, hraw⟩
  · exact told_exited h hr hpc hlast
  · exact h.readFailed hr (o := .err t) trivial s.stdout s.held s.stderr

end Read

theorem told_flushed (h : Told X E s) {f : Frame} {k : Cont} (hpc : s.pc = .write f [] k) :
    Told X E (afterWrite s f k) := by
  have ht := h.talk
  rw [hpc] at ht
  cases k with
  | awaitResult =>
    obtain ⟨ch, hresp, hreads, ho, h1, h2⟩ := ht.of_responding
    refine ⟨by simpa [afterWrite, emit] using h.stream, by simpa [afterWrite, emit] using h.fits, ?_⟩
    simp only [afterWrite, emit, readsOf_append, readsOf_wrote, readsOf_nil, List.append_nil, hreads, h1, h2]
    rw [List.append_nil] at ho
    rw [ho]
    exact .responded hresp
  | replies =>
    obtain ⟨ch, resp, res, hresp, hg, hq, rfl, hreads, ho, h1, h2⟩ := ht.of_requesting
    refine ⟨by simpa [afterWrite, emit] using h.stream, by simpa [afterWrite, emit] using h.fits, ?_⟩
    simp only [afterWrite, emit, readsOf_append, readsOf_wrote, readsOf_nil, List.append_nil, hreads, h1, h2]
    rw [List.append_nil] at ho
    rw [ho]
    have hnone : ∀ g ∈ ([] : List Frame), Streams X g := fun g hg' => (by cases hg')
    exact .replies hresp hg hq hnone

theorem told_put (h : Told X E s) {f : Frame} {rest : Bytes} {k : Cont} (hpc : s.pc = .write f rest k) (n : Nat) :
    Told X E { s with out := s.out ++ rest.take n, pc := .write f (rest.drop n) k } := by
  have ht := h.talk
  rw [hpc] at ht
  refine ⟨h.stream, h.fits, ?_⟩
  have hsplit : (s.out ++ rest.take n) ++ rest.drop n = s.out ++ rest := by
    rw [List.append_assoc, List.take_append_drop]
  cases k with
  | awaitResult =>
    obtain ⟨ch, hresp, hreads, ho, h1, h2⟩ := ht.of_responding
    simp only [hreads, h1, h2]
    exact .responding hresp (hsplit.trans ho)
  | replies =>
    obtain ⟨ch, resp, res, hresp, hg, hq, rfl, hreads, ho, h1, h2⟩ := ht.of_requesting
    simp only [hreads, h1, h2]
    exact .requesting hresp hg hq (hsplit.trans ho)

theorem told_step {a : Action} (h : Told X E s) (hs : step X E s a = some s') : Told X E s' := by
  cases step_cases hs with
  | serverSend b he => exact ⟨by simp only [h.stream, List.append_assoc], h.fits, h.talk⟩
  | serverClose => exact ⟨h.stream, h.fits, h.talk⟩
  | startOk sk hpc hk =>
    obtain ⟨hreads, ho, h1, h2⟩ := Talk.of_start (hpc ▸ h.talk)
    refine ⟨h.stream, h.fits, ?_⟩
    simp only [hreads, ho, h1, h2]
    exact .opening hk
  | startErr e hpc hk => exact told_fail h _
  | readChallenge sk f r hpc hr => exact told_readChallenge h hr hpc
  | readResult f r hpc hr => exact told_readResult h hr hpc
  | readReply a f r hpc hr => exact told_readReply h hr hpc
  | readBroken n e f r o stdout held stderr hpc hr hb => exact h.readFailed hr hb.failed stdout held stderr
  | readFail e hpc hr he => exact told_fail h _
  | put n f rest k hpc h0 hn => exact told_put h hpc n
  | flushed f k hpc => exact told_flushed h hpc
  | ioError e hpc => exact told_fail h _

/-- **The course of every run.** -/
theorem told_run {as : List Action} (h : run X E init as = some s) : Told X E s :=
  Lts.run_inv (Told X E) (fun _ _ _ hi hs => told_step hi hs) told_init h

/-! ## The standard output -/

/-- The end of the standard output that is held back. -/
def State.Buffers (s : State) : Prop := LineWriter.Holds 0x0A STDOUT_CAPACITY s.stdout s.held

theorem buffers_init : init.Buffers := LineWriter.holds_nil _

theorem buffers_writeStd (h : s.Buffers) (t : UInt8) (raw : Bytes) : (s.writeStd t raw).Buffers := by
  unfold State.writeStd
  split
  · exact h
  · exact LineWriter.Holds.write h raw

theorem buffers_beginWrite (h : s.Buffers) (f : Frame) (k : Cont) : (s.beginWrite f k).Buffers := by
  rcases beginWrite_cases s f k with ⟨-, heq⟩ | ⟨text, heq⟩ <;> rw [heq] <;> exact h

theorem buffers_step {a : Action} (hi : s.Buffers) (h : step X E s a = some s') : s'.Buffers := by
  cases step_cases h with
  | readChallenge sk f r hpc hr =>
    rcases answerChallenge_cases X sk ({ s with inbuf := r }.emit (.read f)) f with ⟨_, _, -, heq⟩ | ⟨t, heq⟩ <;>
      rw [heq]
    · refine buffers_beginWrite ?_ _ _
      exact hi
    · exact hi
  | readResult f r hpc hr =>
    rcases handleResult_cases X E.shellLine ({ s with inbuf := r }.emit (.read f)) f with ⟨_, -, -, -, heq⟩ | ⟨t, heq⟩ <;>
      rw [heq]
    · refine buffers_beginWrite ?_ _ _
      exact hi
    · exact hi
  | readReply a f r hpc hr =>
    rcases handleReply_cases X ({ s with inbuf := r }.emit (.read f)) f with ⟨raw, -, -, heq⟩ | ⟨code, -, heq⟩ |
      ⟨t, heq⟩ <;> rw [heq]
    · refine buffers_writeStd (s := { s with inbuf := r }.emit (.read f)) ?_ f.msgType raw
      exact hi
    · exact hi
    · exact hi
  | readBroken n e f r o stdout held stderr hpc hr hb =>
    rcases hb.buffer with rfl | ⟨rfl, rfl⟩
    · exact LineWriter.holds_nil _
    · exact hi
  | flushed f k hpc => cases k <;> exact hi
  | _ => exact hi

/-- **What the last flush loses** is within a line and no longer than the buffer. -/
theorem file_run {as : List Action} (h : run X E init as = some s) (n : Nat) :
    ∃ lost, s.stdout = s.file n ++ lost ∧ lost.length ≤ STDOUT_CAPACITY ∧ 0x0A ∉ lost := by
  have hbuffers : s.Buffers := Lts.run_inv State.Buffers (fun _ _ _ hi hs => buffers_step hi hs) buffers_init h
  exact hbuffers.lost n

/-! ## What is signed, and where it came from -/

/-- What a run has signed is the first frame it has read. -/
def SignsFirst (X : Ext) (s : State) : Prop := ∀ m sig, .signed m sig ∈ s.log →
  ∃ ch more nonce sessionId, readsOf s.log = ch :: more ∧ Challenges X ch nonce sessionId ∧
    m = signingBytes nonce sessionId

theorem signsFirst_step {a : Action} (ht : Told X E s) (hi : SignsFirst X s) (h : step X E s a = some s') :
    SignsFirst X s' := by
  obtain ⟨l, hl, hsigned⟩ := log_step h
  intro m sig hm
  rw [hl, List.mem_append] at hm
  rcases hm with hm | hm
  · obtain ⟨ch, more, nonce, sid, hreads, hch, hm⟩ := hi m sig hm
    exact ⟨ch, more ++ readsOf l, nonce, sid, by rw [hl, readsOf_append, hreads, List.cons_append], hch, hm⟩
  · -- before the challenge nothing was read
    obtain ⟨sk, f, nonce, sid, hpc, hf, hch, hm, -⟩ := hsigned m sig hm
    obtain ⟨-, hreads, -⟩ := Talk.of_awaitChallenge (hpc ▸ ht.talk)
    exact ⟨f, [], nonce, sid, by rw [hl, hf, readsOf_append, hreads]; rfl, hch, hm⟩

theorem signed_first {as : List Action} (h : run X E init as = some s) : SignsFirst X s :=
  (Lts.run_inv (fun s => Told X E s ∧ SignsFirst X s)
    (fun _ _ _ hi hs => ⟨told_step hi.1 hs, signsFirst_step hi.1 hi.2 hs⟩)
    ⟨told_init, fun m sig hm => by cases hm⟩ h).2

/-! ## Ending -/

/-- What the client does, not its peer. -/
def Action.Own : Action → Prop
  | .serverSend _ | .serverClose => False
  | _ => True

instance : DecidablePred Action.Own := fun a => by
  cases a <;> first | exact isTrue trivial | exact isFalse id

/-- What the peer sees: the client's own steps only add to the stream. -/
structure Keeps (s s' : State) : Prop where
  received : s'.received = s.received
  eof : s'.eof = s.eof
  out : s.out <+: s'.out

theorem Keeps.of_out (hr : s'.received = s.received) (he : s'.eof = s.eof) (ho : s'.out = s.out) : Keeps s s' :=
  ⟨hr, he, ho ▸ List.prefix_refl _⟩

theorem keeps_beginWrite {t : State} (h : Keeps s t) (f : Frame) (k : Cont) : Keeps s (t.beginWrite f k) := by
  rcases beginWrite_cases t f k with ⟨-, heq⟩ | ⟨text, heq⟩ <;> rw [heq] <;> exact ⟨h.1, h.2, h.3⟩

theorem keeps_step {a : Action} (ha : a.Own) (h : step X E s a = some s') : Keeps s s' := by
  cases step_cases h with
  | serverSend b he => exact ha.elim
  | serverClose => exact ha.elim
  | readChallenge sk f r hpc hr =>
    rcases answerChallenge_cases X sk ({ s with inbuf := r }.emit (.read f)) f with ⟨_, _, -, heq⟩ | ⟨t, heq⟩ <;>
      rw [heq]
    · refine keeps_beginWrite ?_ _ _
      exact .of_out rfl rfl rfl
    · exact .of_out rfl rfl rfl
  | readResult f r hpc hr =>
    rcases handleResult_cases X E.shellLine ({ s with inbuf := r }.emit (.read f)) f with ⟨_, -, -, -, heq⟩ | ⟨t, heq⟩ <;>
      rw [heq]
    · refine keeps_beginWrite ?_ _ _
      exact .of_out rfl rfl rfl
    · exact .of_out rfl rfl rfl
  | readReply a f r hpc hr =>
    rcases handleReply_cases X ({ s with inbuf := r }.emit (.read f)) f with ⟨raw, hmt, -, heq⟩ | ⟨code, -, heq⟩ |
      ⟨t, heq⟩ <;> rw [heq]
    · rw [writeStd_streams _ hmt]
      exact .of_out rfl rfl rfl
    · exact .of_out rfl rfl rfl
    · exact .of_out rfl rfl rfl
  | put n f rest k hpc h0 hn => exact ⟨rfl, rfl, List.prefix_append _ _⟩
  | flushed f k hpc => cases k <;> exact .of_out rfl rfl rfl
  | _ => exact .of_out rfl rfl rfl

/-- A client that is done does nothing more. -/
theorem own_of_done {a : Action} (ha : a.Own) {r : Outcome} (hpc : s.pc = .done r) : step X E s a = none := by
  cases a with
  | serverSend b => exact ha.elim
  | serverClose => exact ha.elim
  | ioError e => simp [step, hpc, Pc.onStream]
  | _ => simp only [step, hpc]

/-- How many steps the client has left at most, if no more bytes arrive. -/
def Pc.remaining : Pc → Nat
  | .start => 2 * MAX_FRAME_LEN + 6
  | .awaitChallenge _ => 2 * MAX_FRAME_LEN + 5
  | .write _ rest .awaitResult => rest.length + MAX_FRAME_LEN + 4
  | .awaitResult => MAX_FRAME_LEN + 3
  | .write _ rest .replies => rest.length + 2
  | .replies => 1
  | .done _ => 0

def State.remaining (s : State) : Nat := s.inbuf.length + s.pc.remaining

/-- What a step of the client's own uses up: the work left, which pays for the bytes it puts on the stream, or
the bytes it has received. -/
structure Uses (s s' : State) : Prop where
  out : s'.pc.remaining + s'.out.length ≤ s.pc.remaining + s.out.length
  pc : s'.pc.remaining ≤ s.pc.remaining
  inbuf : s'.inbuf.length ≤ s.inbuf.length
  either : s'.pc.remaining < s.pc.remaining ∨ s'.inbuf.length < s.inbuf.length

theorem uses_fail (text : Str) (hpc : 0 < s.pc.remaining) : Uses s (s.fail text) :=
  ⟨Nat.add_le_add_right (Nat.zero_le _) _, Nat.zero_le _, Nat.le_refl _, Or.inl hpc⟩

/-- Bytes were read, and the work left is no more. -/
theorem uses_read (hout : s'.out = s.out) (hpc : s'.pc.remaining ≤ s.pc.remaining)
    (hin : s'.inbuf.length < s.inbuf.length) : Uses s s' :=
  ⟨by rw [hout]; omega, hpc, Nat.le_of_lt hin, Or.inr hin⟩

theorem remaining_beginWrite (f : Frame) (k : Cont) : (s.beginWrite f k).out = s.out ∧
    (s.beginWrite f k).inbuf = s.inbuf ∧ (s.beginWrite f k).pc.remaining ≤ match k with
      | .awaitResult => 2 * MAX_FRAME_LEN + 4
      | .replies => MAX_FRAME_LEN + 2 := by
  rcases beginWrite_cases s f k with ⟨hf, heq⟩ | ⟨text, heq⟩ <;> rw [heq]
  · have := length_encode_le hf
    refine ⟨rfl, rfl, ?_⟩
    cases k with
    | awaitResult =>
      simp only [Pc.remaining]
      omega
    | replies =>
      simp only [Pc.remaining]
      omega
  · exact ⟨rfl, rfl, Nat.zero_le _⟩

/-- **Every step of the client's own uses something up.** -/
theorem uses_step {a : Action} (ha : a.Own) (h : step X E s a = some s') : Uses s s' := by
  have hread : ∀ {f : Frame} {r : Bytes}, readFrame DEFAULT_MAX_PAYLOAD_LEN s.inbuf = .ok (f, r) →
      r.length < s.inbuf.length := fun hr => readFrame_length hr
  cases step_cases h with
  | serverSend b he => exact ha.elim
  | serverClose => exact ha.elim
  | startOk sk hpc hk =>
    have hlt : (Pc.awaitChallenge sk).remaining < s.pc.remaining := by
      rw [hpc]
      exact Nat.lt_succ_self _
    exact ⟨Nat.add_le_add_right hlt.le _, hlt.le, Nat.le_refl _, Or.inl hlt⟩
  | startErr e hpc hk => exact uses_fail _ (by rw [hpc]; simp [Pc.remaining])
  | readChallenge sk f r hpc hr =>
    rcases answerChallenge_cases X sk ({ s with inbuf := r }.emit (.read f)) f with ⟨nonce, sid, -, heq⟩ | ⟨t, heq⟩ <;>
      rw [heq]
    · obtain ⟨hout, hin, hle⟩ := remaining_beginWrite
        (s := ({ s with inbuf := r }.emit (.read f)).emit (.signed (signingBytes nonce sid) (signature X sk nonce sid)))
        (authResponse X sk nonce sid) .awaitResult
      refine uses_read hout (hle.trans ?_) (by rw [hin]; exact hread hr)
      rw [hpc]
      exact Nat.le_succ _
    · exact uses_read rfl (Nat.zero_le _) (hread hr)
  | readResult f r hpc hr =>
    rcases handleResult_cases X E.shellLine ({ s with inbuf := r }.emit (.read f)) f with ⟨_, -, -, -, heq⟩ | ⟨t, heq⟩ <;>
      rw [heq]
    · obtain ⟨hout, hin, hle⟩ := remaining_beginWrite (s := { s with inbuf := r }.emit (.read f))
        (execShell E.shellLine) .replies
      refine uses_read hout (hle.trans ?_) (by rw [hin]; exact hread hr)
      rw [hpc]
      exact Nat.le_succ _
    · exact uses_read rfl (Nat.zero_le _) (hread hr)
  | readReply a f r hpc hr =>
    rcases handleReply_cases X ({ s with inbuf := r }.emit (.read f)) f with ⟨raw, hmt, -, heq⟩ | ⟨code, -, heq⟩ |
      ⟨t, heq⟩ <;> rw [heq]
    · rw [writeStd_streams _ hmt]
      exact uses_read rfl (by rw [hpc]) (hread hr)
    · exact uses_read rfl (Nat.zero_le _) (hread hr)
    · exact uses_read rfl (Nat.zero_le _) (hread hr)
  | readBroken n e f r o stdout held stderr hpc hr hb => exact uses_read rfl (Nat.zero_le _) (hread hr)
  | readFail _ e hpc hr he =>
    rcases hpc with ⟨sk, hpc⟩ | hpc | hpc <;> exact uses_fail _ (by rw [hpc]; simp [Pc.remaining])
  | put n f rest k hpc h0 hn =>
    have hdrop : (rest.drop n).length = rest.length - n := List.length_drop
    have htake : (rest.take n).length = n := by rw [List.length_take, Nat.min_eq_left hn]
    have hsum : (Pc.write f (rest.drop n) k).remaining + n = s.pc.remaining := by
      rw [hpc]
      cases k <;> simp only [Pc.remaining] <;> omega
    have hlt' : (Pc.write f (rest.drop n) k).remaining < s.pc.remaining := by omega
    refine ⟨?_, hlt'.le, Nat.le_refl _, Or.inl hlt'⟩
    show (Pc.write f (rest.drop n) k).remaining + (s.out ++ rest.take n).length ≤ _
    rw [List.length_append, htake]
    omega
  | flushed f k hpc =>
    have hlt : (afterWrite s f k).pc.remaining < s.pc.remaining := by
      rw [hpc]
      cases k <;> simp [afterWrite, Pc.remaining]
    have hout : (afterWrite s f k).out = s.out := by cases k <;> rfl
    have hin : (afterWrite s f k).inbuf = s.inbuf := by cases k <;> rfl
    exact ⟨by rw [hout]; omega, hlt.le, by rw [hin], Or.inl hlt⟩
  | ioError e hpc =>
    apply uses_fail
    cases hs : s.pc with
    | write f rest k => cases k <;> simp [Pc.remaining]
    | start => simp [Pc.remaining]
    | done r => rw [hs] at hpc; cases hpc
    | _ => simp [Pc.remaining]

theorem remaining_step {a : Action} (ha : a.Own) (h : step X E s a = some s') : s'.remaining < s.remaining := by
  obtain ⟨-, hpc, hin, hor⟩ := uses_step ha h
  unfold State.remaining
  omega

/-- The steps the client takes are bounded by the bytes it has received. -/
theorem run_own_length {as : List Action} (hown : ∀ a ∈ as, a.Own) (h : run X E s as = some s') :
    as.length ≤ s.remaining :=
  Nat.le_of_add_right_le (Lts.run_length_le State.remaining (fun _ _ _ ha hs => remaining_step ha hs)
    (Lts.meets_of_forall fun a ha _ => hown a ha) h)

/-- The client's own steps in which nothing outside fails. -/
def Action.Quiet : Action → Prop
  | .start | .read | .put _ | .flushed => True
  | _ => False

theorem Action.Quiet.own {a : Action} (h : a.Quiet) : a.Own := by
  cases a <;> trivial

/-- Where the client waits for a frame. -/
def Pc.Awaits (pc : Pc) : Prop := (∃ sk, pc = .awaitChallenge sk) ∨ pc = .awaitResult ∨ pc = .replies

/-- **Until it is done a client can go on**, unless it waits for its peer. -/
theorem quiet_enabled (hpc : ∀ r, s.pc ≠ .done r) (hframe : s.pc.Awaits →
    (∃ f r, readFrame DEFAULT_MAX_PAYLOAD_LEN s.inbuf = .ok (f, r)) ∨ s.eof = true) :
    ∃ a : Action, a.Quiet ∧ ∃ s', step X E s a = some s' := by
  have hread : s.pc.Awaits → ∀ handle : State → Frame → State, ∃ s', readWith s handle = some s' := by
    intro hw handle
    unfold readWith
    rcases hframe hw with ⟨f, r, hr⟩ | heof
    · rw [hr]
      exact ⟨_, rfl⟩
    · split
      · exact ⟨_, rfl⟩
      · rw [if_neg (by simp [heof])]
        exact ⟨_, rfl⟩
  cases hs : s.pc with
  | start =>
    refine ⟨.start, trivial, ?_⟩
    simp only [step, hs]
    cases E.signingKey with
    | error e => exact ⟨_, rfl⟩
    | ok sk => exact ⟨_, rfl⟩
  | awaitChallenge sk => exact ⟨.read, trivial, by simp only [step, hs]; exact hread (Or.inl ⟨sk, hs⟩) _⟩
  | awaitResult => exact ⟨.read, trivial, by simp only [step, hs]; exact hread (Or.inr (Or.inl hs)) _⟩
  | replies => exact ⟨.read, trivial, by simp only [step, hs]; exact hread (Or.inr (Or.inr hs)) _⟩
  | write f rest k =>
    cases rest with
    | nil => exact ⟨.flushed, trivial, afterWrite s f k, by simp only [step, hs]⟩
    | cons b rest => exact ⟨.put 1, trivial, _, by simp only [step, hs]; exact if_pos ⟨by omega, by simp⟩⟩
  | done r => exact absurd hs (hpc r)

/-- A client whose peer has closed does not wait for it. -/
theorem own_enabled (heof : s.eof = true) (hpc : ∀ r, s.pc ≠ .done r) :
    ∃ a : Action, a.Own ∧ ∃ s', step X E s a = some s' := by
  obtain ⟨a, ha, s', hs'⟩ := quiet_enabled hpc fun _ => Or.inr heof
  exact ⟨a, ha.own, s', hs'⟩

end Sao.ClientSession
