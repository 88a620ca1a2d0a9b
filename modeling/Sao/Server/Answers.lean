import Sao.Server.PrefixSafety

/-!
# Is every request answered?

The log of a session splits into exchanges: a frame read, and the frames written until the next one
is read. A valid `EXEC_SHELL` is answered by one frame that ends its reply: `EXEC_EXIT`,
`POLICY_DENIED` or `ERROR`.

* `eachAnswered_iff` — over a transport that does not fail, with no write cut by the timeout, every
  valid request is answered exactly once, if and only if no step of the run is a `Slip`: one of the
  `?` of `run_one_exec` that leaves without a reply.
* `spawnErr_unanswered` — a command that cannot be spawned ends the session without a word.
-/

namespace Sao.Session

open MsgType State

variable {X : Ext} {E : Env} {s s' : State X}

/-! ## Exchanges -/

/-- The frames read, each with the frames written until the next one was read; the last one is still
open. -/
structure Exchanges where
  closed : List (Frame × List Frame)
  last : Option (Frame × List Frame)

def Exchanges.add (x : Exchanges) : Event X → Exchanges
  | .read f => ⟨x.closed ++ x.last.toList, some (f, [])⟩
  | .wrote g => ⟨x.closed, x.last.map fun p => (p.1, p.2 ++ [g])⟩
  | _ => x

def exchanges (log : List (Event X)) : Exchanges := log.foldl Exchanges.add ⟨[], none⟩

theorem exchanges_append (l m : List (Event X)) : exchanges (l ++ m) = m.foldl Exchanges.add (exchanges l) :=
  List.foldl_append

/-- The frames that end a reply. -/
def terminal (f : Frame) : Bool := f.msgType = EXEC_EXIT ∨ f.msgType = POLICY_DENIED ∨ f.msgType = ERROR

/-- A valid `EXEC_SHELL`. -/
def Request (X : Ext) (f : Frame) : Prop := f.msgType = EXEC_SHELL ∧ ∃ shell, X.execShell f.payload = .ok shell

/-- If it is about a valid request, exactly one frame of the exchange ends a reply. -/
def AnsweredOnce (X : Ext) (x : Frame × List Frame) : Prop := Request X x.1 → x.2.countP terminal = 1

/-- Every valid request was answered once, before the next frame was read and before the end. -/
def EachAnswered (s : State X) : Prop :=
  (∀ x ∈ (exchanges s.log).closed, AnsweredOnce X x) ∧
    ∀ r, s.pc = .done r → ∀ x ∈ (exchanges s.log).last, AnsweredOnce X x

/-! ## The invariant -/

/-- A valid request that has no answer yet. -/
def Open (X : Ext) (o : Option (Frame × List Frame)) : Prop :=
  ∃ x, o = some x ∧ Request X x.1 ∧ x.2.countP terminal = 0

/-- What the place of the task says about the last exchange. -/
def Pending (X : Ext) (o : Option (Frame × List Frame)) : Pc → Prop
  | .start | .awaitAuth | .write _ _ .authResponse => o = none
  | .write _ _ .authOk => ∀ x ∈ o, ¬ Request X x.1
  | .serve | .done _ => ∀ x ∈ o, AnsweredOnce X x
  | .spawning _ | .recv | .wait => Open X o
  | .write f _ .forward => Open X o ∧ terminal f = false
  | .write f _ .finish => ∀ x ∈ o, Request X x.1 → x.2.countP terminal = 0 ∧ terminal f = true
  | .write f _ _ => Open X o ∧ terminal f = true

structure AnswerInv (s : State X) : Prop where
  closed : ∀ x ∈ (exchanges s.log).closed, AnsweredOnce X x
  pending : Pending X (exchanges s.log).last s.pc

/-- The session ended with a valid request unanswered. -/
def Broken (s : State X) : Prop := (∃ r, s.pc = .done r) ∧ Open X (exchanges s.log).last

/-- A step that leaves the current request without an answer. -/
def Slip (E : Env) (s : State X) : Action → Prop
  | .spawnErr _ | .waitErr _ => True
  | .read => s.pc = .serve ∧ ∃ f r, readFrame DEFAULT_MAX_PAYLOAD_LEN s.inbuf = .ok (f, r) ∧ Request X f ∧
      match reaction X E f with
      | .deny g => ¬ g.Fits DEFAULT_MAX_PAYLOAD_LEN
      | .fail _ => True
      | _ => False
  | _ => False

/-- The transport does not fail, and no write is cut by the timeout. -/
def Undisturbed (s : State X) (a : Action) : Prop := (∀ e, a ≠ .ioError e) ∧ TimeoutAtWait s a

theorem AnswerInv.congr (h : AnswerInv s) (hl : exchanges s'.log = exchanges s.log) (hpc : s'.pc = s.pc) :
    AnswerInv s' :=
  ⟨by rw [hl]; exact h.closed, by rw [hl, hpc]; exact h.pending⟩

theorem answerInv_finish (h : ∀ x ∈ (exchanges s.log).closed, AnsweredOnce X x)
    (hlast : ∀ x ∈ (exchanges s.log).last, AnsweredOnce X x) (r : Except Str Unit) : AnswerInv (s.finish r) :=
  ⟨h, hlast⟩

theorem answerInv_beginWrite {f : Frame} {k : Cont} (h : ∀ x ∈ (exchanges s.log).closed, AnsweredOnce X x)
    (hfit : Pending X (exchanges s.log).last (.write f (encode f) k))
    (hno : ¬ f.Fits DEFAULT_MAX_PAYLOAD_LEN → ∀ x ∈ (exchanges s.log).last, AnsweredOnce X x) :
    AnswerInv (s.beginWrite f k) := by
  by_cases hf : f.Fits DEFAULT_MAX_PAYLOAD_LEN
  · rw [beginWrite_fits hf]
    exact ⟨h, hfit⟩
  · rcases beginWrite_cases s f k with ⟨hf', -⟩ | ⟨e, he⟩
    · exact absurd hf' hf
    · rw [he]
      exact answerInv_finish h (hno hf) _

/-! ## Reading -/

theorem reaction_request {f : Frame} (hr : (∃ g, reaction X E f = .deny g) ∨ ∃ argv, reaction X E f = .run argv) :
    Request X f := by
  unfold reaction at hr
  split at hr
  · rename_i hmt
    cases hs : X.execShell f.payload with
    | error e =>
      rw [hs] at hr
      rcases hr with ⟨g, hg⟩ | ⟨argv, hargv⟩
      · cases hg
      · cases hargv
    | ok shell => exact ⟨hmt, shell, hs⟩
  · rcases hr with ⟨g, hg⟩ | ⟨argv, hargv⟩
    · cases hg
    · cases hargv

theorem reaction_refuse_request {f g : Frame} (hr : reaction X E f = .refuse g) : ¬ Request X f := by
  rintro ⟨hmt, shell, hs⟩
  unfold reaction at hr
  rw [if_pos hmt, hs] at hr
  simp only at hr
  split at hr
  · cases hr
  · split at hr <;> cases hr

/-- A request in place of the response is answered with an error. -/
theorem authReaction_request {keys : List (AuthorizedKey X)} {f : Frame} (h : Request X f) :
    authReaction E keys f =
      .refuse (jsonFrame ERROR (errorJson "EXPECTED_AUTH_RESPONSE".toList "expected AuthResponse".toList)) := by
  have hmt : f.msgType ≠ AUTH_RESPONSE := by
    rw [h.1]
    decide
  unfold authReaction authenticate
  rw [if_pos hmt]

theorem expectedAuthResponse_fits :
    (jsonFrame ERROR (errorJson "EXPECTED_AUTH_RESPONSE".toList "expected AuthResponse".toList)).Fits
      DEFAULT_MAX_PAYLOAD_LEN := by decide +kernel

/-- After a frame has been read, all exchanges before it are closed. -/
theorem exchanges_read {f : Frame} {r : Bytes} : exchanges ({ s with inbuf := r }.emit (.read f)).log =
    ⟨(exchanges s.log).closed ++ (exchanges s.log).last.toList, some (f, [])⟩ := by
  rw [emit_log, exchanges_append]
  rfl

theorem answerInv_readAuth (h : AnswerInv s) (hpc : s.pc = .awaitAuth) (f : Frame) (r : Bytes) :
    AnswerInv (handleAuth E ({ s with inbuf := r }.emit (.read f)) f) := by
  have hlast := h.pending
  rw [hpc] at hlast
  have hex := exchanges_read (s := s) (f := f) (r := r)
  rw [show (exchanges s.log).last = none from hlast, Option.toList_none, List.append_nil] at hex
  generalize State.emit { s with inbuf := r } (.read f) = t at hex
  have hclosed : ∀ x ∈ (exchanges t.log).closed, AnsweredOnce X x := by rw [hex]; exact h.closed
  rw [handleAuth_reaction]
  by_cases hreq : Request X f
  · rw [authReaction_request hreq]
    refine answerInv_beginWrite hclosed ?_ fun hno => absurd expectedAuthResponse_fits hno
    rw [hex]
    rintro x ⟨⟩ -
    exact ⟨rfl, rfl⟩
  · have hvac : ∀ x ∈ (exchanges t.log).last, ¬ Request X x.1 := by
      rw [hex]
      rintro x ⟨⟩
      exact hreq
    cases authReaction E t.keys f with
    | accept entry signature =>
      have hex' : exchanges (t.emit (.authed entry signature)).log = exchanges t.log := exchanges_append _ _
      refine answerInv_beginWrite (by rw [hex']; exact hclosed) (by rw [hex']; exact hvac) fun _ x hx hr => ?_
      rw [hex'] at hx
      exact absurd hr (hvac x hx)
    | refuse g =>
      exact answerInv_beginWrite hclosed (fun x hx hr => absurd hr (hvac x hx)) fun _ x hx hr => absurd hr (hvac x hx)
    | fail e => exact answerInv_finish hclosed (fun x hx hr => absurd hr (hvac x hx)) _

theorem answerInv_readServe (h : AnswerInv s) (hpc : s.pc = .serve) {f : Frame} {r : Bytes}
    (hr : readFrame DEFAULT_MAX_PAYLOAD_LEN s.inbuf = .ok (f, r)) (hslip : ¬ Slip E s .read) :
    AnswerInv (handleFrame E ({ s with inbuf := r }.emit (.read f)) f) := by
  have hlast := h.pending
  rw [hpc] at hlast
  have hex := exchanges_read (s := s) (f := f) (r := r)
  generalize State.emit { s with inbuf := r } (.read f) = t at hex
  have hclosed : ∀ x ∈ (exchanges t.log).closed, AnsweredOnce X x := by
    rw [hex]
    intro x hx
    rcases List.mem_append.1 hx with hx | hx
    · exact h.closed x hx
    · exact hlast x (Option.mem_toList.1 hx)
  have hopen : Request X f → Open X (exchanges t.log).last := by
    rw [hex]
    exact fun hreq => ⟨(f, []), rfl, hreq, rfl⟩
  have hvac : ¬ Request X f → ∀ x ∈ (exchanges t.log).last, ¬ Request X x.1 := by
    rw [hex]
    rintro hno x ⟨⟩
    exact hno
  rw [handleFrame_reaction]
  cases hre : reaction X E f with
  | deny g =>
    have hreq : Request X f := reaction_request (Or.inl ⟨g, hre⟩)
    obtain ⟨-, msg, rfl⟩ := reaction_deny hre
    refine answerInv_beginWrite hclosed ⟨hopen hreq, rfl⟩ fun hno => ?_
    exact absurd ⟨hpc, f, r, hr, hreq, by rw [hre]; exact hno⟩ hslip
  | run argv => exact ⟨hclosed, hopen (reaction_request (Or.inr ⟨argv, hre⟩))⟩
  | refuse g =>
    have hno := hvac (reaction_refuse_request hre)
    exact answerInv_beginWrite hclosed (fun x hx hq => absurd hq (hno x hx)) fun _ x hx hq => absurd hq (hno x hx)
  | fail e =>
    have hno : ¬ Request X f := fun hreq => hslip ⟨hpc, f, r, hr, hreq, by rw [hre]; trivial⟩
    exact answerInv_finish hclosed (fun x hx hq => absurd hq (hvac hno x hx)) _

/-! ## Writing -/

theorem exchanges_wrote {f : Frame} : exchanges (s.emit (.wrote f)).log =
    ⟨(exchanges s.log).closed, (exchanges s.log).last.map fun p => (p.1, p.2 ++ [f])⟩ := by
  rw [emit_log, exchanges_append]
  rfl

/-- The frame that ends the reply is added to an exchange without one. -/
theorem answeredOnce_add {o : Option (Frame × List Frame)} {f : Frame}
    (h : ∀ x ∈ o, Request X x.1 → x.2.countP terminal = 0 ∧ terminal f = true) :
    ∀ x ∈ o.map fun p => (p.1, p.2 ++ [f]), AnsweredOnce X x := by
  intro x hx hreq
  obtain ⟨y, hy, rfl⟩ := Option.map_eq_some_iff.1 hx
  obtain ⟨h0, hf⟩ := h y hy hreq
  rw [List.countP_append, h0, List.countP_singleton, if_pos hf]

theorem Open.once {o : Option (Frame × List Frame)} {f : Frame} (h : Open X o) (hf : terminal f = true) :
    ∀ x ∈ o.map fun p => (p.1, p.2 ++ [f]), AnsweredOnce X x := by
  obtain ⟨y, rfl, -, h0⟩ := h
  refine answeredOnce_add fun x hx _ => ?_
  rw [Option.mem_def, Option.some.injEq] at hx
  exact hx ▸ ⟨h0, hf⟩

/-- Output leaves the request open. -/
theorem Open.add {o : Option (Frame × List Frame)} {f : Frame} (h : Open X o) (hf : terminal f = false) :
    Open X (o.map fun p => (p.1, p.2 ++ [f])) := by
  obtain ⟨y, rfl, hreq, h0⟩ := h
  refine ⟨_, rfl, hreq, ?_⟩
  rw [List.countP_append, h0, List.countP_singleton, hf]
  rfl

theorem answerInv_flushed (h : AnswerInv s) {f : Frame} {k : Cont} (hpc : s.pc = .write f [] k) :
    AnswerInv (afterWrite s f k) := by
  have hlast := h.pending
  rw [hpc] at hlast
  have hex := exchanges_wrote (s := s) (f := f)
  have hclosed : ∀ x ∈ (exchanges (s.emit (.wrote f)).log).closed, AnsweredOnce X x := by rw [hex]; exact h.closed
  cases k with
  | authResponse =>
    refine ⟨hclosed, ?_⟩
    show (exchanges (s.emit (.wrote f)).log).last = none
    rw [hex, show (exchanges s.log).last = none from hlast]
    rfl
  | authOk =>
    refine ⟨hclosed, ?_⟩
    show ∀ x ∈ (exchanges (s.emit (.wrote f)).log).last, AnsweredOnce X x
    rw [hex]
    exact answeredOnce_add fun x hx hreq => absurd hreq (hlast x hx)
  | finish =>
    refine answerInv_finish hclosed ?_ _
    rw [hex]
    exact answeredOnce_add hlast
  | forward =>
    refine ⟨hclosed, ?_⟩
    show Open X (exchanges (s.emit (.wrote f)).log).last
    rw [hex]
    exact hlast.1.add hlast.2
  | _ =>
    refine ⟨hclosed, ?_⟩
    show ∀ x ∈ (exchanges (s.emit (.wrote f)).log).last, AnsweredOnce X x
    rw [hex]
    exact hlast.1.once hlast.2

theorem terminal_chunkFrame (c : StreamChunk) : terminal (chunkFrame c) = false := by
  obtain ⟨fd, data⟩ := c
  cases fd with
  | out => rfl
  | err => rfl

theorem terminal_exitFrame (code : Int32) : terminal (exitFrame code) = true := rfl

/-- The exit frame of the request is begun. -/
theorem answerInv_exit {k : Cont} {e : Event X} {code : Int32} (h : AnswerInv s)
    (hopen : Open X (exchanges s.log).last) (he : (exchanges s.log).add e = exchanges s.log)
    (hk : k = .execEnd ∨ k = .timedOut) : AnswerInv ((s.emit e).beginWrite (exitFrame code) k) := by
  have hex : exchanges (s.emit e).log = exchanges s.log := by
    rw [emit_log, exchanges_append]
    exact he
  refine answerInv_beginWrite (by rw [hex]; exact h.closed) ?_ fun hno => absurd (exitFrame_fits code) hno
  rw [hex]
  rcases hk with rfl | rfl
  · exact ⟨hopen, terminal_exitFrame code⟩
  · exact ⟨hopen, terminal_exitFrame code⟩

/-! ## Steps -/

theorem answerInv_start (h : AnswerInv s) (hpc : s.pc = .start) : AnswerInv (start E s) := by
  have hlast := h.pending
  rw [hpc] at hlast
  have hnone : ∀ x ∈ (exchanges s.log).last, AnsweredOnce X x := by
    rw [show (exchanges s.log).last = none from hlast]
    rintro x ⟨⟩
  unfold Session.start
  split
  · exact answerInv_finish h.closed hnone _
  · exact answerInv_beginWrite h.closed hlast fun _ => hnone

/-- **A step that is no slip** keeps every request answered or open. -/
theorem answerInv_step {R : Regime} {a : Action} (ht : Told R E s) (hi : AnswerInv s) (hu : Undisturbed s a)
    (hslip : ¬ Slip E s a) (h : step E s a = some s') : AnswerInv s' := by
  have hpend := hi.pending
  cases step_cases h with
  | clientSend b he => exact hi.congr rfl rfl
  | clientClose => exact hi.congr rfl rfl
  | child a c c' hc hs => exact hi.congr rfl rfl
  | leftover i a c c' hc hs => exact hi.congr rfl rfl
  | start hpc => exact answerInv_start hi hpc
  | readAuth f r hpc hr => exact answerInv_readAuth hi hpc f r
  | readServe f r hpc hr => exact answerInv_readServe hi hpc hr hslip
  | readFail r e hpc hr he =>
    refine answerInv_finish hi.closed ?_ _
    rcases hpc with hpc | hpc
    · rw [hpc] at hpend
      rw [show (exchanges s.log).last = none from hpend]
      rintro x ⟨⟩
    · rw [hpc] at hpend
      exact hpend
  | put n f rest k hpc h0 hn =>
    rw [hpc] at hpend
    exact ⟨hi.closed, by cases k <;> exact hpend⟩
  | flushed f k hpc => exact answerInv_flushed hi hpc
  | ioError e hpc => exact absurd rfl (hu.1 e)
  | spawnOk argv hpc =>
    rw [hpc] at hpend
    have hex : exchanges (spawned s argv).log = exchanges s.log := exchanges_append _ _
    exact ⟨by rw [hex]; exact hi.closed, by rw [hex]; exact hpend⟩
  | spawnErr e argv hpc => exact absurd trivial hslip
  | recv c ch q hpc hc hq =>
    obtain ⟨hrun, -⟩ := ht.quiet (by rw [hpc]; rfl) (by rw [hpc]; rfl) (by rw [hpc]; rfl)
    obtain ⟨c₀, taken, hlast⟩ := hrun.of_running
    obtain ⟨rfl, -⟩ := hlast.child hc
    have hfit : (chunkFrame ch).Fits DEFAULT_MAX_PAYLOAD_LEN :=
      chunkFrame_fits (hlast.ok.ok ch (by rw [hlast.ok.queue, hq]; simp))
    rw [hpc] at hpend
    exact answerInv_beginWrite hi.closed ⟨hpend, terminal_chunkFrame ch⟩ fun hno => absurd hfit hno
  | recvNone c hpc hc hq hg =>
    rw [hpc] at hpend
    exact ⟨hi.closed, hpend⟩
  | waitOk c st hpc hc hst =>
    rw [hpc] at hpend
    exact answerInv_exit hi hpend rfl (Or.inl rfl)
  | waitErr e hpc => exact absurd trivial hslip
  | timeout hpc =>
    refine answerInv_exit hi ?_ rfl (Or.inr rfl)
    rcases hu.2 rfl with hpc | hpc
    · rw [hpc] at hpend
      exact hpend
    · rw [hpc] at hpend
      exact hpend

/-- **A slip** ends the session with the request unanswered. -/
theorem broken_of_slip {a : Action} (hi : AnswerInv s) (hslip : Slip E s a) (h : step E s a = some s') : Broken s' := by
  have hpend := hi.pending
  cases step_cases h with
  | spawnErr e argv hpc =>
    rw [hpc] at hpend
    exact ⟨⟨_, rfl⟩, hpend⟩
  | waitErr e hpc =>
    rw [hpc] at hpend
    exact ⟨⟨_, rfl⟩, hpend⟩
  | readAuth f r hpc hr =>
    rw [hslip.1] at hpc
    cases hpc
  | readFail r e hpc hr he =>
    obtain ⟨-, f, r', hr', -⟩ := hslip
    rw [hr] at hr'
    cases hr'
  | readServe f r hpc hr =>
    obtain ⟨-, f', r', hr', hreq, hre⟩ := hslip
    rw [hr, Except.ok.injEq, Prod.mk.injEq] at hr'
    obtain ⟨rfl, rfl⟩ := hr'
    have hopen : Open X (exchanges (State.emit { s with inbuf := r } (.read f)).log).last := by
      rw [exchanges_read]
      exact ⟨(f, []), rfl, hreq, rfl⟩
    generalize State.emit { s with inbuf := r } (.read f) = t at hopen
    rw [handleFrame_reaction]
    cases hra : reaction X E f with
    | deny g =>
      rw [hra] at hre
      rcases beginWrite_cases t g .serve with ⟨hfit, -⟩ | ⟨e, he⟩
      · exact absurd hfit hre
      · simp only [he]
        exact ⟨⟨_, rfl⟩, hopen⟩
    | fail e => exact ⟨⟨_, rfl⟩, hopen⟩
    | _ =>
      rw [hra] at hre
      exact hre.elim
  | _ => exact hslip.elim

theorem broken_step {a : Action} (hb : Broken s) (h : step E s a = some s') : Broken s' := by
  obtain ⟨⟨r, hpc⟩, hopen⟩ := hb
  have hno : ∀ pc, s.pc = pc → (∀ r', pc ≠ .done r') → False := fun pc hp hne => hne r (hp.symm.trans hpc)
  cases step_cases h with
  | clientSend b he => exact ⟨⟨r, hpc⟩, hopen⟩
  | clientClose => exact ⟨⟨r, hpc⟩, hopen⟩
  | child a c c' hc hs => exact ⟨⟨r, hpc⟩, hopen⟩
  | leftover i a c c' hc hs => exact ⟨⟨r, hpc⟩, hopen⟩
  | readFail r' e hp hr he =>
    rcases hp with hp | hp
    · exact (hno _ hp (by simp)).elim
    · exact (hno _ hp (by simp)).elim
  | ioError e hp =>
    rw [hpc] at hp
    cases hp
  | timeout hp =>
    rw [hpc] at hp
    cases hp
  | start hp => exact (hno _ hp (by simp)).elim
  | readAuth f r' hp hr => exact (hno _ hp (by simp)).elim
  | readServe f r' hp hr => exact (hno _ hp (by simp)).elim
  | put n f rest k hp h0 hn => exact (hno _ hp (by simp)).elim
  | flushed f k hp => exact (hno _ hp (by simp)).elim
  | spawnOk argv hp => exact (hno _ hp (by simp)).elim
  | spawnErr e argv hp => exact (hno _ hp (by simp)).elim
  | recv c ch q hp hc hq => exact (hno _ hp (by simp)).elim
  | recvNone c hp hc hq hg => exact (hno _ hp (by simp)).elim
  | waitOk c st hp hc hst => exact (hno _ hp (by simp)).elim
  | waitErr e hp => exact (hno _ hp (by simp)).elim

/-! ## Runs -/

/-- Without I/O errors everything else may go wrong. -/
def undisturbed : Regime := ⟨True, False, fun _ => True, fun _ => True⟩

theorem Undisturbed.allows {a : Action} (h : Undisturbed s a) : undisturbed.Allows s a := by
  cases a with
  | timeout => exact ⟨trivial, h.2 rfl⟩
  | ioError e => exact absurd rfl (h.1 e)
  | _ => trivial

theorem AnswerInv.each (h : AnswerInv s) : EachAnswered s := by
  refine ⟨h.closed, fun r hr => ?_⟩
  have hpend := h.pending
  rw [hr] at hpend
  exact hpend

theorem Broken.not_each (h : Broken s) : ¬ EachAnswered s := by
  obtain ⟨⟨r, hpc⟩, x, hx, hreq, h0⟩ := h
  intro heach
  have h1 := heach.2 r hpc x hx hreq
  rw [h0] at h1
  cases h1

/-- Up to the first slip every request is answered; from then on one is not. -/
theorem answers_run {as : List Action} {t : State X} (ht : Told undisturbed E s) (hi : AnswerInv s)
    (hu : Lts.Meets (step E) Undisturbed s as) (h : run E s as = some t) :
    (AnswerInv t ∧ Lts.Meets (step E) (fun s a => ¬ Slip E s a) s as) ∨
    (Broken t ∧ ¬ Lts.Meets (step E) (fun s a => ¬ Slip E s a) s as) := by
  induction as generalizing s with
  | nil =>
    rw [run, Lts.run_nil, Option.some.injEq] at h
    exact Or.inl ⟨h ▸ hi, trivial⟩
  | cons a as ih =>
    obtain ⟨m, hstep, hrun⟩ := Lts.run_cons.1 h
    by_cases hslip : Slip E s a
    · right
      have hbroken : Broken t := Lts.run_inv Broken (fun _ _ _ hb hs => broken_step hb hs)
        (broken_of_slip hi hslip hstep) hrun
      exact ⟨hbroken, fun hm => hm.1 hslip⟩
    · have hm := ih (told_step hu.1.allows ht hstep) (answerInv_step ht hi hu.1 hslip hstep) (hu.2 m hstep) hrun
      have hiff : Lts.Meets (step E) (fun s a => ¬ Slip E s a) s (a :: as) ↔
          Lts.Meets (step E) (fun s a => ¬ Slip E s a) m as := by
        refine ⟨fun hall => hall.2 m hstep, fun hrest => ⟨hslip, fun m' hm' => ?_⟩⟩
        rw [hstep, Option.some.injEq] at hm'
        exact hm' ▸ hrest
      rw [hiff]
      exact hm

/-- **Exactly when every request is answered.** In every run of a session over a transport that does
not fail, in which the timeout cuts no write: each valid request was answered exactly once, before the
next frame was read and before the session ended, if and only if no step of the run was a slip: a spawn
or a wait that fails, a permitted command with a `shell_argv` too short to run it, or a refusal whose
payload is over the maximum. -/
theorem eachAnswered_iff (X : Ext) (E : Env) (as : List Action) (s : State X) (h : run E (init X) as = some s)
    (hu : Lts.Meets (step E) Undisturbed (init X) as) :
    EachAnswered s ↔ Lts.Meets (step E) (fun s a => ¬ Slip E s a) (init X) as := by
  have hinit : AnswerInv (init X) := ⟨fun x hx => (by cases hx), rfl⟩
  rcases answers_run told_init hinit hu h with ⟨hi, hm⟩ | ⟨hb, hm⟩
  · exact ⟨fun _ => hm, fun _ => hi.each⟩
  · exact ⟨fun heach => absurd heach hb.not_each, fun hall => absurd hall hm⟩

theorem undisturbed_sample : Lts.Meets (step sampleEnv) Undisturbed (init Ext.sample) sampleActions := by
  refine Lts.meets_of_forall fun a ha t => ?_
  simp only [sampleActions, servedActions, List.dropLast, List.mem_cons, List.not_mem_nil, or_false] at ha
  rcases ha with rfl | rfl | rfl | rfl | rfl | rfl | rfl | rfl <;> exact ⟨by simp, by simp [TimeoutAtWait]⟩

theorem meets_from_sample {G : State Ext.sample → Action → Prop} {s : State Ext.sample} {bs : List Action}
    (hrun : run sampleEnv (init Ext.sample) sampleActions = some s)
    (h1 : Lts.Meets (step sampleEnv) G (init Ext.sample) sampleActions) (h2 : Lts.Meets (step sampleEnv) G s bs) :
    Lts.Meets (step sampleEnv) G (init Ext.sample) (sampleActions ++ bs) := by
  refine h1.append fun m hm => ?_
  rw [Option.some.inj (hm.symm.trans hrun)]
  exact h2

/-- The sample request, whose command ends at once. -/
theorem eachAnswered_sample : ∃ s : State Ext.sample,
    run sampleEnv (init Ext.sample) (sampleActions ++ quickActions) = some s ∧ EachAnswered s := by
  obtain ⟨s₀, argv, hrun, hpc, -, sig, hlog⟩ := spawning_sample
  obtain ⟨s, hquick, -⟩ := run_quick (E := sampleEnv) hpc
  -- nothing has slipped up to the spawn, since nothing has remained unanswered
  have hbefore : EachAnswered s₀ := by
    constructor
    · rw [hlog]
      intro x hx hreq
      have hxe : x = (sampleResponse, [authOk sampleEnv Sample.entry]) := by
        simpa [exchanges, Exchanges.add] using hx
      rw [hxe] at hreq
      exact absurd hreq.1 (by decide)
    · intro r hr
      rw [hpc] at hr
      cases hr
  have hslip := (eachAnswered_iff Ext.sample sampleEnv _ s₀ hrun undisturbed_sample).1 hbefore
  have hu : Lts.Meets (step sampleEnv) Undisturbed s₀ quickActions :=
    Lts.meets_of_forall fun a ha t => by
      simp only [quickActions, List.mem_cons, List.not_mem_nil, or_false] at ha
      rcases ha with rfl | rfl | rfl | rfl | rfl | rfl | rfl | rfl | rfl | rfl <;>
        exact ⟨by simp, by simp [TimeoutAtWait]⟩
  have hno : Lts.Meets (step sampleEnv) (fun s a => ¬ Slip sampleEnv s a) s₀ quickActions :=
    Lts.meets_of_forall fun a ha t => by
      simp only [quickActions, List.mem_cons, List.not_mem_nil, or_false] at ha
      rcases ha with rfl | rfl | rfl | rfl | rfl | rfl | rfl | rfl | rfl | rfl <;> exact id
  have hall := Lts.run_append.2 ⟨s₀, hrun, hquick⟩
  exact ⟨s, hall, (eachAnswered_iff Ext.sample sampleEnv _ s hall (meets_from_sample hrun undisturbed_sample hu)).2
    (meets_from_sample hrun hslip hno)⟩

/-- **A command that cannot be spawned**: the session ends, and its request has no answer. -/
theorem spawnErr_unanswered : ¬ ∀ (as : List Action) (s : State Ext.sample),
    run sampleEnv (init Ext.sample) as = some s → Lts.Meets (step sampleEnv) Undisturbed (init Ext.sample) as →
    EachAnswered s := by
  intro hall
  obtain ⟨s, argv, hrun, hpc, -, sig, hlog⟩ := spawning_sample
  have hstep : step sampleEnv s (.spawnErr "nul byte found in provided data".toList) =
      some (s.finish (.error "nul byte found in provided data".toList)) := by simp [step, hpc]
  have hend := Lts.run_snoc.2 ⟨s, hrun, hstep⟩
  have hu : Lts.Meets (step sampleEnv) Undisturbed (init Ext.sample)
      (sampleActions ++ [.spawnErr "nul byte found in provided data".toList]) :=
    undisturbed_sample.append fun m _ => ⟨⟨by simp, by simp [TimeoutAtWait]⟩, fun _ _ => trivial⟩
  have heach := (hall _ _ hend hu).2 _ rfl (sampleRequest, []) (by rw [finish_log, hlog]; rfl)
  have hreq : Request Ext.sample sampleRequest := ⟨rfl, _, (permitted_some permitted_sample).2.1⟩
  exact absurd (heach hreq) (by decide)

end Sao.Session
