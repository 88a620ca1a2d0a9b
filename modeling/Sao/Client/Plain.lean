import Sao.Client.Transcript

/-!
# `run_session` of the client, read off the page

The same function as a program over the frames that arrive, without its suspension points: what is
written, shown and returned, no matter in what pieces the bytes come or when the task runs.

| here | there |
| --- | --- |
| `challenge`  | from the first `read_frame` |
| `result`     | from the second |
| `replies`    | the `loop` |
| `plain`      | `run_session` over frames |
| `plainOn`    | over the bytes of a stream, open or ended |

* `follows_step` — every step of the task keeps its place in the program, or something outside has failed.
* `run_begins` — whatever fails outside, what it has written and shown begins what the program writes and shows.
* `rests_iff` — a task in which nothing fails comes to rest where the program does on the same bytes, and nowhere else.
-/

namespace Sao.ClientSession

open MsgType

/-- What is seen of a client. -/
structure View where
  /-- What it has put on the stream. -/
  out : Bytes
  stdout : Bytes
  stderr : Bytes
  /-- `none` while it waits for more. -/
  outcome : Option Outcome
deriving DecidableEq, Repr

namespace View

def empty : View := ⟨[], [], [], none⟩

def fail (v : View) (text : Str) : View := { v with outcome := some (.err text) }

def exit (v : View) (code : Int32) : View := { v with outcome := some (.exit code) }

def writeStd (v : View) (t : UInt8) (raw : Bytes) : View :=
  if t = STREAM_STDERR then { v with stderr := v.stderr ++ raw } else { v with stdout := v.stdout ++ raw }

def eprintln (v : View) (text : Bytes) : View := { v with stderr := v.stderr ++ text ++ [0x0A] }

/-- `write_frame`, and what follows it. -/
def say (v : View) (f : Frame) (k : View → View) : View :=
  match encodeFrame DEFAULT_MAX_PAYLOAD_LEN f.msgType f.payload with
  | .ok b => k { v with out := v.out ++ b }
  | .error e => v.fail e.display

/-- Less of the same is seen. -/
structure Begins (v w : View) : Prop where
  out : v.out <+: w.out
  stdout : v.stdout <+: w.stdout
  stderr : v.stderr <+: w.stderr

theorem Begins.refl (v : View) : v.Begins v := ⟨List.prefix_refl _, List.prefix_refl _, List.prefix_refl _⟩

theorem Begins.trans {u v w : View} (h : u.Begins v) (h' : v.Begins w) : u.Begins w :=
  ⟨h.out.trans h'.out, h.stdout.trans h'.stdout, h.stderr.trans h'.stderr⟩

theorem Begins.fail {v w : View} (h : v.Begins w) (text : Str) : v.Begins (w.fail text) := ⟨h.out, h.stdout, h.stderr⟩

theorem Begins.exit {v w : View} (h : v.Begins w) (code : Int32) : v.Begins (w.exit code) :=
  ⟨h.out, h.stdout, h.stderr⟩

theorem begins_writeStd (v : View) (t : UInt8) (raw : Bytes) : v.Begins (v.writeStd t raw) := by
  unfold writeStd
  split
  · exact ⟨List.prefix_refl _, List.prefix_refl _, List.prefix_append _ _⟩
  · exact ⟨List.prefix_refl _, List.prefix_append _ _, List.prefix_refl _⟩

theorem begins_eprintln (v : View) (text : Bytes) : v.Begins (v.eprintln text) :=
  ⟨List.prefix_refl _, List.prefix_refl _, ⟨text ++ [0x0A], by simp [eprintln]⟩⟩

theorem begins_say {v : View} {k : View → View} (hk : ∀ w : View, w.Begins (k w)) (f : Frame) :
    v.Begins (v.say f k) := by
  unfold say
  split
  · rename_i b _
    have hb : v.Begins { v with out := v.out ++ b } :=
      ⟨List.prefix_append _ _, List.prefix_refl _, List.prefix_refl _⟩
    exact hb.trans (hk _)
  · exact (Begins.refl v).fail _

end View

variable (X : Ext)

def replies (v : View) : List Frame → View
  | [] => v
  | f :: fs =>
    if f.msgType = STREAM_STDOUT ∨ f.msgType = STREAM_STDERR then
      match streamBytes X f with
      | .error e => v.fail e
      | .ok raw => replies (v.writeStd f.msgType raw) fs
    else if f.msgType = EXEC_EXIT then
      match X.exitCode f.payload with
      | .error e => v.fail e
      | .ok code => v.exit (code.getD (-1)).toInt32
    else if f.msgType = POLICY_DENIED then (v.eprintln (Bytes.utf8 (X.fromUtf8Lossy f.payload))).exit 126
    else if f.msgType = ERROR then (v.eprintln (Bytes.utf8 (X.fromUtf8Lossy f.payload))).exit 1
    else (v.eprintln (Bytes.utf8 ("unexpected msg_type 0x".toList ++ Text.hexEncode [f.msgType]))).exit 1

variable (E : Env)

def result (v : View) : List Frame → View
  | [] => v
  | f :: fs =>
    if f.msgType ≠ AUTH_RESULT then v.fail "expected AuthResult".toList
    else match X.authResult f.payload with
      | .error e => v.fail e
      | .ok ar => if ar.ok then v.say (execShell E.shellLine) fun v => replies X v fs else v.fail (rejected X ar)

def challenge (signingKey : ByteArr 32) (v : View) : List Frame → View
  | [] => v
  | f :: fs =>
    if f.msgType ≠ AUTH_CHALLENGE then v.fail "expected AuthChallenge".toList
    else match X.authChallenge f.payload with
      | .error e => v.fail e
      | .ok ch =>
        match X.base64Decode ch.nonce with
        | .error e => v.fail e
        | .ok nonce => v.say (authResponse X signingKey nonce ch.sessionId) fun v => result X E v fs

def plain (fs : List Frame) : View :=
  match E.signingKey with
  | .error e => View.empty.fail e.display
  | .ok sk => challenge X E sk .empty fs

/-- At the end of the stream, or where a `read_frame` fails: the error it returns. -/
def View.close (v : View) (e : ProtocolError) (eof : Bool) : View :=
  if v.outcome = none ∧ (e ≠ .unexpectedEof ∨ eof = true) then v.fail e.display else v

/-- Over the bytes of a stream that is still open, or has ended. -/
def plainOn (b : Bytes) (eof : Bool) : View :=
  (plain X E (readAll DEFAULT_MAX_PAYLOAD_LEN b).1).close (readAll DEFAULT_MAX_PAYLOAD_LEN b).2.1 eof

/-! ## Where a task is in the program -/

/-- What is seen of it. -/
def State.seen (s : State) : View :=
  ⟨s.out, s.stdout, s.stderr, match s.pc with
    | .done r => some r
    | _ => none⟩

/-- What is seen of it once the frame it is writing is written. -/
def State.view (s : State) : View := ⟨s.out ++ s.pc.rest, s.stdout, s.stderr, none⟩

/-- The program after a write. -/
def goOn (v : View) (fs : List Frame) : Cont → View
  | .awaitResult => result X E v fs
  | .replies => replies X v fs

/-- The rest of the program. -/
def onwards (s : State) (fs : List Frame) : View :=
  match s.pc with
  | .start => plain X E fs
  | .awaitChallenge sk => challenge X E sk s.view fs
  | .write _ _ k => goOn X E s.view fs k
  | .awaitResult => result X E s.view fs
  | .replies => replies X s.view fs
  | .done r => { s.view with outcome := some r }

/-- From what the client has read on, the program is the rest of the program. -/
def Follows (s : State) : Prop := ∀ fs, plain X E (readsOf s.log ++ fs) = onwards X E s fs

variable {X E} {s s' : State}

theorem Follows.of_eq (h : Follows X E s) (hr : readsOf s'.log = readsOf s.log)
    (heq : ∀ fs, onwards X E s fs = onwards X E s' fs) : Follows X E s' := by
  intro fs
  rw [hr, h, heq]

theorem Follows.of_read (h : Follows X E s) {f : Frame} (hr : readsOf s'.log = readsOf s.log ++ [f])
    (heq : ∀ fs, onwards X E s (f :: fs) = onwards X E s' fs) : Follows X E s' := by
  intro fs
  rw [hr, List.append_assoc]
  exact (h (f :: fs)).trans (heq fs)

section Places

variable {sk : ByteArr 32} {fs : List Frame}

theorem onwards_awaitChallenge (hpc : s.pc = .awaitChallenge sk) :
    onwards X E s fs = challenge X E sk s.view fs := by simp only [onwards, hpc]

theorem onwards_awaitResult (hpc : s.pc = .awaitResult) : onwards X E s fs = result X E s.view fs := by
  simp only [onwards, hpc]

theorem onwards_replies (hpc : s.pc = .replies) : onwards X E s fs = replies X s.view fs := by
  simp only [onwards, hpc]

end Places

section Handlers

variable (hs : s.pc.rest = [])
include hs

theorem view_of_rest : s.view = ⟨s.out, s.stdout, s.stderr, none⟩ := by
  rw [State.view, hs, List.append_nil]

/-- A frame is begun, and what follows it is to come. -/
theorem say_beginWrite (f : Frame) (k : Cont) (fs : List Frame) :
    (s.view.say f fun v => goOn X E v fs k) = onwards X E (s.beginWrite f k) fs := by
  rw [view_of_rest hs]
  unfold View.say State.beginWrite
  cases encodeFrame DEFAULT_MAX_PAYLOAD_LEN f.msgType f.payload with
  | ok b => rfl
  | error e => simp only [onwards, State.fail, State.view, View.fail, Pc.rest, List.append_nil]

theorem onwards_fail (text : Str) (fs : List Frame) : onwards X E (s.fail text) fs = s.view.fail text := by
  rw [view_of_rest hs]
  simp only [onwards, State.fail, State.view, View.fail, Pc.rest, List.append_nil]

theorem onwards_exit (code : Int32) (fs : List Frame) : onwards X E (s.exit code) fs = s.view.exit code := by
  rw [view_of_rest hs]
  simp only [onwards, State.exit, State.view, View.exit, Pc.rest, List.append_nil]

theorem onwards_answerChallenge (sk : ByteArr 32) (f : Frame) (fs : List Frame) :
    challenge X E sk s.view (f :: fs) = onwards X E (answerChallenge X sk s f) fs := by
  simp only [challenge, answerChallenge]
  split
  · exact (onwards_fail hs _ fs).symm
  · cases X.authChallenge f.payload with
    | error e => exact (onwards_fail hs _ fs).symm
    | ok ch =>
      dsimp only
      cases X.base64Decode ch.nonce with
      | error e => exact (onwards_fail hs _ fs).symm
      | ok nonce => exact say_beginWrite (s := s.emit _) hs _ .awaitResult fs

theorem onwards_handleResult (f : Frame) (fs : List Frame) :
    result X E s.view (f :: fs) = onwards X E (handleResult X E.shellLine s f) fs := by
  simp only [result, handleResult]
  split
  · exact (onwards_fail hs _ fs).symm
  · cases X.authResult f.payload with
    | error e => exact (onwards_fail hs _ fs).symm
    | ok ar =>
      dsimp only
      split
      · exact say_beginWrite hs _ .replies fs
      · exact (onwards_fail hs _ fs).symm

theorem onwards_handleReply (f : Frame) (fs : List Frame) :
    replies X s.view (f :: fs) = onwards X E (handleReply X s f) fs := by
  simp only [replies, handleReply]
  split
  · cases streamBytes X f with
    | error e => exact (onwards_fail hs _ fs).symm
    | ok raw =>
      rw [view_of_rest hs]
      dsimp only [View.writeStd, State.writeStd]
      split <;> simp only [onwards, State.view, Pc.rest, List.append_nil]
  · split
    · cases X.exitCode f.payload with
      | error e => exact (onwards_fail hs _ fs).symm
      | ok code => exact (onwards_exit hs _ fs).symm
    · split
      · exact (onwards_exit (s := s.eprintln _) hs 126 fs).symm
      · split
        · exact (onwards_exit (s := s.eprintln _) hs 1 fs).symm
        · exact (onwards_exit (s := s.eprintln _) hs 1 fs).symm

end Handlers

/-! ## What is shown on the way -/

theorem begins_replies (v : View) (fs : List Frame) : v.Begins (replies X v fs) := by
  induction fs generalizing v with
  | nil => exact .refl v
  | cons f fs ih =>
    rw [replies]
    split
    · split
      · exact (View.Begins.refl v).fail _
      · exact (v.begins_writeStd _ _).trans (ih _)
    · split
      · split
        · exact (View.Begins.refl v).fail _
        · exact (View.Begins.refl v).exit _
      · split
        · exact (v.begins_eprintln _).exit _
        · split <;> exact (v.begins_eprintln _).exit _

theorem begins_result (v : View) (fs : List Frame) : v.Begins (result X E v fs) := by
  cases fs with
  | nil => exact .refl v
  | cons f fs =>
    rw [result]
    split
    · exact (View.Begins.refl v).fail _
    · split
      · exact (View.Begins.refl v).fail _
      · split
        · exact View.begins_say (fun w => begins_replies w fs) _
        · exact (View.Begins.refl v).fail _

theorem begins_challenge (sk : ByteArr 32) (v : View) (fs : List Frame) : v.Begins (challenge X E sk v fs) := by
  cases fs with
  | nil => exact .refl v
  | cons f fs =>
    rw [challenge]
    split
    · exact (View.Begins.refl v).fail _
    · split
      · exact (View.Begins.refl v).fail _
      · split
        · exact (View.Begins.refl v).fail _
        · exact View.begins_say (fun w => begins_result w fs) _

theorem begins_empty (fs : List Frame) : View.empty.Begins (plain X E fs) := by
  unfold plain
  split
  · exact (View.Begins.refl _).fail _
  · exact begins_challenge _ _ fs

theorem begins_goOn (v : View) (fs : List Frame) (k : Cont) : v.Begins (goOn X E v fs k) := by
  cases k with
  | awaitResult => exact begins_result v fs
  | replies => exact begins_replies v fs

/-- A task has shown no more than the program will have. -/
theorem begins_onwards (ht : Told X E s) (fs : List Frame) : s.seen.Begins (onwards X E s fs) := by
  have hview : s.seen.Begins s.view := ⟨List.prefix_append _ _, List.prefix_refl _, List.prefix_refl _⟩
  unfold onwards
  split
  · rename_i hpc
    obtain ⟨-, ho, h1, h2⟩ := Talk.of_start (hpc ▸ ht.talk)
    have hnil : s.seen.Begins .empty :=
      ⟨by simp [State.seen, ho], by simp [State.seen, h1], by simp [State.seen, h2]⟩
    exact hnil.trans (begins_empty fs)
  · exact hview.trans (begins_challenge _ _ fs)
  · exact hview.trans (begins_goOn _ fs _)
  · exact hview.trans (begins_result _ fs)
  · exact hview.trans (begins_replies _ fs)
  · exact ⟨hview.out, hview.stdout, hview.stderr⟩

/-! ## Steps -/

/-- What leaves the program: a stream that ends or fails, or a standard stream that fails within a reply. -/
inductive Falls (X : Ext) (s : State) : Action → State → Prop where
  | read (a : Action) (e : ProtocolError) (hpc : s.pc.Awaits)
      (hr : readFrame DEFAULT_MAX_PAYLOAD_LEN s.inbuf = .error e) (he : e = .unexpectedEof → s.eof = true) :
    Falls X s a (s.fail e.display)
  | io (e : Str) : Falls X s (.ioError e) (s.fail (ProtocolError.io e).display)
  | broken (n : Nat) (e : Str) (f : Frame) (r : Bytes) (o : Outcome) (stdout held stderr : Bytes) (hpc : s.pc = .replies)
      (hr : readFrame DEFAULT_MAX_PAYLOAD_LEN s.inbuf = .ok (f, r))
      (hb : Breaks s (handleReply X ({ s with inbuf := r }.emit (.read f)) f) o stdout held stderr) :
    Falls X s (.readBroken n e) { ({ s with inbuf := r }.emit (.read f)) with stdout, held, stderr, pc := .done o }

@[simp] theorem readsOf_answerChallenge (sk : ByteArr 32) (f : Frame) :
    readsOf (answerChallenge X sk s f).log = readsOf s.log := by
  rcases answerChallenge_cases X sk s f with ⟨nonce, sid, -, heq⟩ | ⟨t, heq⟩ <;> rw [heq] <;> simp

@[simp] theorem readsOf_handleResult (shellLine : Str) (f : Frame) :
    readsOf (handleResult X shellLine s f).log = readsOf s.log := by
  rcases handleResult_cases X shellLine s f with ⟨ar, -, -, -, heq⟩ | ⟨t, heq⟩ <;> rw [heq] <;> simp

theorem Follows.readReply (h : Follows X E s) {f : Frame} {r : Bytes} (hpc : s.pc = .replies) :
    Follows X E (handleReply X ({ s with inbuf := r }.emit (.read f)) f) := by
  refine h.of_read (f := f) (by simp) fun fs => ?_
  have hrest : ({ s with inbuf := r }.emit (.read f)).pc.rest = [] := congrArg Pc.rest hpc
  rw [← onwards_handleReply hrest, onwards_replies hpc]
  rfl

/-- **A step keeps the task at its place**, or leaves the program. -/
theorem follows_step {a : Action} (ht : Told X E s) (h : Follows X E s) (hs : step X E s a = some s') :
    Follows X E s' ∨ Falls X s a s' := by
  cases step_cases hs with
  | serverSend b he => exact Or.inl (h.of_eq rfl fun fs => rfl)
  | serverClose => exact Or.inl (h.of_eq rfl fun fs => rfl)
  | startOk sk hpc hk =>
    refine Or.inl (h.of_eq rfl fun fs => ?_)
    obtain ⟨-, ho, h1, h2⟩ := Talk.of_start (hpc ▸ ht.talk)
    simp only [onwards, hpc, plain, hk, State.view, ho, h1, h2]
    rfl
  | startErr e hpc hk =>
    refine Or.inl (h.of_eq rfl fun fs => ?_)
    obtain ⟨-, ho, h1, h2⟩ := Talk.of_start (hpc ▸ ht.talk)
    simp only [onwards, hpc, plain, hk, State.view, State.fail, ho, h1, h2]
    rfl
  | readChallenge sk f r hpc hr =>
    refine Or.inl (h.of_read (f := f) (by simp) fun fs => ?_)
    have hrest : ({ s with inbuf := r }.emit (.read f)).pc.rest = [] := congrArg Pc.rest hpc
    rw [← onwards_answerChallenge hrest, onwards_awaitChallenge hpc]
    rfl
  | readResult f r hpc hr =>
    refine Or.inl (h.of_read (f := f) (by simp) fun fs => ?_)
    have hrest : ({ s with inbuf := r }.emit (.read f)).pc.rest = [] := congrArg Pc.rest hpc
    rw [← onwards_handleResult hrest, onwards_awaitResult hpc]
    rfl
  | readReply a f r hpc hr => exact Or.inl (h.readReply hpc)
  | readBroken n e f r o stdout held stderr hpc hr hb => exact Or.inr (.broken n e f r o stdout held stderr hpc hr hb)
  | readFail a e hpc hr he => exact Or.inr (.read a e hpc hr he)
  | put n f rest k hpc h0 hn =>
    refine Or.inl (h.of_eq rfl fun fs => ?_)
    simp only [onwards, hpc, State.view, Pc.rest, List.append_assoc, List.take_append_drop]
  | flushed f k hpc =>
    refine Or.inl (h.of_eq (by cases k <;> simp [afterWrite]) fun fs => ?_)
    cases k <;> simp only [onwards, hpc, State.view, Pc.rest, afterWrite, goOn, State.emit, List.append_nil]
  | ioError e hpc => exact Or.inr (.io e)

/-- A task that is done only hears more. -/
theorem step_of_done {a : Action} {r : Outcome} (hpc : s.pc = .done r) (hs : step X E s a = some s') :
    (s.eof = false ∧ ∃ b, s' = { s with received := s.received ++ b, inbuf := s.inbuf ++ b }) ∨
      s' = { s with eof := true } := by
  cases step_cases hs with
  | serverSend b he => exact Or.inl ⟨he, b, rfl⟩
  | serverClose => exact Or.inr rfl
  | ioError e h => rw [hpc] at h; cases h
  | readFail _ e h => rcases h with ⟨_, h⟩ | h | h <;> rw [hpc] at h <;> cases h
  | _ => simp_all

/-! ## Whatever fails -/

/-- A task is at its place in the program, or has failed there. -/
inductive Along (X : Ext) (E : Env) (s : State) : Prop where
  | follows (h : Follows X E s)
  | failed (o : Outcome) (ho : o.Failed) (hpc : s.pc = .done o)
      (h : ∀ fs, s.seen.Begins (plain X E (readsOf s.log ++ fs)))

/-- It fails where it is. -/
theorem Follows.falls {a : Action} (h : Follows X E s) (ht : Told X E s) (hf : Falls X s a s') : Along X E s' := by
  have hb : ∀ fs, s.seen.Begins (plain X E (readsOf s.log ++ fs)) := fun fs => h fs ▸ begins_onwards ht fs
  cases hf with
  | read a e hpc hr he => exact .failed (.err _) trivial rfl fun fs => ⟨(hb fs).out, (hb fs).stdout, (hb fs).stderr⟩
  | io e => exact .failed (.err _) trivial rfl fun fs => ⟨(hb fs).out, (hb fs).stdout, (hb fs).stderr⟩
  | broken n e f r o stdout held stderr hpc hr hbreak =>
    refine .failed o hbreak.failed rfl fun fs => ?_
    -- the program shows all of the reply
    have hnext := begins_onwards (told_readReply ht hr hpc) fs
    rw [← h.readReply hpc fs, handleReply_log, emit_log, readsOf_append] at hnext
    have hout := (hb (f :: fs)).out
    rw [List.append_cons] at hout
    rw [emit_log, readsOf_append]
    exact ⟨hout, hbreak.out.trans hnext.stdout, hbreak.err.trans hnext.stderr⟩

theorem along_step {a : Action} (ht : Told X E s) (h : Along X E s) (hs : step X E s a = some s') : Along X E s' := by
  cases h with
  | follows h =>
    rcases follows_step ht h hs with h | hf
    · exact .follows h
    · exact h.falls ht hf
  | failed o ho hpc h =>
    rcases step_of_done hpc hs with ⟨-, b, rfl⟩ | rfl
    · exact .failed o ho hpc h
    · exact .failed o ho hpc h

theorem along_run {as : List Action} (h : run X E init as = some s) : Told X E s ∧ Along X E s :=
  Lts.run_inv (fun s => Told X E s ∧ Along X E s) (fun _ _ _ hi hs => ⟨told_step hi.1 hs, along_step hi.1 hi.2 hs⟩)
    ⟨told_init, .follows fun _ => rfl⟩ h

/-- The frames on the stream: those read, then those still to be read. -/
theorem Told.readAll (h : Told X E s) : readAll DEFAULT_MAX_PAYLOAD_LEN s.received =
    (readsOf s.log ++ (Sao.readAll DEFAULT_MAX_PAYLOAD_LEN s.inbuf).1,
      (Sao.readAll DEFAULT_MAX_PAYLOAD_LEN s.inbuf).2) := by
  rw [h.stream, readAll_append h.fits]

theorem View.Begins.close {v w : View} (h : v.Begins w) (e : ProtocolError) (eof : Bool) : v.Begins (w.close e eof) := by
  unfold View.close
  split
  · exact h.fail _
  · exact h

/-- A program that has come to its end does not look at the stream any more. -/
theorem View.close_of_outcome {v : View} (hv : v.outcome ≠ none) (e : ProtocolError) (eof : Bool) : v.close e eof = v :=
  if_neg fun h => hv h.1

/-- **Whatever fails, and whenever**: what a client has written and shown begins what the program writes and shows on
the bytes it has received; and a client that has exited has written and shown it all, with the program's exit code. -/
theorem run_begins {as : List Action} (h : run X E init as = some s) :
    s.seen.Begins (plainOn X E s.received s.eof) ∧
      ∀ code, s.pc = .done (.exit code) → plainOn X E s.received s.eof = s.seen := by
  obtain ⟨ht, ha⟩ := along_run h
  have hframes := congrArg Prod.fst ht.readAll
  constructor
  · refine View.Begins.close (hframes ▸ ?_) _ _
    cases ha with
    | follows h => exact h _ ▸ begins_onwards ht _
    | failed o ho hpc h => exact h _
  · intro code hpc
    cases ha with
    | failed o ho hpc' h =>
      rw [hpc] at hpc'
      cases hpc'
      exact ho.elim
    | follows h =>
      have hplain : plain X E (readAll DEFAULT_MAX_PAYLOAD_LEN s.received).1 = s.seen := by
        rw [hframes, h _]
        simp only [onwards, hpc, State.view, State.seen, Pc.rest, List.append_nil]
      rw [plainOn, hplain, View.close_of_outcome (by simp [State.seen, hpc])]

/-! ## When nothing fails -/

/-- An action that is not the failure of a stream. -/
def Action.Calm : Action → Prop
  | .readBroken _ _ | .ioError _ => False
  | _ => True

theorem Action.Quiet.calm {a : Action} (h : a.Quiet) : a.Calm := by
  cases a <;> trivial

/-- A task is at its place in the program, or the stream has failed it there. -/
inductive Sound (X : Ext) (E : Env) (s : State) : Prop where
  | follows (h : Follows X E s)
  | ended (e : ProtocolError) (hpc : s.pc = .done (.err e.display))
      (hr : readFrame DEFAULT_MAX_PAYLOAD_LEN s.inbuf = .error e) (he : e = .unexpectedEof → s.eof = true)
      (h : plain X E (readsOf s.log) = ⟨s.out, s.stdout, s.stderr, none⟩)

theorem onwards_nil (hpc : s.pc.Awaits) : onwards X E s [] = ⟨s.out, s.stdout, s.stderr, none⟩ := by
  rcases hpc with ⟨sk, hpc⟩ | hpc | hpc
  · rw [onwards_awaitChallenge hpc, challenge, view_of_rest (congrArg Pc.rest hpc)]
  · rw [onwards_awaitResult hpc, result, view_of_rest (congrArg Pc.rest hpc)]
  · rw [onwards_replies hpc, replies, view_of_rest (congrArg Pc.rest hpc)]

theorem sound_step {a : Action} (hc : a.Calm) (ht : Told X E s) (h : Sound X E s) (hs : step X E s a = some s') :
    Sound X E s' := by
  cases h with
  | follows h =>
    rcases follows_step ht h hs with h' | hf
    · exact .follows h'
    · cases hf with
      | io e => exact hc.elim
      | broken => exact hc.elim
      | read a e hpc hr he =>
        refine .ended e rfl hr he ?_
        have hplain := h []
        rw [List.append_nil, onwards_nil hpc] at hplain
        exact hplain
  | ended e hpc hr he h =>
    rcases step_of_done hpc hs with ⟨hopen, b, rfl⟩ | rfl
    · have hne : e ≠ .unexpectedEof := by
        intro heof
        rw [he heof] at hopen
        cases hopen
      exact .ended e hpc (readFrame_error_append hr hne b) he h
    · exact .ended e hpc hr (fun _ => rfl) h

theorem Pc.Awaits.step_read (h : s.pc.Awaits) : ∃ handle, step X E s .read = readWith s handle := by
  rcases h with ⟨sk, hpc⟩ | hpc | hpc
  · exact ⟨answerChallenge X sk, by simp only [step, hpc]⟩
  · exact ⟨handleResult X E.shellLine, by simp only [step, hpc]⟩
  · exact ⟨handleReply X, by simp only [step, hpc]⟩

/-- The task can do nothing by itself. -/
def Rests (X : Ext) (E : Env) (s : State) : Prop := Lts.Rests (step X E) Action.Quiet s

/-- A task at rest is done, or waits for a frame on a stream that may go on. -/
theorem Rests.cases (h : Rests X E s) : (∃ r, s.pc = .done r) ∨ (s.pc.Awaits ∧ s.eof = false ∧
    readFrame DEFAULT_MAX_PAYLOAD_LEN s.inbuf = .error .unexpectedEof) := by
  by_cases hdone : ∃ r, s.pc = .done r
  · exact Or.inl hdone
  have haw : s.pc.Awaits := by
    by_contra hnot
    obtain ⟨a, ha, s', hs⟩ :=
      quiet_enabled (X := X) (E := E) (fun r hr => hdone ⟨r, hr⟩) fun haw => absurd haw hnot
    rw [h a ha] at hs
    cases hs
  obtain ⟨handle, hstep⟩ := haw.step_read (X := X) (E := E)
  have hread := h .read trivial
  rw [hstep, readWith] at hread
  split at hread
  · cases hread
  · rename_i e hr
    split at hread
    · rename_i he
      exact Or.inr ⟨haw, he.2, he.1 ▸ hr⟩
    · cases hread

theorem Sound.at_rest (h : Sound X E s) (ht : Told X E s) (hrest : Rests X E s) :
    s.seen = plainOn X E s.received s.eof := by
  have hframes := ht.readAll
  rcases hrest.cases with ⟨r, hpc⟩ | ⟨haw, hopen, hr⟩
  · cases h with
    | follows h =>
      have hplain : plain X E (readAll DEFAULT_MAX_PAYLOAD_LEN s.received).1 = s.seen := by
        rw [hframes, h _]
        simp only [onwards, hpc, State.view, State.seen, Pc.rest, List.append_nil]
      rw [plainOn, hplain, View.close_of_outcome (by simp [State.seen, hpc])]
    | ended e hpc hr he h =>
      have hclosed : e ≠ .unexpectedEof ∨ s.eof = true := by
        by_cases heof : e = .unexpectedEof
        · exact Or.inr (he heof)
        · exact Or.inl heof
      rw [plainOn, hframes, readAll_of_error hr, List.append_nil, h, View.close, if_pos ⟨rfl, hclosed⟩]
      simp only [State.seen, hpc, View.fail]
  · have hseen : s.seen = ⟨s.out, s.stdout, s.stderr, none⟩ := by
      rcases haw with ⟨sk, hpc⟩ | hpc | hpc <;> simp only [State.seen, hpc]
    cases h with
    | follows h =>
      have hplain := h []
      rw [List.append_nil, onwards_nil haw] at hplain
      rw [plainOn, hframes, readAll_of_error hr, List.append_nil, hplain, View.close, if_neg, hseen]
      simp [hopen]
    | ended e hpc hr he h => rcases haw with ⟨sk, hpc'⟩ | hpc' | hpc' <;> rw [hpc] at hpc' <;> cases hpc'

/-- The task's own steps leave what has arrived as it is. -/
theorem run_quiet {as : List Action} (has : ∀ a ∈ as, a.Quiet) (h : run X E s as = some s') :
    s'.received = s.received ∧ s'.eof = s.eof :=
  Lts.run_inv_of Action.Quiet (fun t => t.received = s.received ∧ t.eof = s.eof)
    (fun _ _ _ ha hi hs => ⟨(keeps_step ha.own hs).received.trans hi.1, (keeps_step ha.own hs).eof.trans hi.2⟩)
    has ⟨rfl, rfl⟩ h

/-- **The task computes the program.** A client whose streams do not fail comes to rest, and at rest it has put on the
stream, shown and returned what the program does on the bytes it has received, in whatever pieces they came and
whenever the task ran: it waits where the program waits for more, and is done where the program is. -/
theorem rests_iff (X : Ext) (E : Env) (b : Bytes) (eof : Bool) (v : View) :
    (∃ as s, run X E init as = some s ∧ (∀ a ∈ as, a.Calm) ∧ Rests X E s ∧ s.received = b ∧ s.eof = eof ∧
      s.seen = v) ↔ v = plainOn X E b eof := by
  have hcalm : ∀ {as : List Action} {s : State}, run X E init as = some s → (∀ a ∈ as, a.Calm) →
      Told X E s ∧ Sound X E s := fun hrun hc =>
    Lts.run_inv_of Action.Calm (fun s => Told X E s ∧ Sound X E s)
      (fun _ _ _ ha hi hs => ⟨told_step hi.1 hs, sound_step ha hi.1 hi.2 hs⟩) hc
      ⟨told_init, .follows fun _ => rfl⟩ hrun
  constructor
  · rintro ⟨as, s, hrun, hc, hrest, rfl, rfl, rfl⟩
    obtain ⟨ht, hs⟩ := hcalm hrun hc
    exact hs.at_rest ht hrest
  · rintro rfl
    -- everything arrives at once, and the task runs
    obtain ⟨as, s, hrun, hquiet, hrest⟩ :
        ∃ as s, run X E { init with received := b, inbuf := b, eof := eof } as = some s ∧
          (∀ a ∈ as, a.Quiet) ∧ Lts.Rests (step X E) Action.Quiet s :=
      Lts.run_to_rest State.remaining (fun _ _ _ ha hs => remaining_step ha.own hs) _
    obtain ⟨hr, he⟩ := run_quiet hquiet hrun
    have harrive : ∃ pre : List Action, (∀ a ∈ pre, a.Calm) ∧
        run X E init pre = some { init with received := b, inbuf := b, eof := eof } := by
      cases eof with
      | false => exact ⟨[.serverSend b], by simp [Action.Calm], rfl⟩
      | true => exact ⟨[.serverSend b, .serverClose], by simp [Action.Calm], rfl⟩
    obtain ⟨pre, hpre, harrive⟩ := harrive
    have hrun' : run X E init (pre ++ as) = some s := Lts.run_append.2 ⟨_, harrive, hrun⟩
    have hc : ∀ a ∈ pre ++ as, a.Calm := fun a ha =>
      (List.mem_append.1 ha).elim (hpre a) fun ha => (hquiet a ha).calm
    obtain ⟨ht, hs⟩ := hcalm hrun' hc
    have hseen := hs.at_rest ht hrest
    rw [hr, he] at hseen
    exact ⟨_, s, hrun', hc, hrest, hr, he, hseen⟩

end Sao.ClientSession
