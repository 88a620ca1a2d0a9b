import Sao.Server.Grammar
import Sao.Server.PrefixSafety

/-!
# The audit trail of a session

`session.rs` emits its events of target `sao::audit` right behind a `write_frame(..).await?`, in the same poll, so
that a record is written exactly when the frame before it has been flushed. Which record that will be is settled
where the frame is begun; a timeout that drops `exec` drops its record with it.

| here | there |
| --- | --- |
| `authRecord`    | the records of `UNKNOWN_KEY`, `BAD_SIGNATURE` and `auth ok` |
| `requestRecord` | the record of `POLICY_DENIED`, with `shell_preview` |
| `Audited.next`  | the `tracing` call behind the frame that is being written |
| `Books`         | the records as a ledger: one for each request that is done with |

* `ledger_step` — every step keeps the ledger and the session in line, whatever fails and wherever a timeout strikes.
* `audit_trail` — so the trail of every run is known from what was read, spawned and written.
* `audit_spawned` — every command but the last one has its record, and the last one too once the session goes on.
-/

namespace Sao.Session

open MsgType State

variable {X : Ext}

/-! ## Records -/

/-- Each of them also has the session id. -/
inductive Record where
  /-- `auth failed`, with the fingerprint of the response. -/
  | unknownKey (fingerprint : Str)
  | badSignature
  | authOk (fingerprint : Str)
  | policyDenied (shellPreview : Str)
  /-- `exec done` -/
  | execDone (exitCode : Int32)
  | execTimeout
deriving DecidableEq

variable (E : Env)

def authRecord (keys : List (AuthorizedKey X)) (resp : Frame) : Option Record :=
  if resp.msgType ≠ AUTH_RESPONSE then none
  else match X.authResponse resp.payload with
    | .error _ => none
    | .ok ar =>
      if ar.keyType ≠ KEY_TYPE_ED25519 then none
      else match findKey X keys ar.fingerprint with
        | none => some (.unknownKey ar.fingerprint)
        | some entry =>
          match verifyEd25519Signature X entry.verifyingKey (signingBytes E.nonce.1 E.sessionId) ar.signature with
          | .error _ => some .badSignature
          | .ok () => some (.authOk entry.fingerprintHex)

/-- `shell.chars().take(80)` -/
def shellPreview (shell : Str) : Str := shell.take 80

def requestRecord (X : Ext) (E : Env) (f : Frame) : Option Record :=
  if f.msgType = EXEC_SHELL then
    match X.execShell f.payload with
    | .error _ => none
    | .ok shell =>
      match checkShell X E.config.policy shell with
      | .error (.policyDenied _) => some (.policyDenied (shellPreview shell))
      | _ => none
  else none

/-- A session with its trail. -/
structure Audited (X : Ext) where
  session : State X
  /-- What is recorded when the frame that is being written has been flushed. -/
  next : Option Record
  trail : List Record

namespace Audited

def init (X : Ext) : Audited X := ⟨Session.init X, none, []⟩

/-- The record of the frame that is begun by the action, or of the one that is still being written. -/
def nextRecord (s : Audited X) (a : Action) : Option Record :=
  match a with
  | .read =>
    match s.session.pc, readFrame DEFAULT_MAX_PAYLOAD_LEN s.session.inbuf with
    | .awaitAuth, .ok (f, _) => authRecord E s.session.keys f
    | .serve, .ok (f, _) => requestRecord X E f
    | _, _ => none
  | .waitOk => (s.session.child.bind Child.status).map fun code => .execDone (code.getD (-1))
  | .timeout => some .execTimeout
  | .flushed => none
  | _ => s.next

def recorded (s : Audited X) (a : Action) : List Record :=
  match a with
  | .flushed => s.trail ++ s.next.toList
  | _ => s.trail

def step (s : Audited X) (a : Action) : Option (Audited X) :=
  (Session.step E s.session a).map fun t => ⟨t, s.nextRecord E a, s.recorded a⟩

def run (s : Audited X) (as : List Action) : Option (Audited X) := Lts.run (step E) s as

end Audited

/-! ## The ledger -/

/-- The frames that end something: all but those of a command's output. -/
def concludes (f : Frame) : Bool := f.msgType ≠ STREAM_STDOUT && f.msgType ≠ STREAM_STDERR

/-- Those that have been flushed, in order. -/
def conclusions (log : List (Event X)) : List Frame := (wrotesOf log).filter concludes

/-- Requests that are done with, their commands, the frames that say so, and the records. -/
inductive Entries (X : Ext) (E : Env) : List Frame → List Child → List Frame → List Record → Prop where
  | nil : Entries X E [] [] [] []
  | denied {reqs : List Frame} {cs : List Child} {told : List Frame} {rs : List Record} {req g : Frame} {shell : Str}
      (h : Entries X E reqs cs told rs) (hs : X.execShell req.payload = .ok shell) (hr : reaction X E req = .deny g) :
      Entries X E (reqs ++ [req]) cs (told ++ [g]) (rs ++ [.policyDenied (shellPreview shell)])
  | done {reqs : List Frame} {cs : List Child} {told : List Frame} {rs : List Record} {req : Frame} {c : Child}
      {st : Option Int32} (h : Entries X E reqs cs told rs) (hr : reaction X E req = .run c.argv) (hg : c.sendersGone)
      (hst : c.status = some st) : Entries X E (reqs ++ [req]) (cs ++ [c]) (told ++ [exitFrame (st.getD (-1))])
        (rs ++ [.execDone (st.getD (-1))])
  | timedOut {reqs : List Frame} {cs : List Child} {told : List Frame} {rs : List Record} {req : Frame} {c : Child}
      (h : Entries X E reqs cs told rs) (hr : reaction X E req = .run c.argv) :
      Entries X E (reqs ++ [req]) (cs ++ [c]) (told ++ [exitFrame 124]) (rs ++ [.execTimeout])

variable (keys : List (AuthorizedKey X))

/-- The response was accepted, and all that was read after it is done with: what was read, the commands, the frames
that conclude, and the trail. -/
inductive Books : List Frame → List Child → List Frame → List Record → Prop where
  | mk {resp : Frame} {entry : AuthorizedKey X} {signature : Str} {reqs : List Frame} {cs : List Child}
      {told : List Frame} {rs : List Record} (ha : authReaction E keys resp = .accept entry signature)
      (h : Entries X E reqs cs told rs) :
      Books (resp :: reqs) cs (greeting E entry ++ told) (.authOk entry.fingerprintHex :: rs)

/-- What the trail says, wherever a session has got to or has ended. -/
inductive Trail : List Frame → List Child → List Frame → List Record → Prop where
  | silent {told : List Frame} (h : told <+: [challenge E]) : Trail [] [] told []
  /-- The response is not answered, or the answer not yet flushed. -/
  | heard {resp : Frame} : Trail [resp] [] [challenge E] []
  | refused {resp f : Frame} (hr : authReaction E keys resp = .refuse f) :
    Trail [resp] [] [challenge E, f] (authRecord E keys resp).toList
  | settled {reads told : List Frame} {cs : List Child} {trail : List Record} (h : Books E keys reads cs told trail) :
    Trail reads cs told trail
  | asked {reads told : List Frame} {cs : List Child} {trail : List Record} {req : Frame}
      (h : Books E keys reads cs told trail) : Trail (reads ++ [req]) cs told trail
  | rejected {reads told : List Frame} {cs : List Child} {trail : List Record} {req f : Frame}
      (h : Books E keys reads cs told trail) (hr : reaction X E req = .refuse f) :
      Trail (reads ++ [req]) cs (told ++ [f]) trail
  /-- The command is running, or the session has ended before it was done with. -/
  | running {reads told : List Frame} {cs : List Child} {trail : List Record} {req : Frame} {c : Child}
      (h : Books E keys reads cs told trail) (hr : reaction X E req = .run c.argv) :
      Trail (reads ++ [req]) (cs ++ [c]) told trail

/-- The ledger at each suspension point, with the record that is next. -/
inductive Ledger : Pc → Option Record → List Frame → List Child → List Frame → List Record → Prop where
  | opening : Ledger .start none [] [] [] []
  | challenging {rest : Bytes} : Ledger (.write (challenge E) rest .authResponse) none [] [] [] []
  | challenged : Ledger .awaitAuth none [] [] [challenge E] []
  | refusing {resp f : Frame} {rest : Bytes} (hr : authReaction E keys resp = .refuse f) :
    Ledger (.write f rest .finish) (authRecord E keys resp) [resp] [] [challenge E] []
  | greeting {resp : Frame} {entry : AuthorizedKey X} {signature : Str} {rest : Bytes}
      (ha : authReaction E keys resp = .accept entry signature) :
      Ledger (.write (authOk E entry) rest .authOk) (some (.authOk entry.fingerprintHex)) [resp] [] [challenge E] []
  | idle {reads told : List Frame} {cs : List Child} {trail : List Record} (h : Books E keys reads cs told trail) :
    Ledger .serve none reads cs told trail
  | denying {reads told : List Frame} {cs : List Child} {trail : List Record} {req g : Frame} {shell : Str}
      {rest : Bytes} (h : Books E keys reads cs told trail) (hs : X.execShell req.payload = .ok shell)
      (hr : reaction X E req = .deny g) : Ledger (.write g rest .serve) (some (.policyDenied (shellPreview shell)))
        (reads ++ [req]) cs told trail
  | rejecting {reads told : List Frame} {cs : List Child} {trail : List Record} {req f : Frame} {rest : Bytes}
      (h : Books E keys reads cs told trail) (hr : reaction X E req = .refuse f) :
      Ledger (.write f rest .finish) none (reads ++ [req]) cs told trail
  | spawning {reads told : List Frame} {cs : List Child} {trail : List Record} {req : Frame} {argv : List Str}
      (h : Books E keys reads cs told trail) (hr : reaction X E req = .run argv) :
      Ledger (.spawning argv) none (reads ++ [req]) cs told trail
  | running {reads told : List Frame} {cs : List Child} {trail : List Record} {req : Frame} {c : Child}
      (h : Books E keys reads cs told trail) (hr : reaction X E req = .run c.argv) :
      Ledger .recv none (reads ++ [req]) (cs ++ [c]) told trail
  | forwarding {reads told : List Frame} {cs : List Child} {trail : List Record} {req : Frame} {c : Child}
      {ch : StreamChunk} {rest : Bytes} (h : Books E keys reads cs told trail) (hr : reaction X E req = .run c.argv) :
      Ledger (.write (chunkFrame ch) rest .forward) none (reads ++ [req]) (cs ++ [c]) told trail
  | waiting {reads told : List Frame} {cs : List Child} {trail : List Record} {req : Frame} {c : Child}
      (h : Books E keys reads cs told trail) (hr : reaction X E req = .run c.argv) (hg : c.sendersGone) :
      Ledger .wait none (reads ++ [req]) (cs ++ [c]) told trail
  | exiting {reads told : List Frame} {cs : List Child} {trail : List Record} {req : Frame} {c : Child}
      {st : Option Int32} {rest : Bytes} (h : Books E keys reads cs told trail)
      (hr : reaction X E req = .run c.argv) (hg : c.sendersGone) (hst : c.status = some st) :
      Ledger (.write (exitFrame (st.getD (-1))) rest .execEnd) (some (.execDone (st.getD (-1)))) (reads ++ [req])
        (cs ++ [c]) told trail
  | timingOut {reads told : List Frame} {cs : List Child} {trail : List Record} {req : Frame} {c : Child}
      {rest : Bytes} (h : Books E keys reads cs told trail) (hr : reaction X E req = .run c.argv) :
      Ledger (.write (exitFrame 124) rest .timedOut) (some .execTimeout) (reads ++ [req]) (cs ++ [c]) told trail
  | ended {next : Option Record} {r : Except Str Unit} {reads told : List Frame} {cs : List Child}
      {trail : List Record} (h : Trail E keys reads cs told trail) : Ledger (.done r) next reads cs told trail

variable {E} {keys}

/-! ## What is begun, and its record -/

theorem authRecord_accept {resp : Frame} {entry : AuthorizedKey X} {signature : Str}
    (h : authReaction E keys resp = .accept entry signature) :
    authRecord E keys resp = some (.authOk entry.fingerprintHex) := by
  have hok : authenticate E keys resp = .ok entry signature := by
    unfold authReaction at h
    split at h
    · cases h
    · cases h
    · cases h
    · rename_i hok
      cases h
      exact hok
  obtain ⟨ar, ⟨hmt, har, hkt, hfind, hver⟩, -⟩ := authenticate_ok_iff.1 hok
  unfold authRecord
  simp only [hmt, har, hkt, hfind, hver, ne_eq, not_true_eq_false, if_false]

theorem requestRecord_denied {req : Frame} {shell msg : Str} (hmt : req.msgType = EXEC_SHELL)
    (hs : X.execShell req.payload = .ok shell) (hc : checkShell X E.config.policy shell = .error (.policyDenied msg)) :
    requestRecord X E req = some (.policyDenied (shellPreview shell)) := by
  unfold requestRecord
  rw [if_pos hmt]
  simp only [hs, hc]

theorem requestRecord_deny {req g : Frame} (h : reaction X E req = .deny g) : ∃ shell,
    X.execShell req.payload = .ok shell ∧ requestRecord X E req = some (.policyDenied (shellPreview shell)) := by
  unfold reaction at h
  split at h
  · rename_i hmt
    split at h
    · cases h
    · rename_i shell hs
      split at h
      · rename_i hc
        exact ⟨shell, hs, requestRecord_denied hmt hs hc⟩
      · split at h <;> cases h
  · cases h

/-- Nothing is recorded of other requests until something has become of them. -/
theorem requestRecord_none {req : Frame} (h : ∀ g, reaction X E req ≠ .deny g) : requestRecord X E req = none := by
  unfold reaction at h
  unfold requestRecord
  split
  · rename_i hmt
    rw [if_pos hmt] at h
    split
    · rfl
    · rename_i shell hs
      simp only [hs] at h
      split
      · rename_i msg hc
        simp only [hc] at h
        exact absurd rfl (h _)
      · rfl
  · rfl

theorem concludes_chunkFrame (ch : StreamChunk) : concludes (chunkFrame ch) = false := by
  obtain ⟨fd, data⟩ := ch
  cases fd <;> rfl

theorem concludes_deny {req g : Frame} (h : reaction X E req = .deny g) : concludes g = true := by
  obtain ⟨-, msg, rfl⟩ := reaction_deny h
  rfl

theorem concludes_refuse {req g : Frame} (h : reaction X E req = .refuse g) : concludes g = true := by
  obtain ⟨code, message, rfl⟩ := reaction_refuse h
  rfl

theorem concludes_authRefuse {resp g : Frame} (h : authReaction E keys resp = .refuse g) : concludes g = true := by
  rcases authReaction_refuse h with ⟨code, message, rfl⟩ | ⟨reason, message, rfl⟩ <;> rfl

/-! ## The commands in the ledger -/

variable {reads told : List Frame} {cs cs' : List Child} {rs trail : List Record} {next : Option Record}
  {pc : Pc}

theorem Evolves.sendersGone {c c' : Child} (h : Evolves c c') (hg : c.sendersGone) : c'.sendersGone := by
  cases h with
  | refl => exact hg
  | step hs =>
    obtain ⟨new, -, -, -, hnew⟩ := Child.step_sends hs
    exact (hnew hg).1
  | dropRx => exact hg

theorem Evolves.status {c c' : Child} {st : Option Int32} (h : Evolves c c') (hst : c.status = some st) :
    c'.status = some st := by
  cases h with
  | refl => exact hst
  | step hs => exact (Child.step_keeps hs).2.2 st hst
  | dropRx => exact hst

theorem Entries.evolves {reqs : List Frame} (h : Entries X E reqs cs told rs) (he : List.Forall₂ Evolves cs cs') :
    Entries X E reqs cs' told rs := by
  induction h generalizing cs' with
  | nil =>
    cases he
    exact .nil
  | denied h hs hr ih => exact .denied (ih he) hs hr
  | done h hr hg hst ih =>
    obtain ⟨cs₁, c', rfl, hcs, hc'⟩ := forall₂_snoc he
    refine .done (ih hcs) (hc'.argv ▸ hr) (hc'.sendersGone hg) (hc'.status hst)
  | timedOut h hr ih =>
    obtain ⟨cs₁, c', rfl, hcs, hc'⟩ := forall₂_snoc he
    exact .timedOut (ih hcs) (hc'.argv ▸ hr)

theorem Books.evolves (h : Books E keys reads cs told trail) (he : List.Forall₂ Evolves cs cs') :
    Books E keys reads cs' told trail := by
  cases h with
  | mk ha h => exact .mk ha (h.evolves he)

theorem Trail.evolves (h : Trail E keys reads cs told trail) (he : List.Forall₂ Evolves cs cs') :
    Trail E keys reads cs' told trail := by
  cases h with
  | silent h => cases he; exact .silent h
  | heard => cases he; exact .heard
  | refused hr => cases he; exact .refused hr
  | settled h => exact .settled (h.evolves he)
  | asked h => exact .asked (h.evolves he)
  | rejected h hr => exact .rejected (h.evolves he) hr
  | running h hr =>
    obtain ⟨cs₁, c', rfl, hcs, hc'⟩ := forall₂_snoc he
    exact .running (h.evolves hcs) (hc'.argv ▸ hr)

theorem Ledger.evolves (h : Ledger E keys pc next reads cs told trail) (he : List.Forall₂ Evolves cs cs') :
    Ledger E keys pc next reads cs' told trail := by
  cases h with
  | opening => cases he; exact .opening
  | challenging => cases he; exact .challenging
  | challenged => cases he; exact .challenged
  | refusing hr => cases he; exact .refusing hr
  | greeting ha => cases he; exact .greeting ha
  | idle h => exact .idle (h.evolves he)
  | denying h hs hr => exact .denying (h.evolves he) hs hr
  | rejecting h hr => exact .rejecting (h.evolves he) hr
  | spawning h hr => exact .spawning (h.evolves he) hr
  | running h hr =>
    obtain ⟨cs₁, c', rfl, hcs, hc'⟩ := forall₂_snoc he
    exact .running (h.evolves hcs) (hc'.argv ▸ hr)
  | forwarding h hr =>
    obtain ⟨cs₁, c', rfl, hcs, hc'⟩ := forall₂_snoc he
    exact .forwarding (h.evolves hcs) (hc'.argv ▸ hr)
  | waiting h hr hg =>
    obtain ⟨cs₁, c', rfl, hcs, hc'⟩ := forall₂_snoc he
    exact .waiting (h.evolves hcs) (hc'.argv ▸ hr) (hc'.sendersGone hg)
  | exiting h hr hg hst =>
    obtain ⟨cs₁, c', rfl, hcs, hc'⟩ := forall₂_snoc he
    exact .exiting (h.evolves hcs) (hc'.argv ▸ hr) (hc'.sendersGone hg) (hc'.status hst)
  | timingOut h hr =>
    obtain ⟨cs₁, c', rfl, hcs, hc'⟩ := forall₂_snoc he
    exact .timingOut (h.evolves hcs) (hc'.argv ▸ hr)
  | ended h => exact .ended (h.evolves he)

/-- What can be said at each suspension point. -/
theorem Ledger.tells (h : Ledger E keys pc next reads cs told trail) : Trail E keys reads cs told trail := by
  cases h with
  | opening => exact .silent List.nil_prefix
  | challenging => exact .silent List.nil_prefix
  | challenged => exact .silent (List.prefix_refl _)
  | refusing hr => exact .heard
  | greeting ha => exact .heard
  | idle h => exact .settled h
  | denying h hs hr => exact .asked h
  | rejecting h hr => exact .asked h
  | spawning h hr => exact .asked h
  | running h hr => exact .running h hr
  | forwarding h hr => exact .running h hr
  | waiting h hr hg => exact .running h hr
  | exiting h hr hg hst => exact .running h hr
  | timingOut h hr => exact .running h hr
  | ended h => exact h

/-! ## Transitions of the ledger -/

section Transitions

variable {f : Frame} {k : Cont} {rest : Bytes}

theorem Ledger.put (h : Ledger E keys (.write f rest k) next reads cs told trail) (rest' : Bytes) :
    Ledger E keys (.write f rest' k) next reads cs told trail := by
  cases h with
  | challenging => exact .challenging
  | refusing hr => exact .refusing hr
  | greeting ha => exact .greeting ha
  | denying h hs hr => exact .denying h hs hr
  | rejecting h hr => exact .rejecting h hr
  | forwarding h hr => exact .forwarding h hr
  | exiting h hr hg hst => exact .exiting h hr hg hst
  | timingOut h hr => exact .timingOut h hr

/-- Behind the request that is done with, the ledger is settled again. -/
theorem Books.snoc {req g : Frame} {r : Record} {new : List Child} (h : Books E keys reads cs told trail)
    (hentry : ∀ {reqs told rs}, Entries X E reqs cs told rs →
      Entries X E (reqs ++ [req]) (cs ++ new) (told ++ [g]) (rs ++ [r])) :
    Books E keys (reads ++ [req]) (cs ++ new) (told ++ [g]) (trail ++ [r]) := by
  cases h with
  | mk ha h =>
    rw [List.cons_append, List.cons_append, List.append_assoc]
    exact .mk ha (hentry h)

/-- The point behind a frame that has been flushed. -/
def Cont.goesOn : Cont → Pc
  | .authResponse => .awaitAuth
  | .authOk | .serve | .execEnd | .timedOut => .serve
  | .forward => .recv
  | .finish => .done (.ok ())

/-- **A flushed frame and its record enter the books together.** -/
theorem Ledger.flushed (h : Ledger E keys (.write f [] k) next reads cs told trail) :
    Ledger E keys k.goesOn none reads cs (told ++ [f].filter concludes) (trail ++ next.toList) := by
  cases h with
  | challenging => exact .challenged
  | refusing hr =>
    rw [List.filter_singleton, concludes_authRefuse hr]
    exact .ended (.refused hr)
  | greeting ha => exact .idle (.mk ha .nil)
  | @denying reads told cs trail req _ shell _ h hs hr =>
    rw [List.filter_singleton, concludes_deny hr]
    have hbooks : Books E keys (reads ++ [req]) (cs ++ []) (told ++ [f]) (trail ++ [.policyDenied (shellPreview shell)]) :=
      h.snoc fun he => by rw [List.append_nil]; exact .denied he hs hr
    rw [List.append_nil] at hbooks
    exact .idle hbooks
  | rejecting h hr =>
    rw [List.filter_singleton, concludes_refuse hr, Option.toList_none, List.append_nil]
    exact .ended (.rejected h hr)
  | forwarding h hr =>
    rw [List.filter_singleton, concludes_chunkFrame, Option.toList_none, List.append_nil, cond_false, List.append_nil]
    exact .running h hr
  | exiting h hr hg hst => exact .idle (h.snoc fun he => .done he hr hg hst)
  | timingOut h hr => exact .idle (h.snoc fun he => .timedOut he hr)

theorem Ledger.of_awaitAuth (h : Ledger E keys .awaitAuth next reads cs told trail) :
    reads = [] ∧ cs = [] ∧ told = [challenge E] ∧ trail = [] := by
  cases h
  exact ⟨rfl, rfl, rfl, rfl⟩

theorem Ledger.of_serve (h : Ledger E keys .serve next reads cs told trail) : Books E keys reads cs told trail := by
  cases h with
  | idle h => exact h

theorem Ledger.spawned {argv : List Str} (h : Ledger E keys (.spawning argv) next reads cs told trail) :
    Ledger E keys .recv none reads (cs ++ [Child.spawn argv]) told trail := by
  cases h with
  | spawning h hr => exact .running h hr

/-- A session that goes on and writes nothing has no record to come. -/
theorem Ledger.next_none (h : Ledger E keys pc next reads cs told trail) (hpc : pc.activity.isSome = true)
    (hb : pc.begun = []) : next = none := by
  cases h with
  | opening => rfl
  | challenged => rfl
  | idle h => rfl
  | spawning h hr => rfl
  | running h hr => rfl
  | waiting h hr hg => rfl
  | ended h => cases hpc
  | _ => cases hb

/-- While `exec` runs, the books are closed on all but the command it runs. -/
theorem Ledger.of_inExec (h : Ledger E keys pc next reads cs told trail) (hpc : pc.inExec = true) :
    ∃ reads₀ req cs₀ c, reads = reads₀ ++ [req] ∧ cs = cs₀ ++ [c] ∧ Books E keys reads₀ cs₀ told trail ∧
      reaction X E req = .run c.argv := by
  cases h with
  | running h hr => exact ⟨_, _, _, _, rfl, rfl, h, hr⟩
  | forwarding h hr => exact ⟨_, _, _, _, rfl, rfl, h, hr⟩
  | waiting h hr hg => exact ⟨_, _, _, _, rfl, rfl, h, hr⟩
  | exiting h hr hg hst => exact ⟨_, _, _, _, rfl, rfl, h, hr⟩
  | _ => cases hpc

end Transitions

/-! ## The session and its ledger -/

/-- The ledger is about this state. -/
def InLine (E : Env) (s : State X) (next : Option Record) (trail : List Record) : Prop :=
  Ledger E s.keys s.pc next (readsOf s.log) (children s) (conclusions s.log) trail

variable {s : State X}

theorem inLine_finish (h : Trail E s.keys (readsOf s.log) (children s) (conclusions s.log) trail)
    (r : Except Str Unit) (next : Option Record) : InLine E (s.finish r) next trail :=
  .ended (h.evolves (children_dropRx s))

/-- A frame is begun, or the session ends with what it has. -/
theorem inLine_beginWrite {f : Frame} {k : Cont} (h : Ledger E s.keys (.write f (encode f) k) next (readsOf s.log)
    (children s) (conclusions s.log) trail) : InLine E (s.beginWrite f k) next trail := by
  rcases beginWrite_cases s f k with ⟨-, heq⟩ | ⟨e, heq⟩ <;> rw [heq]
  · exact h
  · exact inLine_finish h.tells _ _

theorem inLine_start (h : InLine E s next trail) (hpc : s.pc = .start) : InLine E (start E s) none trail := by
  have hnone : readsOf s.log = [] ∧ children s = [] ∧ conclusions s.log = [] ∧ trail = [] := by
    unfold InLine at h
    rw [hpc] at h
    generalize readsOf s.log = reads, children s = cs, conclusions s.log = told at h
    cases h
    exact ⟨rfl, rfl, rfl, rfl⟩
  obtain ⟨hreads, hcs, htold, rfl⟩ := hnone
  unfold Session.start
  cases loadAuthorizedKeys X E.authorizedKeys with
  | error e => exact inLine_finish h.tells _ _
  | ok keys =>
    refine inLine_beginWrite ?_
    show Ledger E keys _ none (readsOf s.log) (children s) (conclusions s.log) []
    rw [hreads, hcs, htold]
    exact .challenging

theorem inLine_readAuth (h : InLine E s next trail) (hpc : s.pc = .awaitAuth) (f : Frame) (r : Bytes) :
    InLine E (handleAuth E ({ s with inbuf := r }.emit (.read f)) f) (authRecord E s.keys f) trail := by
  unfold InLine at h
  rw [hpc] at h
  obtain ⟨hreads, hcs, htold, rfl⟩ := h.of_awaitAuth
  generalize ht : State.emit { s with inbuf := r } (.read f) = t
  have hkt : t.keys = s.keys := by rw [← ht]; rfl
  have hrt : readsOf t.log = [f] := by rw [← ht]; simp [hreads]
  have hct : children t = [] := by rw [← ht]; exact hcs
  have hwt : conclusions t.log = [challenge E] := by rw [← ht]; simpa [conclusions] using htold
  rw [handleAuth_reaction, hkt]
  cases hre : authReaction E s.keys f with
  | accept entry signature =>
    refine inLine_beginWrite ?_
    show Ledger E t.keys _ _ (readsOf (t.log ++ [_])) (children t) (conclusions (t.log ++ [_])) []
    have hsame : conclusions (t.log ++ [.authed entry signature]) = conclusions t.log := by simp [conclusions]
    rw [hsame, readsOf_append, readsOf_authed, readsOf_nil, List.append_nil, hkt, hrt, hct, hwt, authRecord_accept hre]
    exact .greeting hre
  | refuse g =>
    refine inLine_beginWrite ?_
    rw [hkt, hrt, hct, hwt]
    exact .refusing hre
  | fail e =>
    refine inLine_finish ?_ _ _
    rw [hkt, hrt, hct, hwt]
    exact .heard

theorem inLine_readServe (h : InLine E s next trail) (hpc : s.pc = .serve) (f : Frame) (r : Bytes) :
    InLine E (handleFrame E ({ s with inbuf := r }.emit (.read f)) f) (requestRecord X E f) trail := by
  unfold InLine at h
  rw [hpc] at h
  have hbooks := h.of_serve
  generalize ht : State.emit { s with inbuf := r } (.read f) = t
  have hkt : t.keys = s.keys := by rw [← ht]; rfl
  have hrt : readsOf t.log = readsOf s.log ++ [f] := by rw [← ht]; simp
  have hct : children t = children s := by rw [← ht]; rfl
  have hwt : conclusions t.log = conclusions s.log := by rw [← ht]; simp [conclusions]
  rw [handleFrame_reaction]
  cases hre : reaction X E f with
  | deny g =>
    obtain ⟨shell, hs, hrec⟩ := requestRecord_deny hre
    refine inLine_beginWrite ?_
    rw [hkt, hrt, hct, hwt, hrec]
    exact .denying hbooks hs hre
  | run argv =>
    rw [requestRecord_none (by rw [hre]; nofun)]
    show Ledger E t.keys (.spawning argv) none (readsOf t.log) (children t) (conclusions t.log) trail
    rw [hkt, hrt, hct, hwt]
    exact .spawning hbooks hre
  | refuse g =>
    rw [requestRecord_none (by rw [hre]; nofun)]
    refine inLine_beginWrite ?_
    rw [hkt, hrt, hct, hwt]
    exact .rejecting hbooks hre
  | fail e =>
    refine inLine_finish ?_ _ _
    rw [hkt, hrt, hct, hwt]
    exact .asked hbooks

theorem inLine_flushed (h : InLine E s next trail) {f : Frame} {k : Cont} (hpc : s.pc = .write f [] k) :
    InLine E (afterWrite s f k) none (trail ++ next.toList) := by
  unfold InLine at h
  rw [hpc] at h
  have hconc : conclusions (s.emit (.wrote f)).log = conclusions s.log ++ [f].filter concludes := by simp [conclusions]
  have hreads : readsOf (s.emit (.wrote f)).log = readsOf s.log := by simp
  have hkeys : (afterWrite s f k).keys = s.keys := by cases k <;> rfl
  have hlog : (afterWrite s f k).log = (s.emit (.wrote f)).log := by cases k <;> rfl
  have hgo : (afterWrite s f k).pc = k.goesOn := by cases k <;> rfl
  have hcs : List.Forall₂ Evolves (children s) (children (afterWrite s f k)) := by
    cases k with
    | finish => exact children_dropRx _
    | execEnd => exact children_dropRx _
    | timedOut => exact children_dropRx _
    | _ => exact evolves_refl _
  unfold InLine
  rw [hkeys, hgo, hlog, hreads, hconc]
  exact h.flushed.evolves hcs

/-- The last command spawned is the one `exec` runs. -/
theorem child_last {c c' : Child} {cs₀ : List Child} (hc : s.child = some c) (h : children s = cs₀ ++ [c']) :
    c' = c ∧ cs₀ = s.leftover := by
  rw [children, hc] at h
  obtain ⟨hl, hlast⟩ := List.append_inj' (show s.leftover ++ [c] = cs₀ ++ [c'] from h) rfl
  rw [List.cons.injEq] at hlast
  exact ⟨hlast.1.symm, hl.symm⟩

theorem inLine_recv (h : InLine E s next trail) {c : Child} {ch : StreamChunk} {q : List StreamChunk}
    (hpc : s.pc = .recv) (hc : s.child = some c) :
    InLine E ({ s with child := some { c with queue := q } }.beginWrite (chunkFrame ch) .forward) none trail := by
  obtain ⟨reads₀, req, cs₀, c₀, hreads, hcs, hbooks, hr⟩ := h.of_inExec (by rw [hpc]; rfl)
  obtain ⟨rfl, rfl⟩ := child_last hc hcs
  refine inLine_beginWrite ?_
  show Ledger E s.keys _ none (readsOf s.log) (s.leftover ++ [{ c₀ with queue := q }]) (conclusions s.log) trail
  rw [hreads]
  exact .forwarding hbooks hr

theorem inLine_waitOk (h : InLine E s next trail) {c : Child} {st : Option Int32} (hpc : s.pc = .wait)
    (hc : s.child = some c) (hst : c.status = some st) :
    InLine E ((s.emit .reaped).beginWrite (exitFrame (st.getD (-1))) .execEnd) (some (.execDone (st.getD (-1)))) trail := by
  have hgone : c.sendersGone := by
    unfold InLine at h
    rw [hpc] at h
    generalize hcs : children s = cs, readsOf s.log = reads at h
    cases h with
    | waiting h hr hg => exact (child_last hc hcs).1 ▸ hg
  obtain ⟨reads₀, req, cs₀, c₀, hreads, hcs, hbooks, hr⟩ := h.of_inExec (by rw [hpc]; rfl)
  obtain ⟨rfl, -⟩ := child_last hc hcs
  have hconc : conclusions (s.emit .reaped).log = conclusions s.log := by simp [conclusions]
  have hrd : readsOf (s.emit .reaped).log = readsOf s.log := by simp
  refine inLine_beginWrite ?_
  show Ledger E s.keys _ _ (readsOf (s.emit .reaped).log) (children s) (conclusions (s.emit .reaped).log) trail
  rw [hrd, hconc, hreads, hcs]
  exact .exiting hbooks hr hgone hst

theorem inLine_timeout (h : InLine E s next trail) (hpc : s.pc.inExec = true) :
    InLine E (timeout s) (some .execTimeout) trail := by
  obtain ⟨reads₀, req, cs₀, c₀, hreads, hcs, hbooks, hr⟩ := h.of_inExec hpc
  have hconc : conclusions (s.emit (.killed s.pc)).log = conclusions s.log := by simp [conclusions]
  have hrd : readsOf (s.emit (.killed s.pc)).log = readsOf s.log := by simp
  refine inLine_beginWrite ?_
  show Ledger E s.keys _ _ (readsOf (s.emit (.killed s.pc)).log) (children s) (conclusions (s.emit (.killed s.pc)).log) trail
  rw [hrd, hconc, hreads, hcs]
  exact .timingOut hbooks hr

/-! ## Runs -/

/-- **One step**, whatever fails. -/
theorem ledger_step {s s' : Audited X} {a : Action} (h : InLine E s.session s.next s.trail)
    (hs : s.step E a = some s') : InLine E s'.session s'.next s'.trail := by
  obtain ⟨t, ht, rfl⟩ := Option.map_eq_some_iff.1 hs
  have hended : ∀ (r : Except Str Unit) (next : Option Record), InLine E (s.session.finish r) next s.trail := fun r next =>
    inLine_finish h.tells r next
  cases step_cases ht with
  | clientSend b he => exact h
  | clientClose => exact h
  | child a c c' hc hstep =>
    refine Ledger.evolves h ?_
    unfold children
    rw [hc]
    exact evolves_append (evolves_refl _) (.cons (.step hstep) .nil)
  | leftover i a c c' hc hstep => exact Ledger.evolves h (evolves_append (evolves_set hc (.step hstep)) (evolves_refl _))
  | start hpc =>
    have hnext : s.next = none := h.next_none (by rw [hpc]; rfl) (by rw [hpc]; rfl)
    simpa only [Audited.nextRecord, Audited.recorded, hnext] using inLine_start h hpc
  | readAuth f r hpc hr => simpa only [Audited.nextRecord, Audited.recorded, hpc, hr] using inLine_readAuth h hpc f r
  | readServe f r hpc hr => simpa only [Audited.nextRecord, Audited.recorded, hpc, hr] using inLine_readServe h hpc f r
  | readFail r e hpc hr he => exact hended r _
  | put n f rest k hpc h0 hn =>
    unfold InLine at h
    rw [hpc] at h
    exact h.put _
  | flushed f k hpc => exact inLine_flushed h hpc
  | ioError e hpc => exact hended _ _
  | spawnOk argv hpc =>
    have hnext : s.next = none := h.next_none (by rw [hpc]; rfl) (by rw [hpc]; rfl)
    have hconc : conclusions (spawned s.session argv).log = conclusions s.session.log := by simp [conclusions, spawned]
    have hrd : readsOf (spawned s.session argv).log = readsOf s.session.log := by simp [spawned]
    unfold InLine at h
    rw [hpc] at h
    show Ledger E s.session.keys .recv s.next (readsOf (spawned s.session argv).log) _
      (conclusions (spawned s.session argv).log) s.trail
    rw [hrd, hconc, hnext]
    exact h.spawned
  | spawnErr e argv hpc => exact hended _ _
  | recv c ch q hpc hc hq =>
    have hnext : s.next = none := h.next_none (by rw [hpc]; rfl) (by rw [hpc]; rfl)
    simpa only [Audited.nextRecord, Audited.recorded, hnext] using inLine_recv h hpc hc
  | recvNone c hpc hc hq hg =>
    have hnext : s.next = none := h.next_none (by rw [hpc]; rfl) (by rw [hpc]; rfl)
    obtain ⟨reads₀, req, cs₀, c₀, hreads, hcs, hbooks, hr⟩ := h.of_inExec (by rw [hpc]; rfl)
    obtain ⟨rfl, -⟩ := child_last hc hcs
    show Ledger E s.session.keys .wait s.next (readsOf s.session.log) (children s.session) (conclusions s.session.log) s.trail
    rw [hnext, hreads, hcs]
    exact .waiting hbooks hr hg
  | waitOk c st hpc hc hst => simpa [Audited.nextRecord, Audited.recorded, hc, hst] using inLine_waitOk h hpc hc hst
  | waitErr e hpc => exact hended _ _
  | timeout hpc => exact inLine_timeout h hpc

theorem inLine_run {as : List Action} {s : Audited X} (h : (Audited.init X).run E as = some s) :
    InLine E s.session s.next s.trail := by
  have hinit : InLine E (Audited.init X).session (Audited.init X).next (Audited.init X).trail := .opening
  exact Lts.run_inv (fun s : Audited X => InLine E s.session s.next s.trail) (fun _ _ _ hi hs => ledger_step hi hs) hinit h

/-- The trail is kept beside the session, and changes nothing in it. -/
theorem audited_run (s : Audited X) {as : List Action} {t : State X} :
    Session.run E s.session as = some t ↔ ∃ s', s.run E as = some s' ∧ s'.session = t := by
  induction as generalizing s with
  | nil => exact ⟨fun h => ⟨s, rfl, Option.some.inj h⟩, fun ⟨s', hs', ht⟩ => by cases hs'; exact congrArg some ht⟩
  | cons a as ih =>
    constructor
    · intro h
      obtain ⟨m, hm, hrun⟩ := Lts.run_cons.1 h
      obtain ⟨s', hs', ht⟩ := (ih ⟨m, s.nextRecord E a, s.recorded a⟩).1 hrun
      exact ⟨s', Lts.run_cons.2 ⟨_, by rw [Audited.step, hm]; rfl, hs'⟩, ht⟩
    · rintro ⟨s', hs', ht⟩
      obtain ⟨m, hm, hrun⟩ := Lts.run_cons.1 hs'
      obtain ⟨t', ht', rfl⟩ := Option.map_eq_some_iff.1 hm
      exact Lts.run_cons.2 ⟨t', ht', (ih _).2 ⟨s', hrun, ht⟩⟩

/-- **What the trail of a run says.** -/
theorem audit_trail (X : Ext) (E : Env) (as : List Action) (s : Audited X)
    (h : (Audited.init X).run E as = some s) : Trail E s.session.keys (readsOf s.session.log) (children s.session)
      (conclusions s.session.log) s.trail :=
  (inLine_run h).tells

/-- The sample request has run, and has ended at once. -/
theorem audited_quick : ∃ s : Audited Ext.sample,
    (Audited.init Ext.sample).run sampleEnv (sampleActions ++ quickActions) = some s ∧ s.session.pc = .serve := by
  obtain ⟨s₀, argv, hrun, hpc, -⟩ := spawning_sample
  obtain ⟨t, hquick, hserve, -⟩ := run_quick (E := sampleEnv) hpc
  obtain ⟨s, hs, rfl⟩ := (audited_run (Audited.init Ext.sample)).1 (Lts.run_append.2 ⟨s₀, hrun, hquick⟩)
  exact ⟨s, hs, hserve⟩

theorem audit_trail_sample : ∃ s : Audited Ext.sample,
    (Audited.init Ext.sample).run sampleEnv (sampleActions ++ quickActions) = some s ∧
    Trail sampleEnv s.session.keys (readsOf s.session.log) (children s.session) (conclusions s.session.log) s.trail := by
  obtain ⟨s, hs, -⟩ := audited_quick
  exact ⟨s, hs, audit_trail Ext.sample sampleEnv _ s hs⟩

/-! ### No command without its record -/

def Record.ofExec : Record → Bool
  | .execDone _ | .execTimeout => true
  | _ => false

theorem Entries.spawned {reqs : List Frame} (h : Entries X E reqs cs told rs) :
    (rs.filter Record.ofExec).length = cs.length := by
  induction h with
  | nil => rfl
  | denied h hs hr ih =>
    rw [List.filter_append, List.length_append, ih]
    rfl
  | done h hr hg hst ih =>
    rw [List.filter_append, List.length_append, List.length_append, ih]
    rfl
  | timedOut h hr ih =>
    rw [List.filter_append, List.length_append, List.length_append, ih]
    rfl

theorem Books.spawned (h : Books E keys reads cs told trail) : (trail.filter Record.ofExec).length = cs.length := by
  cases h with
  | mk ha h => exact h.spawned

/-- A trail is not ahead of the commands, and at most one behind. -/
theorem Trail.spawned (h : Trail E keys reads cs told trail) :
    (trail.filter Record.ofExec).length ≤ cs.length ∧ cs.length ≤ (trail.filter Record.ofExec).length + 1 := by
  have hauth : ∀ resp : Frame, ((authRecord E keys resp).toList.filter Record.ofExec).length = 0 := by
    intro resp
    unfold authRecord
    split_ifs
    · rfl
    · repeat' split
      all_goals rfl
  cases h with
  | silent h => simp
  | heard => simp
  | refused hr => simp [hauth]
  | settled h => have := h.spawned; omega
  | asked h => have := h.spawned; omega
  | rejected h hr => have := h.spawned; omega
  | running h hr =>
    have := h.spawned
    rw [List.length_append, List.length_singleton]
    omega

/-- **Every command but the last one has its record**, and the last one too when the session goes on to read. -/
theorem audit_spawned (X : Ext) (E : Env) (as : List Action) (s : Audited X) (h : (Audited.init X).run E as = some s) :
    (s.trail.filter Record.ofExec).length ≤ (children s.session).length ∧
      (children s.session).length ≤ (s.trail.filter Record.ofExec).length + 1 ∧
      (s.session.pc = .serve → (children s.session).length = (s.trail.filter Record.ofExec).length) := by
  have hline := inLine_run h
  refine ⟨hline.tells.spawned.1, hline.tells.spawned.2, fun hpc => ?_⟩
  unfold InLine at hline
  rw [hpc] at hline
  exact hline.of_serve.spawned.symm

theorem audit_spawned_sample : ∃ s : Audited Ext.sample,
    (Audited.init Ext.sample).run sampleEnv (sampleActions ++ quickActions) = some s ∧
    (children s.session).length = (s.trail.filter Record.ofExec).length := by
  obtain ⟨s, hs, hpc⟩ := audited_quick
  exact ⟨s, hs, (audit_spawned Ext.sample sampleEnv _ s hs).2.2 hpc⟩

end Sao.Session
