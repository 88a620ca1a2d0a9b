import Sao.Core.Reference
import Sao.Server.Steps

/-!
# No command runs without authentication

Whatever bytes a client sends, and in whatever order the rest of the world acts:

* `spawn_authorized` — a session that has spawned a process has read, as its first frame, a
  response that authenticates an active line of `authorized_keys`; it has answered it before the
  first spawn; and the commands spawned are those of a subsequence of the requests read after it,
  each of which passes the policy.

* `accepted_spawns` — a session that is sent an accepted response and a permitted request does spawn.

The invariant follows the stage a session is in: before the response is accepted nothing else has
been read and nothing spawned; from `AUTH_RESULT` on `Served` holds.
-/

namespace Sao.Session

open MsgType State Text

variable {X : Ext} {E : Env} {s s' : State X}

/-! ## What a log says -/

def Event.frame? : Event X → Option Frame
  | .read f => some f
  | _ => none

def Event.argv? : Event X → Option (List Str)
  | .spawned argv => some argv
  | _ => none

/-- The frames read, in order. -/
def readsOf (log : List (Event X)) : List Frame := log.filterMap Event.frame?

/-- The commands spawned, in order. -/
def spawnsOf (log : List (Event X)) : List (List Str) := log.filterMap Event.argv?

@[simp] theorem readsOf_append (l m : List (Event X)) : readsOf (l ++ m) = readsOf l ++ readsOf m :=
  List.filterMap_append

@[simp] theorem spawnsOf_append (l m : List (Event X)) : spawnsOf (l ++ m) = spawnsOf l ++ spawnsOf m :=
  List.filterMap_append

section Simp

variable (l : List (Event X))

@[simp] theorem readsOf_nil : readsOf ([] : List (Event X)) = [] := rfl
@[simp] theorem readsOf_read (f : Frame) : readsOf (.read f :: l) = f :: readsOf l := rfl
@[simp] theorem readsOf_wrote (f : Frame) : readsOf (.wrote f :: l) = readsOf l := rfl
@[simp] theorem readsOf_authed (k : AuthorizedKey X) (g : Str) : readsOf (.authed k g :: l) = readsOf l := rfl
@[simp] theorem readsOf_spawned (a : List Str) : readsOf (.spawned a :: l) = readsOf l := rfl
@[simp] theorem readsOf_reaped : readsOf (.reaped :: l) = readsOf l := rfl
@[simp] theorem readsOf_killed (pc : Pc) : readsOf (.killed pc :: l) = readsOf l := rfl
@[simp] theorem spawnsOf_nil : spawnsOf ([] : List (Event X)) = [] := rfl
@[simp] theorem spawnsOf_read (f : Frame) : spawnsOf (.read f :: l) = spawnsOf l := rfl
@[simp] theorem spawnsOf_wrote (f : Frame) : spawnsOf (.wrote f :: l) = spawnsOf l := rfl
@[simp] theorem spawnsOf_authed (k : AuthorizedKey X) (g : Str) : spawnsOf (.authed k g :: l) = spawnsOf l := rfl
@[simp] theorem spawnsOf_spawned (a : List Str) : spawnsOf (.spawned a :: l) = a :: spawnsOf l := rfl
@[simp] theorem spawnsOf_reaped : spawnsOf (.reaped :: l) = spawnsOf l := rfl
@[simp] theorem spawnsOf_killed (pc : Pc) : spawnsOf (.killed pc :: l) = spawnsOf l := rfl

end Simp

/-! ## What authentication establishes -/

/-- The response names the key on line `i` of the key file by its fingerprint, and carries a
signature that verifies under this key over this session's nonce and id. -/
structure Authenticated (X : Ext) (E : Env) (resp : Frame) (ar : AuthResponsePayload) (text : Str) (i : Nat)
    (key : ByteArr 32) (sig : ByteArr 64) : Prop where
  msgType : resp.msgType = AUTH_RESPONSE
  decodes : X.authResponse resp.payload = .ok ar
  keyType : ar.keyType = "sao-ed25519".toList
  file : E.authorizedKeys = .ok text
  line : ActiveLine X text i key
  fingerprint : ed25519FingerprintHex X key = X.toLowercase (trim ar.fingerprint)
  signature : X.base64Decode ar.signature = .ok sig.1
  verified : X.verifyStrict key (signingBytes E.nonce.1 E.sessionId) sig = true

theorem Accepted.authenticated {keys : List (AuthorizedKey X)} {resp : Frame} {entry : AuthorizedKey X}
    {ar : AuthResponsePayload} (h : Accepted E keys resp entry ar)
    (hkeys : ∀ k ∈ keys, ∃ text i, E.authorizedKeys = .ok text ∧ ActiveLine X text i k.verifyingKey.bytes) :
    ∃ ar text i sig, Authenticated X E resp ar text i entry.verifyingKey.bytes sig := by
  obtain ⟨hmem, hfp⟩ := findKey_some h.found
  obtain ⟨text, i, hfile, hline⟩ := hkeys entry hmem
  obtain ⟨sig, hsig, hver⟩ := verifyEd25519Signature_ok h.verified
  exact ⟨ar, text, i, sig, h.msgType, h.decodes, h.keyType, hfile, hline, hfp, hsig, hver⟩

/-! ## Stages -/

inductive Stage where
  | auth
  | accepted
  | served
  | ended

def Cont.stage : Cont → Stage
  | .authResponse => .auth
  | .authOk => .accepted
  | .finish => .ended
  | _ => .served

def Pc.stage : Pc → Stage
  | .start | .awaitAuth => .auth
  | .write _ _ k => k.stage
  | .done _ => .ended
  | _ => .served

/-- The command about to be spawned. -/
def Pc.pending : Pc → List (List Str)
  | .spawning argv => [argv]
  | _ => []

/-- What `write_frame` has yet to put on the stream. -/
def Pc.rest : Pc → Bytes
  | .write _ rest _ => rest
  | _ => []

/-- The command of a permitted request. -/
def argvOf (X : Ext) (E : Env) (f : Frame) : Option (List Str) :=
  (permitted (X := X) E f).map fun shell => E.config.shellArgv ++ [shell]

/-- The answer `f` is in the log before any command. -/
def BeforeSpawns (f : Frame) (log : List (Event X)) : Prop :=
  ∃ pre post, log = pre ++ .wrote f :: post ∧ spawnsOf pre = []

/-- A session that has sent `AUTH_RESULT` with `ok`. -/
structure ServedFor (E : Env) (log : List (Event X)) (out : Bytes) (pending : List (List Str)) (resp : Frame)
    (rest : List Frame) (entry : AuthorizedKey X) : Prop where
  reads : readsOf log = resp :: rest
  authenticated : ∃ ar text i sig, Authenticated X E resp ar text i entry.verifyingKey.bytes sig
  answered : BeforeSpawns (authOk E entry) log
  onStream : encodeAll [challenge E, authOk E entry] <+: out
  spawns : (spawnsOf log ++ pending).Sublist (rest.filterMap (argvOf X E))

def Served (E : Env) (log : List (Event X)) (out : Bytes) (pending : List (List Str)) : Prop :=
  ∃ resp rest entry, ServedFor E log out pending resp rest entry

theorem BeforeSpawns.append {f : Frame} {log : List (Event X)} (h : BeforeSpawns f log) (l : List (Event X)) :
    BeforeSpawns f (log ++ l) := by
  obtain ⟨pre, post, rfl, hp⟩ := h
  exact ⟨pre, post ++ l, by simp, hp⟩

/-- Events that are neither reads nor spawns, and more output, change nothing. -/
theorem Served.append {log l : List (Event X)} {out out' : Bytes} {pending : List (List Str)}
    (h : Served E log out pending) (hr : readsOf l = []) (hs : spawnsOf l = []) (ho : out <+: out') :
    Served E (log ++ l) out' pending := by
  obtain ⟨resp, rest, entry, h⟩ := h
  refine ⟨resp, rest, entry, ?_, h.authenticated, h.answered.append l, h.onStream.trans ho, ?_⟩
  · rw [readsOf_append, hr, h.reads, List.append_nil]
  · rw [spawnsOf_append, hs, List.append_nil]
    exact h.spawns

theorem Served.out {log : List (Event X)} {out out' : Bytes} {pending : List (List Str)}
    (h : Served E log out pending) (ho : out <+: out') : Served E log out' pending := by
  simpa using h.append (l := []) rfl rfl ho

/-- A request is read: its command, if it passes, may become the pending one. -/
theorem Served.read {log : List (Event X)} {out : Bytes} (h : Served E log out []) (f : Frame) :
    Served E (log ++ [.read f]) out (argvOf X E f).toList := by
  obtain ⟨resp, rest, entry, h⟩ := h
  refine ⟨resp, rest ++ [f], entry, ?_, h.authenticated, h.answered.append _, h.onStream, ?_⟩
  · rw [readsOf_append, h.reads]
    rfl
  · have hf : [f].filterMap (argvOf X E) = (argvOf X E f).toList := by
      cases ha : argvOf X E f <;> simp [ha]
    rw [spawnsOf_append, spawnsOf_read, spawnsOf_nil, List.append_nil, List.filterMap_append, hf]
    have hs := h.spawns
    rw [List.append_nil] at hs
    exact hs.append (List.Sublist.refl _)

theorem Served.dropPending {log : List (Event X)} {out : Bytes} {pending : List (List Str)}
    (h : Served E log out pending) : Served E log out [] := by
  obtain ⟨resp, rest, entry, h⟩ := h
  refine ⟨resp, rest, entry, h.reads, h.authenticated, h.answered, h.onStream, ?_⟩
  rw [List.append_nil]
  exact (List.sublist_append_left _ _).trans h.spawns

theorem Served.spawn {log : List (Event X)} {out : Bytes} {argv : List Str} (h : Served E log out [argv]) :
    Served E (log ++ [.spawned argv]) out [] := by
  obtain ⟨resp, rest, entry, h⟩ := h
  refine ⟨resp, rest, entry, ?_, h.authenticated, h.answered.append _, h.onStream, ?_⟩
  · rw [readsOf_append, h.reads, readsOf_spawned, readsOf_nil, List.append_nil]
  · rw [spawnsOf_append, List.append_nil]
    exact h.spawns

/-! ## The invariant -/

/-- What holds at every stage. -/
structure Base (E : Env) (s : State X) : Prop where
  stream : s.received = encodeAll (readsOf s.log) ++ s.inbuf
  fits : ∀ f ∈ readsOf s.log, f.Fits DEFAULT_MAX_PAYLOAD_LEN
  keys : ∀ k ∈ s.keys, ∃ text i, E.authorizedKeys = .ok text ∧ ActiveLine X text i k.verifyingKey.bytes

def StageInv (E : Env) (s : State X) : Prop :=
  match s.pc.stage with
  | .auth => readsOf s.log = [] ∧ spawnsOf s.log = [] ∧
      ((s.pc = .start ∧ s.out = []) ∨ (s.pc ≠ .start ∧ s.out ++ s.pc.rest = encode (challenge E)))
  | .accepted => ∃ (resp : Frame) (entry : AuthorizedKey X), readsOf s.log = [resp] ∧
      (∃ ar text i sig, Authenticated X E resp ar text i entry.verifyingKey.bytes sig) ∧ spawnsOf s.log = [] ∧
      ∃ rest, s.pc = .write (authOk E entry) rest .authOk ∧
        s.out ++ rest = encode (challenge E) ++ encode (authOk E entry)
  | .served => Served E s.log s.out s.pc.pending
  | .ended => spawnsOf s.log = [] ∨ Served E s.log s.out []

structure Inv (E : Env) (s : State X) : Prop where
  base : Base E s
  stage : StageInv E s

theorem inv_init : Inv E (init X) :=
  ⟨⟨rfl, by simp [init, readsOf], by simp [init]⟩, rfl, rfl, Or.inl ⟨rfl, rfl⟩⟩

/-- Steps that read nothing leave `Base` alone. -/
theorem Base.congr (h : Base E s) (hr : s'.received = s.received) (hi : s'.inbuf = s.inbuf)
    (hl : readsOf s'.log = readsOf s.log) (hk : s'.keys = s.keys) : Base E s' :=
  ⟨by rw [hr, hi, hl]; exact h.stream, by rw [hl]; exact h.fits, by rw [hk]; exact h.keys⟩

theorem Base.read (h : Base E s) {f : Frame} {r : Bytes}
    (hr : readFrame DEFAULT_MAX_PAYLOAD_LEN s.inbuf = .ok (f, r)) : Base E ({ s with inbuf := r }.emit (.read f)) := by
  obtain ⟨hf, hs⟩ := readFrame_ok_iff.1 hr
  refine ⟨?_, ?_, h.keys⟩
  · simp only [emit_received, emit_log, emit_inbuf, readsOf_append, readsOf_read]
    rw [h.stream, hs]
    simp [encodeAll]
  · intro g hg
    simp only [emit_log, readsOf_append, readsOf_read, readsOf_nil, List.mem_append, List.mem_singleton] at hg
    rcases hg with hg | rfl
    · exact h.fits g hg
    · exact hf

/-- At every stage either nothing was spawned or the session is served. -/
theorem StageInv.spawned (h : StageInv E s) : spawnsOf s.log = [] ∨ Served E s.log s.out [] := by
  unfold StageInv at h
  split at h
  · exact Or.inl h.2.1
  · obtain ⟨_, _, _, _, hs, _⟩ := h; exact Or.inl hs
  · exact Or.inr h.dropPending
  · exact h

theorem Inv.finish (h : Inv E s) (r : Except Str Unit) : Inv E (s.finish r) :=
  ⟨h.base.congr rfl rfl rfl rfl, h.stage.spawned⟩

/-- A frame that keeps a served session served, or ends a session. -/
theorem inv_beginWrite {k : Cont} (hb : Base E s) (f : Frame)
    (hk : (k.stage = .served ∧ Served E s.log s.out []) ∨
      (k = .finish ∧ (spawnsOf s.log = [] ∨ Served E s.log s.out []))) : Inv E (s.beginWrite f k) := by
  have hover : spawnsOf s.log = [] ∨ Served E s.log s.out [] := by
    rcases hk with ⟨-, h⟩ | ⟨-, h⟩
    · exact Or.inr h
    · exact h
  rcases beginWrite_cases s f k with ⟨-, he⟩ | ⟨e, he⟩
  · rw [he]
    refine ⟨hb.congr rfl rfl rfl rfl, ?_⟩
    rcases hk with ⟨hk, h⟩ | ⟨rfl, h⟩
    · have hst : StageInv E { s with pc := Pc.write f (encode f) k } =
          Served E s.log s.out [] := by
        simp only [StageInv, Pc.stage, hk, Pc.pending]
      rw [hst]
      exact h
    · exact h
  · rw [he]
    exact ⟨hb.congr rfl rfl rfl rfl, hover⟩

/-! ## Steps keep it -/

theorem inv_start (h : Inv E s) (hpc : s.pc = .start) : Inv E (start E s) := by
  have hst := h.stage
  simp only [StageInv, hpc, Pc.stage] at hst
  obtain ⟨hr, hs, ho⟩ := hst
  have hout : s.out = [] := by
    rcases ho with ⟨-, ho⟩ | ⟨hne, -⟩
    · exact ho
    · exact absurd rfl hne
  unfold Session.start
  cases hk : loadAuthorizedKeys X E.authorizedKeys with
  | error e => exact h.finish _
  | ok keys =>
    have hb : Base E { s with keys } :=
      ⟨h.base.stream, h.base.fits, fun k hm => loadAuthorizedKeys_mem hk hm⟩
    rcases beginWrite_cases { s with keys } (challenge E) .authResponse with ⟨-, he⟩ | ⟨e, he⟩
    · simp only [he]
      refine ⟨hb.congr rfl rfl rfl rfl, hr, hs, Or.inr ⟨by simp, ?_⟩⟩
      show s.out ++ encode (challenge E) = encode (challenge E)
      rw [hout, List.nil_append]
    · simp only [he]
      exact ⟨hb.congr rfl rfl rfl rfl, Or.inl hs⟩

theorem inv_readAuth (h : Inv E s) (hpc : s.pc = .awaitAuth) {f : Frame} {r : Bytes}
    (hr : readFrame DEFAULT_MAX_PAYLOAD_LEN s.inbuf = .ok (f, r)) :
    Inv E (handleAuth E ({ s with inbuf := r }.emit (.read f)) f) := by
  have hst := h.stage
  simp only [StageInv, hpc, Pc.stage, Pc.rest, List.append_nil] at hst
  obtain ⟨hreads, hs, ho⟩ := hst
  have hout : s.out = encode (challenge E) := by
    rcases ho with ⟨he, -⟩ | ⟨-, ho⟩
    · cases he
    · exact ho
  have hb := h.base.read hr
  have hs' : spawnsOf ({ s with inbuf := r }.emit (.read f)).log = [] := by simp [hs]
  rcases handleAuth_cases E ({ s with inbuf := r }.emit (.read f)) f with ⟨entry, ar, hacc, he⟩ | ⟨g, he⟩ | ⟨r', he⟩
  · rw [he]
    have hauth := hacc.authenticated hb.keys
    have hb' : Base E (({ s with inbuf := r }.emit (.read f)).emit (.authed entry ar.signature)) :=
      hb.congr rfl rfl (by simp) rfl
    rcases beginWrite_cases (({ s with inbuf := r }.emit (.read f)).emit (.authed entry ar.signature))
      (authOk E entry) .authOk with ⟨-, hw⟩ | ⟨e, hw⟩
    · rw [hw]
      refine ⟨hb'.congr rfl rfl rfl rfl, f, entry, by simp [hreads], hauth, by simp [hs], encode (authOk E entry), rfl, ?_⟩
      simp [hout]
    · rw [hw]
      exact ⟨hb'.congr rfl rfl rfl rfl, Or.inl (by simp [hs])⟩
  · rw [he]
    exact inv_beginWrite hb g (Or.inr ⟨rfl, Or.inl hs'⟩)
  · rw [he]
    exact ⟨hb.congr rfl rfl rfl rfl, Or.inl hs'⟩

theorem inv_readServe (h : Inv E s) (hpc : s.pc = .serve) {f : Frame} {r : Bytes}
    (hr : readFrame DEFAULT_MAX_PAYLOAD_LEN s.inbuf = .ok (f, r)) :
    Inv E (handleFrame E ({ s with inbuf := r }.emit (.read f)) f) := by
  have hst : Served E s.log s.out [] := by
    have hst := h.stage
    simpa only [StageInv, hpc, Pc.stage, Pc.pending] using hst
  have hb := h.base.read hr
  have hread := hst.read f
  rcases handleFrame_cases E ({ s with inbuf := r }.emit (.read f)) f with
    ⟨shell, hp, -, he⟩ | ⟨g, k, hk, he⟩ | ⟨r', he⟩
  · rw [he]
    refine ⟨hb.congr rfl rfl rfl rfl, ?_⟩
    have ha : argvOf X E f = some (E.config.shellArgv ++ [shell]) := by
      unfold argvOf
      rw [hp]
      rfl
    rw [ha] at hread
    exact hread
  · rw [he]
    refine inv_beginWrite hb g ?_
    rcases hk with rfl | rfl
    · exact Or.inl ⟨rfl, hread.dropPending⟩
    · exact Or.inr ⟨rfl, Or.inr hread.dropPending⟩
  · rw [he]
    exact ⟨hb.congr rfl rfl rfl rfl, Or.inr hread.dropPending⟩

theorem inv_put (h : Inv E s) {n : Nat} {f : Frame} {rest : Bytes} {k : Cont} (hpc : s.pc = .write f rest k) :
    Inv E { s with out := s.out ++ rest.take n, pc := .write f (rest.drop n) k } := by
  refine ⟨h.base.congr rfl rfl rfl rfl, ?_⟩
  have hst := h.stage
  have hpre : s.out <+: s.out ++ rest.take n := List.prefix_append _ _
  have happ : s.out ++ rest.take n ++ rest.drop n = s.out ++ rest := by
    rw [List.append_assoc, List.take_append_drop]
  unfold StageInv at hst ⊢
  rw [hpc] at hst
  simp only [Pc.stage, Pc.rest, Pc.pending] at hst ⊢
  cases hk : k.stage with
  | auth =>
    simp only [hk] at hst ⊢
    obtain ⟨hr, hs, ho⟩ := hst
    rcases ho with ⟨he, -⟩ | ⟨-, ho⟩
    · cases he
    · exact ⟨hr, hs, Or.inr ⟨by simp, by rw [happ, ho]⟩⟩
  | accepted =>
    simp only [hk] at hst ⊢
    obtain ⟨resp, entry, hr, ha, hs, rest', he, ho⟩ := hst
    cases he
    exact ⟨resp, entry, hr, ha, hs, rest.drop n, rfl, by rw [happ, ho]⟩
  | served =>
    simp only [hk] at hst ⊢
    exact hst.out hpre
  | ended =>
    simp only [hk] at hst ⊢
    rcases hst with hs | hs
    · exact Or.inl hs
    · exact Or.inr (hs.out hpre)

theorem inv_flushed (h : Inv E s) {f : Frame} {k : Cont} (hpc : s.pc = .write f [] k) : Inv E (afterWrite s f k) := by
  have hst := h.stage
  have hemit : Base E (s.emit (.wrote f)) := h.base.congr rfl rfl (by simp) rfl
  have hserved : ∀ {log : List (Event X)}, Served E log s.out [] → Served E (log ++ [.wrote f]) s.out [] :=
    fun hs => hs.append rfl rfl (List.prefix_refl _)
  simp only [StageInv, hpc, Pc.stage, Pc.rest, Pc.pending, List.append_nil] at hst
  cases k with
  | authResponse =>
    obtain ⟨hr, hs, ho⟩ := hst
    rcases ho with ⟨he, -⟩ | ⟨-, ho⟩
    · cases he
    · refine ⟨hemit.congr rfl rfl rfl rfl, ?_, ?_, Or.inr ⟨by simp [afterWrite], ?_⟩⟩
      · simp [afterWrite, hr]
      · simp [afterWrite, hs]
      · simp [afterWrite, Pc.rest, ho]
  | authOk =>
    obtain ⟨resp, entry, hr, ha, hs, rest', he, ho⟩ := hst
    cases he
    rw [List.append_nil] at ho
    refine ⟨hemit.congr rfl rfl rfl rfl, resp, [], entry, ?_, ha, ⟨s.log, [], rfl, hs⟩, ?_, ?_⟩
    · simp [afterWrite, hr]
    · simp [afterWrite, encodeAll, ho]
    · simp [afterWrite, hs, Pc.pending]
  | serve => exact ⟨hemit.congr rfl rfl rfl rfl, hserved hst⟩
  | finish =>
    refine ⟨hemit.congr rfl rfl rfl rfl, ?_⟩
    rcases hst with hs | hs
    · exact Or.inl (by simp [afterWrite, hs])
    · exact Or.inr (hserved hs)
  | forward => exact ⟨hemit.congr rfl rfl rfl rfl, hserved hst⟩
  | execEnd => exact ⟨hemit.congr rfl rfl rfl rfl, hserved hst⟩
  | timedOut => exact ⟨hemit.congr rfl rfl rfl rfl, hserved hst⟩

/-- A served session outside `spawning`. -/
theorem served_of_pc (h : Inv E s) (hst : s.pc.stage = .served) : Served E s.log s.out [] := by
  have hs := h.stage
  unfold StageInv at hs
  rw [hst] at hs
  exact hs.dropPending

theorem stage_of_inExec {pc : Pc} (h : pc.inExec = true) : pc.stage = .served := by
  cases pc with
  | write f rest k => cases k <;> first | rfl | cases h
  | recv => rfl
  | wait => rfl
  | _ => cases h

/-- **One step keeps the invariant.** -/
theorem inv_step {a : Action} (h : Inv E s) (hstep : step E s a = some s') : Inv E s' := by
  cases step_cases hstep with
  | clientSend b he =>
    refine ⟨⟨?_, h.base.fits, h.base.keys⟩, h.stage⟩
    show s.received ++ b = encodeAll (readsOf s.log) ++ (s.inbuf ++ b)
    rw [h.base.stream, List.append_assoc]
  | clientClose => exact ⟨h.base.congr rfl rfl rfl rfl, h.stage⟩
  | child a c c' hc hs => exact ⟨h.base.congr rfl rfl rfl rfl, h.stage⟩
  | leftover i a c c' hc hs => exact ⟨h.base.congr rfl rfl rfl rfl, h.stage⟩
  | start hpc => exact inv_start h hpc
  | readAuth f r hpc hr => exact inv_readAuth h hpc hr
  | readServe f r hpc hr => exact inv_readServe h hpc hr
  | readFail r e hpc hr he => exact h.finish r
  | put n f rest k hpc h0 hn => exact inv_put h hpc
  | flushed f k hpc => exact inv_flushed h hpc
  | ioError e hpc => exact h.finish _
  | spawnOk argv hpc =>
    refine ⟨h.base.congr rfl rfl (by simp [spawned]) rfl, ?_⟩
    have hst := h.stage
    simp only [StageInv, hpc, Pc.stage, Pc.pending] at hst
    exact hst.spawn
  | spawnErr e argv hpc => exact h.finish _
  | recv c chunk q hpc hc hq =>
    have hb : Base E { s with child := some { c with queue := q } } := h.base.congr rfl rfl rfl rfl
    have hserved := served_of_pc h (by rw [hpc]; rfl)
    exact inv_beginWrite hb _ (Or.inl ⟨rfl, hserved⟩)
  | recvNone c hpc hc hq hg =>
    have hserved := served_of_pc h (by rw [hpc]; rfl)
    exact ⟨h.base.congr rfl rfl rfl rfl, hserved⟩
  | waitOk c code hpc hc hs =>
    have hserved := served_of_pc h (by rw [hpc]; rfl)
    have hb : Base E (s.emit .reaped) := h.base.congr rfl rfl (by simp) rfl
    exact inv_beginWrite hb _ (Or.inl ⟨rfl, hserved.append rfl rfl (List.prefix_refl _)⟩)
  | waitErr e hpc => exact h.finish _
  | timeout hpc =>
    have hb : Base E (s.emit (.killed s.pc)) := h.base.congr rfl rfl (by simp) rfl
    refine inv_beginWrite hb _ (Or.inl ⟨rfl, ?_⟩)
    exact (served_of_pc h (stage_of_inExec hpc)).append rfl rfl (List.prefix_refl _)

theorem inv_run {as : List Action} (h : run E (init X) as = some s) : Inv E s :=
  Lts.run_inv (Inv E) (fun _ _ _ hi hs => inv_step hi hs) inv_init h

/-! ## An accepted client is served -/

theorem run_cons_eq {a : Action} {m : State X} (h : step E s a = some m) (as : List Action) :
    run E s (a :: as) = run E m as := by
  unfold run
  rw [Lts.run, h]

/-- A whole frame is written and flushed. -/
theorem run_write {f : Frame} {k : Cont} (hpc : s.pc = .write f (encode f) k) (as : List Action) :
    run E s (.put (encode f).length :: .flushed :: as) =
      run E (afterWrite { s with out := s.out ++ encode f, pc := .write f [] k } f k) as := by
  have hput : step E s (.put (encode f).length) = some { s with out := s.out ++ encode f, pc := .write f [] k } := by
    simp only [step, hpc]
    rw [if_pos ⟨by rw [length_encode]; omega, Nat.le_refl _⟩, List.take_length, List.drop_length]
  rw [run_cons_eq hput, run_cons_eq (by rfl)]

theorem read_frame {f : Frame} {r : Bytes} (hf : f.Fits DEFAULT_MAX_PAYLOAD_LEN) (hin : s.inbuf = encode f ++ r)
    (handle : State X → Frame → State X) (eof : Except Str Unit) :
    read s handle eof = some (handle ({ s with inbuf := r }.emit (.read f)) f) := by
  unfold read
  rw [hin, readFrame_encode hf]

theorem step_readAuth {f : Frame} {r : Bytes} (hpc : s.pc = .awaitAuth) (hf : f.Fits DEFAULT_MAX_PAYLOAD_LEN)
    (hin : s.inbuf = encode f ++ r) :
    step E s .read = some (handleAuth E ({ s with inbuf := r }.emit (.read f)) f) := by
  simp only [step, hpc]
  exact read_frame hf hin _ _

theorem step_readServe {f : Frame} {r : Bytes} (hpc : s.pc = .serve) (hf : f.Fits DEFAULT_MAX_PAYLOAD_LEN)
    (hin : s.inbuf = encode f ++ r) :
    step E s .read = some (handleFrame E ({ s with inbuf := r }.emit (.read f)) f) := by
  simp only [step, hpc]
  exact read_frame hf hin _ _

/-- The answer to an accepted response. -/
theorem handleAuth_accepted {resp : Frame} {entry : AuthorizedKey X} {ar : AuthResponsePayload}
    (hacc : Accepted E s.keys resp entry ar) (hf : (authOk E entry).Fits DEFAULT_MAX_PAYLOAD_LEN) :
    handleAuth E s resp =
      { s.emit (.authed entry ar.signature) with pc := .write (authOk E entry) (encode (authOk E entry)) .authOk } := by
  have hauth : authenticate E s.keys resp = .ok entry ar.signature := authenticate_ok_iff.2 ⟨ar, hacc, rfl⟩
  simp only [handleAuth, hauth]
  exact beginWrite_fits hf _ _

/-- A permitted request leads to its command. -/
theorem handleFrame_permitted {req : Frame} {shell : Str} (hreq : permitted (X := X) E req = some shell)
    (hargv : 2 ≤ E.config.shellArgv.length) :
    handleFrame E s req = { s with pc := .spawning (E.config.shellArgv ++ [shell]) } := by
  obtain ⟨hmt, hdec, hpol⟩ := permitted_some hreq
  simp only [handleFrame, hmt, hdec, runOneExec, hpol, if_true]
  rw [if_neg (by omega)]

section Served

variable {keys : List (AuthorizedKey X)} {resp req : Frame} {entry : AuthorizedKey X} {ar : AuthResponsePayload}
  {shell : Str}

theorem spawns_from_serve (hreq : permitted (X := X) E req = some shell) (hargv : 2 ≤ E.config.shellArgv.length)
    (hf : req.Fits DEFAULT_MAX_PAYLOAD_LEN) (hpc : s.pc = .serve) (hin : s.inbuf = encode req) :
    ∃ s', run E s [.read, .spawnOk] = some s' ∧ s'.inbuf = [] ∧
      s'.log = s.log ++ [.read req, .spawned (E.config.shellArgv ++ [shell])] := by
  have hin' : s.inbuf = encode req ++ [] := by rw [hin, List.append_nil]
  rw [run_cons_eq (step_readServe hpc hf hin'), handleFrame_permitted hreq hargv, run_cons_eq (by rfl)]
  refine ⟨_, rfl, rfl, ?_⟩
  simp [spawned]

theorem spawns_from_auth (hacc : Accepted E keys resp entry ar) (hreq : permitted (X := X) E req = some shell)
    (hargv : 2 ≤ E.config.shellArgv.length) (hf : ∀ f ∈ [resp, authOk E entry, req], f.Fits DEFAULT_MAX_PAYLOAD_LEN)
    (hpc : s.pc = .awaitAuth) (hin : s.inbuf = encode resp ++ encode req) (hkeys : s.keys = keys) :
    ∃ s', run E s [.read, .put (encode (authOk E entry)).length, .flushed, .read, .spawnOk] = some s' ∧ s'.inbuf = [] ∧
      s'.log = s.log ++ [.read resp, .authed entry ar.signature, .wrote (authOk E entry), .read req,
        .spawned (E.config.shellArgv ++ [shell])] := by
  have hacc' : Accepted E ({ s with inbuf := encode req }.emit (.read resp)).keys resp entry ar := by
    rw [emit_keys]
    exact hkeys ▸ hacc
  rw [run_cons_eq (step_readAuth hpc (hf resp (by simp)) hin),
    handleAuth_accepted hacc' (hf (authOk E entry) (by simp)), run_write rfl]
  generalize ht : afterWrite _ _ _ = t
  obtain ⟨s', hrun, hin, hlog⟩ := spawns_from_serve (s := t) hreq hargv (hf req (by simp)) (by rw [← ht]; rfl)
    (by rw [← ht]; rfl)
  exact ⟨s', hrun, hin, by simp [hlog, ← ht, afterWrite]⟩

/-- The actions of a session that is sent a response and a request. -/
def servedActions (E : Env) (resp req : Frame) (entry : AuthorizedKey X) : List Action :=
  [.clientSend (encode resp ++ encode req), .start, .put (encode (challenge E)).length, .flushed, .read,
    .put (encode (authOk E entry)).length, .flushed, .read, .spawnOk]

/-- **Completeness**: an accepted response and a permitted request lead to a spawn. -/
theorem accepted_spawns (hkeys : loadAuthorizedKeys X E.authorizedKeys = .ok keys)
    (hacc : Accepted E keys resp entry ar) (hreq : permitted (X := X) E req = some shell)
    (hargv : 2 ≤ E.config.shellArgv.length)
    (hf : ∀ f ∈ [challenge E, resp, authOk E entry, req], f.Fits DEFAULT_MAX_PAYLOAD_LEN) :
    ∃ s : State X, run E (init X) (servedActions E resp req entry) = some s ∧ s.inbuf = [] ∧
      s.log = [.wrote (challenge E), .read resp, .authed entry ar.signature, .wrote (authOk E entry), .read req,
        .spawned (E.config.shellArgv ++ [shell])] := by
  have hsend : step E (init X) (.clientSend (encode resp ++ encode req)) =
      some { init X with received := encode resp ++ encode req, inbuf := encode resp ++ encode req } := rfl
  have hstart : step E { init X with received := encode resp ++ encode req, inbuf := encode resp ++ encode req } .start =
      some { init X with
        received := encode resp ++ encode req, inbuf := encode resp ++ encode req, keys,
        pc := .write (challenge E) (encode (challenge E)) .authResponse } := by
    simp only [step, init, Session.start, hkeys, beginWrite_fits (hf (challenge E) (by simp))]
  unfold servedActions
  rw [run_cons_eq hsend, run_cons_eq hstart, run_write rfl]
  generalize ht : afterWrite _ _ _ = t
  have hlog : t.log = [.wrote (challenge E)] := by rw [← ht]; rfl
  have h := spawns_from_auth (s := t) hacc hreq hargv (fun f hm => hf f (List.mem_cons_of_mem _ hm))
    (by rw [← ht]; rfl) (by rw [← ht]; rfl) (by rw [← ht]; rfl)
  rw [hlog] at h
  exact h

end Served

/-! ## Authorization safety -/

/-- The shell line of an `EXEC_SHELL` frame. -/
def execShellOf (X : Ext) (f : Frame) : Option Str :=
  if f.msgType = EXEC_SHELL then (X.execShell f.payload).toOption else none

theorem execShellOf_permitted {f : Frame} {shell : Str} (h : permitted (X := X) E f = some shell) :
    execShellOf X f = some shell := by
  obtain ⟨hmt, hs, -⟩ := permitted_some h
  unfold execShellOf
  rw [if_pos hmt, hs]
  rfl

/-- What one filter keeps in the way another one does is a subsequence of what the other keeps. -/
theorem filterMap_sublist {α β : Type} {f g : α → Option β} (h : ∀ a b, f a = some b → g a = some b) (l : List α) :
    (l.filterMap f).Sublist (l.filterMap g) := by
  induction l with
  | nil => exact List.Sublist.refl _
  | cons a l ih =>
    cases hf : f a with
    | none =>
      rw [List.filterMap_cons_none hf]
      cases hg : g a with
      | none => rw [List.filterMap_cons_none hg]; exact ih
      | some b => rw [List.filterMap_cons_some hg]; exact ih.cons b
    | some b =>
      rw [List.filterMap_cons_some hf, List.filterMap_cons_some (h a b hf)]
      exact ih.cons_cons b

/-- The commands of permitted requests are the shell argv with the requests' own lines. -/
theorem argvOf_sublist {argvs : List (List Str)} {rest : List Frame}
    (h : argvs.Sublist (rest.filterMap (argvOf X E))) :
    ∃ shells : List Str, argvs = shells.map (fun shell => E.config.shellArgv ++ [shell]) ∧
      shells.Sublist (rest.filterMap (execShellOf X)) ∧
      ∀ shell ∈ shells, ∀ pat ∈ E.config.policy.denySubstrings, ¬ pat <:+: shell := by
  have hmap : rest.filterMap (argvOf X E) =
      (rest.filterMap (permitted (X := X) E)).map fun shell => E.config.shellArgv ++ [shell] := by
    rw [List.map_filterMap]
    rfl
  rw [hmap] at h
  obtain ⟨shells, hsub, rfl⟩ := List.sublist_map_iff.1 h
  refine ⟨shells, rfl, hsub.trans (filterMap_sublist (fun _ _ hf => execShellOf_permitted hf) rest), ?_⟩
  intro shell hs
  obtain ⟨f, -, hf⟩ := List.mem_filterMap.1 (hsub.subset hs)
  exact checkShell_ok_iff.1 (permitted_some hf).2.2

/-- **Authorization safety.** In every run in which something was spawned: the client's stream
begins with a response that authenticates a line of the key file; the answer to it precedes the
first spawn, and is what follows the challenge on the stream; and the spawned commands are those of
a subsequence of the later requests, none of which contains a deny pattern. -/
theorem spawn_authorized (X : Ext) (E : Env) (as : List Action) (s : State X) (h : run E (init X) as = some s)
    (hs : spawnsOf s.log ≠ []) :
    ∃ (resp : Frame) (rest : List Frame) (entry : AuthorizedKey X),
      s.received = encodeAll (resp :: rest) ++ s.inbuf ∧
      (∀ f ∈ resp :: rest, f.Fits DEFAULT_MAX_PAYLOAD_LEN) ∧
      (∃ ar text i sig, Authenticated X E resp ar text i entry.verifyingKey.bytes sig) ∧
      (∃ pre post, s.log = pre ++ .wrote (authOk E entry) :: post ∧ spawnsOf pre = []) ∧
      encodeAll [challenge E, authOk E entry] <+: s.out ∧
      ∃ shells : List Str, spawnsOf s.log = shells.map (fun shell => E.config.shellArgv ++ [shell]) ∧
        shells.Sublist (rest.filterMap (execShellOf X)) ∧
        ∀ shell ∈ shells, ∀ pat ∈ E.config.policy.denySubstrings, ¬ pat <:+: shell := by
  have hi := inv_run h
  rcases hi.stage.spawned with hn | ⟨resp, rest, entry, hserved⟩
  · exact absurd hn hs
  · have hstream := hi.base.stream
    have hfits := hi.base.fits
    rw [hserved.reads] at hstream hfits
    have hsub := hserved.spawns
    rw [List.append_nil] at hsub
    exact ⟨resp, rest, entry, hstream, hfits, hserved.authenticated, hserved.answered, hserved.onStream,
      argvOf_sublist hsub⟩

/-- A session with the sample key file and challenge. -/
def sampleEnv : Env where
  config := ⟨⟨["rm -rf /".toList]⟩, ["bash".toList, "-lc".toList], "default".toList, []⟩
  authorizedKeys := .ok Sample.keyFile
  nonce := Sample.nonce
  sessionId := Sample.sessionId

def sampleResponse : Frame :=
  jsonFrame AUTH_RESPONSE (authResponseJson (hexEncode Sample.digest.1) KEY_TYPE_ED25519
    (Base64.encode Sample.signature.1))

def sampleRequest : Frame := jsonFrame EXEC_SHELL (execShellJson "id".toList)

theorem accepted_sample : Accepted sampleEnv [Sample.entry] sampleResponse Sample.entry
    ⟨KEY_TYPE_ED25519, hexEncode Sample.digest.1, Base64.encode Sample.signature.1⟩ where
  msgType := rfl
  decodes := lawful_sample.authResponse _ _ _
  keyType := rfl
  found := List.find?_cons_of_pos (by decide +kernel)
  verified := by
    unfold verifyEd25519Signature
    rw [lawful_sample.base64]
    decide +kernel

theorem permitted_sample : permitted (X := Ext.sample) sampleEnv sampleRequest = some "id".toList := by
  have h : Ext.sample.execShell sampleRequest.payload = .ok "id".toList := lawful_sample.execShell _
  unfold permitted
  rw [if_pos (show sampleRequest.msgType = EXEC_SHELL from rfl), h]
  decide

/-- The actions of the sample session up to its spawn. -/
def sampleActions : List Action := (servedActions sampleEnv sampleResponse sampleRequest Sample.entry).dropLast

/-- The sample session spawns the command. -/
theorem spawned_sample : ∃ s : State Ext.sample,
    run sampleEnv (init Ext.sample) (servedActions sampleEnv sampleResponse sampleRequest Sample.entry) = some s ∧
      s.inbuf = [] ∧ s.log = [.wrote (challenge sampleEnv), .read sampleResponse,
        .authed Sample.entry (Base64.encode Sample.signature.1), .wrote (authOk sampleEnv Sample.entry),
        .read sampleRequest, .spawned (sampleEnv.config.shellArgv ++ ["id".toList])] := by
  have hfits : ∀ f ∈ [challenge sampleEnv, sampleResponse, authOk sampleEnv Sample.entry, sampleRequest],
      f.Fits DEFAULT_MAX_PAYLOAD_LEN := by decide +kernel
  exact accepted_spawns Sample.load_keyFile accepted_sample permitted_sample (by decide) hfits

/-- A session of the sample is about to spawn a command. -/
theorem spawning_sample : ∃ (s : State Ext.sample) (argv : List Str),
    run sampleEnv (init Ext.sample) sampleActions = some s ∧ s.pc = .spawning argv ∧ s.inbuf = [] ∧
    ∃ sig, s.log = [.wrote (challenge sampleEnv), .read sampleResponse, .authed Sample.entry sig,
      .wrote (authOk sampleEnv Sample.entry), .read sampleRequest] := by
  obtain ⟨s', hrun, hin, hlog⟩ := spawned_sample
  obtain ⟨s, hrun', hlast⟩ := Lts.run_snoc.1 (show run _ _ (sampleActions ++ [.spawnOk]) = _ from hrun)
  cases step_cases hlast with
  | spawnOk argv hpc =>
    refine ⟨s, argv, hrun', hpc, hin, Base64.encode Sample.signature.1, ?_⟩
    exact (List.append_inj' (show s.log ++ [.spawned argv] = [_, _, _, _, _] ++ [_] from hlog) rfl).1

theorem spawn_authorized_sample : ∃ s : State Ext.sample,
    run sampleEnv (init Ext.sample) (servedActions sampleEnv sampleResponse sampleRequest Sample.entry) = some s ∧
    ∃ (resp : Frame) (rest : List Frame), s.received = encodeAll (resp :: rest) ++ s.inbuf ∧
      ∃ ar text i key sig, Authenticated Ext.sample sampleEnv resp ar text i key sig := by
  obtain ⟨s, hrun, -, hlog⟩ := spawned_sample
  have hne : spawnsOf s.log ≠ [] := by rw [hlog]; simp
  obtain ⟨resp, rest, entry, hstream, -, ⟨ar, text, i, sig, hauth⟩, -⟩ :=
    spawn_authorized Ext.sample sampleEnv _ s hrun hne
  exact ⟨s, hrun, resp, rest, hstream, ar, text, i, _, sig, hauth⟩

end Sao.Session
