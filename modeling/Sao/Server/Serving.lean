import Sao.Lib.Simulation
import Sao.Server.AuthSafety
import Sao.Server.TlsUtil

/-!
# `run_server`: many sessions of one server

The server's tasks over the connections it has accepted. All share the configuration read at the
start; each session reads the key file for itself when it begins, and anybody may edit that file.

| here | there |
| --- | --- |
| `runServer`       | `run_server` up to its accept loops, by what `rustls_server_config` and the two `bind`s return |
| `accept`          | a connection is accepted, and its task spawned |
| `acceptErr`       | `listener.accept().await?` ends the server; the plaintext loop goes on |
| `handshake`       | `a.accept(stream).await` |
| `runSession`      | `session::run_session` begins: it reads the key file and draws its nonce and id |
| `edit`            | somebody writes or removes the key file |

* `conn_run` — every session of a server is a run of a session by itself.
* `server_authorizes` — what is spawned is authorized by the key file of the moment its session began.
* `revoked` — a key taken off the file opens no session that begins later.
* `admits` — whatever the others do, a key on the file opens the next session.
-/

namespace Sao.Serving

open Text

variable {X : Ext} {ι : Type}

inductive Via where
  | tls
  | plain
deriving DecidableEq, Repr

/-- A connection and its task. -/
inductive Conn (X : Ext) where
  /-- Not accepted yet. -/
  | free
  | handshake
  /-- `TLS accept failed` -/
  | refused
  /-- `run_session` is called next. -/
  | ready (via : Via)
  | session (via : Via) (E : Session.Env) (s : Session.State X)

namespace Conn

inductive Action where
  | accept (via : Via)
  | handshake (r : Except Str Unit)
  | runSession (E : Session.Env)
  | session (a : Session.Action)

def step : Conn X → Action → Option (Conn X)
  | .free, .accept .tls => some .handshake
  | .free, .accept .plain => some (.ready .plain)
  | .handshake, .handshake (.ok ()) => some (.ready .tls)
  | .handshake, .handshake (.error _) => some .refused
  | .ready via, .runSession E => some (.session via E (Session.init X))
  | .session via E s, .session a => (Session.step E s a).map (.session via E)
  | _, _ => none

end Conn

/-- The server; `ι` names the connections. -/
structure State (X : Ext) (ι : Type) where
  /-- The text of the key file, or why it cannot be read. -/
  keyFile : Except Str Str
  /-- The plaintext listener is bound. -/
  plain : Bool
  conns : ι → Conn X
  /-- The error `run_server` has returned. -/
  stopped : Option Str

inductive Action (ι : Type) where
  | accept (via : Via) (i : ι)
  | acceptErr (via : Via) (e : Str)
  | handshake (i : ι) (r : Except Str Unit)
  | runSession (i : ι) (nonce : ByteArr 32) (sessionId : Str)
  | session (i : ι) (a : Session.Action)
  | edit (file : Except Str Str)

section Steps

variable (cfg : Setup.ServerConfigFile)

/-- The plaintext listener is asked for, and can be had. -/
def plainBound (bind : Str → Except Str Unit) : Bool :=
  cfg.allowInsecurePlain && match cfg.insecurePlainListen with
    | some addr => (bind addr).toBool
    | none => false

def runServer (tls : Except CoreError Setup.TlsServerConfig) (bind : Str → Except Str Unit)
    (keyFile : Except Str Str) : State X ι where
  keyFile
  conns _ := .free
  plain := plainBound cfg bind
  stopped :=
    match tls with
    | .error e => some e.display
    | .ok _ =>
      match bind cfg.listen with
      | .error e => some e
      | .ok () => none

variable [DecidableEq ι]

/-- The task of one connection moves. -/
def State.move (s : State X ι) (i : ι) (a : Conn.Action) : Option (State X ι) :=
  ((s.conns i).step a).map fun c => { s with conns := Function.update s.conns i c }

/-- The environment of a session that begins now. -/
def State.env (s : State X ι) (nonce : ByteArr 32) (sessionId : Str) : Session.Env :=
  ⟨cfg.toServerConfig, s.keyFile, nonce, sessionId⟩

def step (s : State X ι) (a : Action ι) : Option (State X ι) :=
  if s.stopped.isSome then none
  else match a with
    | .accept .tls i => s.move i (.accept .tls)
    | .accept .plain i => if s.plain then s.move i (.accept .plain) else none
    | .acceptErr .tls e => some { s with stopped := some e }
    | .acceptErr .plain _ => if s.plain then some s else none
    | .handshake i r => s.move i (.handshake r)
    | .runSession i nonce sessionId => s.move i (.runSession (s.env cfg nonce sessionId))
    | .session i a => s.move i (.session a)
    | .edit file => some { s with keyFile := file }

/-- The state after a run. -/
def run (s : State X ι) (as : List (Action ι)) : Option (State X ι) := Lts.run (step cfg) s as

end Steps

/-! ## Transitions -/

section Transitions

variable [DecidableEq ι]

def State.setConn (s : State X ι) (i : ι) (c : Conn X) : State X ι := { s with conns := Function.update s.conns i c }

@[simp] theorem setConn_self (s : State X ι) (i : ι) (c : Conn X) : (s.setConn i c).conns i = c :=
  Function.update_self ..

theorem setConn_ne (s : State X ι) {i j : ι} (h : j ≠ i) (c : Conn X) : (s.setConn i c).conns j = s.conns j :=
  Function.update_of_ne h ..

theorem setConn_setConn (s : State X ι) (i : ι) (c c' : Conn X) : (s.setConn i c).setConn i c' = s.setConn i c' := by
  simp [State.setConn]

inductive Step (cfg : Setup.ServerConfigFile) (s : State X ι) : Action ι → State X ι → Prop where
  | accept (via : Via) (i : ι) (c : Conn X) (hvia : via = .plain → s.plain = true)
      (h : (s.conns i).step (.accept via) = some c) : Step cfg s (.accept via i) (s.setConn i c)
  | acceptErr (e : Str) : Step cfg s (.acceptErr .tls e) { s with stopped := some e }
  | acceptErrPlain (e : Str) : Step cfg s (.acceptErr .plain e) s
  | handshake (i : ι) (r : Except Str Unit) (c : Conn X) (h : (s.conns i).step (.handshake r) = some c) :
    Step cfg s (.handshake i r) (s.setConn i c)
  | runSession (i : ι) (nonce : ByteArr 32) (sessionId : Str) (c : Conn X)
      (h : (s.conns i).step (.runSession (s.env cfg nonce sessionId)) = some c) :
    Step cfg s (.runSession i nonce sessionId) (s.setConn i c)
  | session (i : ι) (a : Session.Action) (c : Conn X) (h : (s.conns i).step (.session a) = some c) :
    Step cfg s (.session i a) (s.setConn i c)
  | edit (file : Except Str Str) : Step cfg s (.edit file) { s with keyFile := file }

variable {cfg : Setup.ServerConfigFile} {s s' : State X ι}

theorem move_eq_some {i : ι} {b : Conn.Action} (h : s.move i b = some s') :
    ∃ c, (s.conns i).step b = some c ∧ s' = s.setConn i c := by
  obtain ⟨c, hc, rfl⟩ := Option.map_eq_some_iff.1 h
  exact ⟨c, hc, rfl⟩

theorem move_of_step {i : ι} {b : Conn.Action} {c : Conn X} (h : (s.conns i).step b = some c) :
    s.move i b = some (s.setConn i c) := by
  rw [State.move, h]
  rfl

theorem step_cases {a : Action ι} (h : step cfg s a = some s') : s.stopped = none ∧ Step cfg s a s' := by
  unfold step at h
  split at h
  · cases h
  rename_i hgo
  refine ⟨by simpa using hgo, ?_⟩
  cases a with
  | accept via i =>
    cases via with
    | tls =>
      obtain ⟨c, hc, rfl⟩ := move_eq_some h
      exact .accept .tls i c nofun hc
    | plain =>
      simp only at h
      split at h
      · rename_i hp
        obtain ⟨c, hc, rfl⟩ := move_eq_some h
        exact .accept .plain i c (fun _ => hp) hc
      · cases h
  | acceptErr via e =>
    cases via with
    | tls => cases h; exact .acceptErr e
    | plain =>
      simp only at h
      split at h
      · cases h; exact .acceptErrPlain e
      · cases h
  | handshake i r =>
    obtain ⟨c, hc, rfl⟩ := move_eq_some h
    exact .handshake i r c hc
  | runSession i nonce sessionId =>
    obtain ⟨c, hc, rfl⟩ := move_eq_some h
    exact .runSession i nonce sessionId c hc
  | session i a =>
    obtain ⟨c, hc, rfl⟩ := move_eq_some h
    exact .session i a c hc
  | edit file => cases h; exact .edit file

/-- The plaintext listener is bound at the start, or never. -/
theorem plain_step {a : Action ι} (h : step cfg s a = some s') : s'.plain = s.plain := by
  cases (step_cases h).2 <;> rfl

theorem plain_run {as : List (Action ι)} (h : run cfg s as = some s') : s'.plain = s.plain :=
  Lts.run_rel (fun s t : State X ι => t.plain = s.plain) (fun _ => rfl) (fun _ _ _ h1 h2 => Eq.trans h2 h1)
    (fun _ _ _ hs => plain_step hs) h

/-- **Only a failing `accept` of the TLS listener ends the server.** -/
theorem stopped_step {a : Action ι} (h : step cfg s a = some s') :
    s'.stopped = none ↔ ∀ e, a ≠ .acceptErr .tls e := by
  obtain ⟨hgo, hs⟩ := step_cases h
  cases hs with
  | acceptErr e => simp
  | acceptErrPlain e => simp [hgo]
  | _ => simp [State.setConn, hgo]

theorem stopped_run {as : List (Action ι)} (h : run cfg s as = some s') (h0 : s.stopped = none) :
    s'.stopped = none ↔ ∀ e, .acceptErr .tls e ∉ as := by
  induction as generalizing s with
  | nil =>
    rw [run, Lts.run_nil, Option.some.injEq] at h
    simp [← h, h0]
  | cons a as ih =>
    obtain ⟨m, hm, hrun⟩ := Lts.run_cons.1 h
    cases hmid : m.stopped with
    | none =>
      rw [ih hrun hmid]
      have hne := (stopped_step hm).1 hmid
      simp only [List.mem_cons, not_or]
      exact forall_congr' fun e => ⟨fun h => ⟨fun he => hne e he.symm, h⟩, fun h => h.2⟩
    | some e =>
      -- nothing is done by a server that has ended
      have hend : ¬ ∀ e, a ≠ .acceptErr .tls e := fun hall => by
        rw [(stopped_step hm).2 hall] at hmid
        cases hmid
      have has : as = [] := by
        cases as with
        | nil => rfl
        | cons b bs =>
          obtain ⟨m', hm', -⟩ := Lts.run_cons.1 hrun
          rw [(step_cases hm').1] at hmid
          cases hmid
      subst has
      rw [Lts.run_nil, Option.some.injEq] at hrun
      subst hrun
      push Not at hend
      obtain ⟨e', rfl⟩ := hend
      simp [hmid]

end Transitions

/-! ## One connection -/

/-- The session of the connection `i` began in the run `as` with the environment `E`. -/
def Began [DecidableEq ι] (cfg : Setup.ServerConfigFile) (s₀ : State X ι) (as : List (Action ι)) (i : ι)
    (E : Session.Env) : Prop :=
  ∃ pre post nonce sessionId m, as = pre ++ .runSession i nonce sessionId :: post ∧ run cfg s₀ pre = some m ∧
    E = m.env cfg nonce sessionId

/-- What a connection may do by itself: plaintext only where `plain`, and with an environment that is `ok`. -/
def Conn.Action.Allowed (plain : Prop) (ok : Session.Env → Prop) : Conn.Action → Prop
  | .accept .plain => plain
  | .runSession E => ok E
  | _ => True

/-- How a connection has come to where it is. -/
def Conn.Came (plain : Prop) (ok : Session.Env → Prop) : Conn X → Prop
  | .ready via => via = .plain → plain
  | .session via E s => (via = .plain → plain) ∧ ok E ∧ ∃ as, Session.run E (Session.init X) as = some s
  | _ => True

theorem came_step {plain : Prop} {ok : Session.Env → Prop} {c c' : Conn X} {b : Conn.Action}
    (hb : b.Allowed plain ok) (hc : c.Came plain ok) (h : c.step b = some c') : c'.Came plain ok := by
  cases c with
  | free =>
    cases b with
    | accept via =>
      cases via with
      | tls => cases h; trivial
      | plain => cases h; exact fun _ => hb
    | _ => cases h
  | handshake =>
    cases b with
    | handshake r =>
      cases r with
      | ok u => cases h; exact nofun
      | error e => cases h; trivial
    | _ => cases h
  | refused => cases b <;> cases h
  | ready via =>
    cases b with
    | runSession E => cases h; exact ⟨hc, hb, [], rfl⟩
    | _ => cases h
  | session via E s =>
    cases b with
    | session a =>
      obtain ⟨t, ht, rfl⟩ := Option.map_eq_some_iff.1 h
      obtain ⟨hvia, hE, as, hrun⟩ := hc
      exact ⟨hvia, hE, as ++ [a], Lts.run_snoc.2 ⟨s, hrun, ht⟩⟩
    | _ => cases h

section Runs

variable [DecidableEq ι] {cfg : Setup.ServerConfigFile} {s₀ s : State X ι} {as : List (Action ι)}

/-- A connection runs by itself: it moves, or others do. -/
theorem conn_proj (h : run cfg s₀ as = some s) (i : ι) : ∃ bs, Lts.run Conn.step (s₀.conns i) bs = some (s.conns i) ∧
    Lts.Meets Conn.step (fun _ b => b.Allowed (s₀.plain = true) (Began cfg s₀ as i)) (s₀.conns i) bs := by
  refine Lts.run_view (fun s : State X ι => s.conns i) ?_ (Lts.meets_at (step cfg) s₀ as) h
  rintro m a m' ⟨pre, post, has, hpre⟩ hs
  have hmoves : ∀ {j : ι} {b : Conn.Action} {c : Conn X}, (m.conns j).step b = some c →
      (j = i → b.Allowed (s₀.plain = true) (Began cfg s₀ as i)) →
      (m.setConn j c).conns i = m.conns i ∨ ∃ b : Conn.Action, b.Allowed (s₀.plain = true) (Began cfg s₀ as i) ∧
        (m.conns i).step b = some ((m.setConn j c).conns i) := by
    intro j b c hc hb
    by_cases hij : j = i
    · subst hij
      exact Or.inr ⟨b, hb rfl, by rw [setConn_self]; exact hc⟩
    · exact Or.inl (setConn_ne m (Ne.symm hij) c)
  cases (step_cases hs).2 with
  | accept via j c hvia hc =>
    refine hmoves hc fun _ => ?_
    cases via with
    | tls => trivial
    | plain => exact (plain_run hpre).symm.trans (hvia rfl)
  | acceptErr e => exact Or.inl rfl
  | acceptErrPlain e => exact Or.inl rfl
  | handshake j r c hc => exact hmoves hc fun _ => trivial
  | runSession j nonce sessionId c hc =>
    refine hmoves hc fun hij => ?_
    subst hij
    exact ⟨pre, post, nonce, sessionId, m, has, hpre, rfl⟩
  | session j a c hc => exact hmoves hc fun _ => trivial
  | edit file => exact Or.inl rfl

/-- **Every session of a server is a run of a session by itself**, with the key file of the moment it began. -/
theorem conn_run (h : run cfg s₀ as = some s) {i : ι} (h0 : s₀.conns i = .free) {via : Via} {E : Session.Env}
    {t : Session.State X} (hc : s.conns i = .session via E t) :
    (via = .plain → s₀.plain = true) ∧ Began cfg s₀ as i E ∧
      ∃ bs, Session.run E (Session.init X) bs = some t := by
  obtain ⟨bs, hrun, hmeets⟩ := conn_proj h i
  have hcame : (s.conns i).Came (s₀.plain = true) (Began cfg s₀ as i) :=
    Lts.run_inv_meets (Conn.Came (s₀.plain = true) (Began cfg s₀ as i)) (fun _ _ _ hG hi hs => came_step hG hi hs)
      hmeets (by rw [h0]; trivial) hrun
  rw [hc] at hcame
  exact hcame

/-- The steps of a session are steps of its server. -/
theorem run_conn (cfg : Setup.ServerConfigFile) {i : ι} {via : Via} {E : Session.Env} {t t' : Session.State X}
    {bs : List Session.Action} (hgo : s.stopped = none) (hc : s.conns i = .session via E t)
    (h : Session.run E t bs = some t') :
    run cfg s (bs.map (.session i)) = some (s.setConn i (.session via E t')) := by
  induction bs generalizing s t with
  | nil =>
    rw [Session.run, Lts.run_nil, Option.some.injEq] at h
    subst h
    show some s = _
    rw [State.setConn, ← hc, Function.update_eq_self]
  | cons b bs ih =>
    obtain ⟨u, hu, hrun⟩ := Lts.run_cons.1 h
    have hmove : (s.conns i).step (.session b) = some (.session via E u) := by
      rw [hc, Conn.step, hu, Option.map_some]
    have hstep : step cfg s (.session i b) = some (s.setConn i (.session via E u)) := by
      unfold step
      rw [if_neg (by rw [hgo]; nofun)]
      exact move_of_step hmove
    have hrest := ih (s := s.setConn i (.session via E u)) hgo (setConn_self s i _) hrun
    rw [setConn_setConn] at hrest
    exact Lts.run_cons.2 ⟨_, hstep, hrest⟩

/-- A new connection gets to its session. -/
theorem run_accept (cfg : Setup.ServerConfigFile) {i : ι} (hgo : s.stopped = none) (hc : s.conns i = .free)
    (nonce : ByteArr 32) (sessionId : Str) :
    run cfg s [.accept .tls i, .handshake i (.ok ()), .runSession i nonce sessionId] =
      some (s.setConn i (.session .tls (s.env cfg nonce sessionId) (Session.init X))) := by
  simp [run, Lts.run, step, hgo, hc, State.move, Conn.step, State.setConn, State.env]

/-- A connection that is accepted, sends a response and a request. -/
def servingActions (E : Session.Env) (i : ι) (resp req : Frame) (entry : AuthorizedKey X) : List (Action ι) :=
  [.accept .tls i, .handshake i (.ok ()), .runSession i E.nonce E.sessionId] ++
    (Session.servedActions E resp req entry).map (.session i)

/-- It is served. -/
theorem run_serving (cfg : Setup.ServerConfigFile) {i : ι} {nonce : ByteArr 32} {sessionId : Str}
    {keys : List (AuthorizedKey X)} {resp req : Frame} {entry : AuthorizedKey X} {ar : AuthResponsePayload}
    {shell : Str} (hgo : s.stopped = none) (hc : s.conns i = .free)
    (hkeys : loadAuthorizedKeys X s.keyFile = .ok keys)
    (hacc : Session.Accepted (s.env cfg nonce sessionId) keys resp entry ar)
    (hreq : Session.permitted (X := X) (s.env cfg nonce sessionId) req = some shell) (hargv : 2 ≤ cfg.shellArgv.length)
    (hf : ∀ f ∈ [Session.challenge (s.env cfg nonce sessionId), resp,
      Session.authOk (s.env cfg nonce sessionId) entry, req], f.Fits DEFAULT_MAX_PAYLOAD_LEN) :
    ∃ t, run cfg s (servingActions (s.env cfg nonce sessionId) i resp req entry) =
        some (s.setConn i (.session .tls (s.env cfg nonce sessionId) t)) ∧
      Session.spawnsOf t.log = [cfg.shellArgv ++ [shell]] := by
  obtain ⟨t, hrun, -, hlog⟩ := Session.accepted_spawns hkeys hacc hreq hargv hf
  have hopen := run_accept cfg hgo hc nonce sessionId
  have hserve := run_conn cfg (s := s.setConn i (.session .tls (s.env cfg nonce sessionId) (Session.init X)))
    hgo (setConn_self s i _) hrun
  rw [setConn_setConn] at hserve
  refine ⟨t, Lts.run_append.2 ⟨_, hopen, hserve⟩, ?_⟩
  rw [hlog]
  rfl

/-- The configuration that `init` writes, and a server run with it. -/
def sampleConfig : Setup.ServerConfigFile := Setup.initForDir ⟨false, [".sao".toList]⟩

def sampleServer : State Ext.sample Nat :=
  runServer sampleConfig (.ok ⟨[Sample.certificate], Sample.secretKey.1⟩) (fun _ => .ok ()) (.ok Sample.keyFile)

theorem sample_fits : ∀ f ∈ [Session.challenge Session.sampleEnv, Session.sampleResponse,
    Session.authOk Session.sampleEnv Sample.entry, Session.sampleRequest], f.Fits DEFAULT_MAX_PAYLOAD_LEN := by
  decide +kernel

/-- The sample server runs the command of the sample client. -/
theorem served_sample : ∃ t, run sampleConfig sampleServer
      (servingActions Session.sampleEnv 0 Session.sampleResponse Session.sampleRequest Sample.entry) =
        some (sampleServer.setConn 0 (.session .tls Session.sampleEnv t)) ∧
    Session.spawnsOf t.log = [["bash".toList, "-lc".toList, "id".toList]] :=
  run_serving sampleConfig (s := sampleServer) (i := 0) rfl rfl Sample.load_keyFile Session.accepted_sample
    Session.permitted_sample (by decide) sample_fits

/-! ## Authority -/

variable {tls : Except CoreError Setup.TlsServerConfig} {bind : Str → Except Str Unit} {keyFile : Except Str Str}

theorem plainBound_asked (h : plainBound cfg bind = true) :
    cfg.allowInsecurePlain = true ∧ cfg.insecurePlainListen.isSome = true := by
  unfold plainBound at h
  rw [Bool.and_eq_true] at h
  refine ⟨h.1, ?_⟩
  cases hl : cfg.insecurePlainListen with
  | none =>
    rw [hl] at h
    cases h.2
  | some addr => rfl

/-- **Authority.** In every run of a server, whatever its connections send, however they interleave and whoever
edits the key file: a session that has spawned something began at one moment of the run; the key file of that
moment has an active line with the key under which its response verifies over this session's own nonce and id;
the commands are those of a subsequence of its later requests, none with a deny pattern of the configuration. A
session is in plaintext only where the configuration asks for it. -/
theorem server_authorizes (h : run cfg (runServer cfg tls bind keyFile) as = some s) {i : ι} {via : Via}
    {E : Session.Env} {t : Session.State X} (hc : s.conns i = .session via E t) :
    (via = .plain → cfg.allowInsecurePlain = true ∧ cfg.insecurePlainListen.isSome = true) ∧
    ∃ (pre post : List (Action ι)) (nonce : ByteArr 32) (sessionId : Str) (m : State X ι),
      as = pre ++ .runSession i nonce sessionId :: post ∧ run cfg (runServer cfg tls bind keyFile) pre = some m ∧
      E = m.env cfg nonce sessionId ∧ (Session.spawnsOf t.log = [] ∨ ∃ resp rest ar text n key sig,
        t.received = encodeAll (resp :: rest) ++ t.inbuf ∧
        m.keyFile = .ok text ∧ Session.Authenticated X E resp ar text n key sig ∧
        ∃ shells : List Str, Session.spawnsOf t.log = shells.map (fun shell => cfg.shellArgv ++ [shell]) ∧
          shells.Sublist (rest.filterMap (Session.execShellOf X)) ∧
          ∀ shell ∈ shells, ∀ pat ∈ cfg.policy.denySubstrings, ¬ pat <:+: shell) := by
  obtain ⟨hvia, ⟨pre, post, nonce, sessionId, m, has, hpre, rfl⟩, bs, hrun⟩ := conn_run h rfl hc
  refine ⟨fun hp => plainBound_asked (hvia hp), pre, post, nonce, sessionId, m, has, hpre, rfl, ?_⟩
  have hinv := Session.inv_run hrun
  rcases hinv.stage.spawned with hnil | ⟨resp, rest, entry, hserved⟩
  · exact Or.inl hnil
  · right
    have hstream := hinv.base.stream
    rw [hserved.reads] at hstream
    have hsub := hserved.spawns
    rw [List.append_nil] at hsub
    obtain ⟨ar, text, n, sig, hauth⟩ := hserved.authenticated
    exact ⟨resp, rest, ar, text, n, _, sig, hstream, hauth.file, hauth, Session.argvOf_sublist hsub⟩

end Runs

/-- The sample server has read the key file for the session that spawns. -/
theorem server_authorizes_sample : ∃ (s m : State Ext.sample Nat) (t : Session.State Ext.sample)
      (pre : List (Action Nat)), s.conns 0 = .session .tls Session.sampleEnv t ∧ run sampleConfig sampleServer pre = some m ∧
    ∃ text n key, m.keyFile = .ok text ∧ ActiveLine Ext.sample text n key := by
  obtain ⟨t, hrun, hspawns⟩ := served_sample
  obtain ⟨-, pre, post, nonce, sessionId, m, -, hpre, -, hauth⟩ :=
    server_authorizes hrun (setConn_self sampleServer 0 _)
  rcases hauth with hnil | ⟨resp, rest, ar, text, n, key, sig, -, htext, hauth, -⟩
  · rw [hspawns] at hnil
    cases hnil
  · exact ⟨_, m, t, pre, setConn_self sampleServer 0 _, hpre, text, n, key, htext, hauth.line⟩

/-! ## Keys that come and go -/

/-- The key is on no active line of the file. -/
def Unlisted (X : Ext) (key : ByteArr 32) (file : Except Str Str) : Prop :=
  ∀ text, file = .ok text → ∀ n, ¬ ActiveLine X text n key

/-- What a session has accepted is listed. -/
def Listed (E : Session.Env) (t : Session.State X) : Prop :=
  ∀ entry sig, .authed entry sig ∈ t.log →
    ∃ text n, E.authorizedKeys = .ok text ∧ ActiveLine X text n entry.verifyingKey.bytes

theorem listed_step {E : Session.Env} {t t' : Session.State X} {a : Session.Action} (hi : Session.Inv E t)
    (h : Listed E t) (hs : Session.step E t a = some t') : Listed E t' := by
  obtain ⟨l, hl, hauthed⟩ := Session.log_step hs
  intro entry sig hm
  rw [hl, List.mem_append] at hm
  rcases hm with hm | hm
  · exact h entry sig hm
  · obtain ⟨f, ar, -, hacc, -⟩ := hauthed entry sig hm
    exact hi.base.keys entry (findKey_some hacc.found).1

theorem listed_run {E : Session.Env} {t : Session.State X} {as : List Session.Action}
    (h : Session.run E (Session.init X) as = some t) : Listed E t :=
  (Lts.run_inv (fun t => Session.Inv E t ∧ Listed E t)
    (fun _ _ _ hi hs => ⟨Session.inv_step hi.1 hs, listed_step hi.1 hi.2 hs⟩) ⟨Session.inv_init, nofun⟩ h).2

section Edits

variable [DecidableEq ι] {cfg : Setup.ServerConfigFile} {m s : State X ι} {post : List (Action ι)} {key : ByteArr 32}

/-- A key that nobody puts back stays off the file. -/
theorem unlisted_run (hgone : Unlisted X key m.keyFile) (hedits : ∀ f, .edit f ∈ post → Unlisted X key f)
    (h : run cfg m post = some s) : Unlisted X key s.keyFile := by
  have hstep : ∀ (s : State X ι) (a : Action ι) (s' : State X ι), a ∈ post → Unlisted X key s.keyFile →
      step cfg s a = some s' → Unlisted X key s'.keyFile := by
    intro s a s' ha hi hs
    cases (step_cases hs).2 with
    | edit file => exact hedits file ha
    | _ => exact hi
  exact Lts.run_inv_of (· ∈ post) (fun s : State X ι => Unlisted X key s.keyFile) hstep (fun _ ha => ha) hgone h

/-- **Revocation.** Once a key is off the file and as long as nobody puts it back, no session that begins
accepts it, however many were open before and whatever any of them does. -/
theorem revoked (hgone : Unlisted X key m.keyFile) (hedits : ∀ f, .edit f ∈ post → Unlisted X key f)
    (h : run cfg m post = some s) {i : ι} (hnew : ∀ via E t, m.conns i ≠ .session via E t) {via : Via} {E : Session.Env}
    {t : Session.State X} (hc : s.conns i = .session via E t) :
    (∀ entry sig, .authed entry sig ∈ t.log → entry.verifyingKey.bytes ≠ key) ∧
    (Session.spawnsOf t.log ≠ [] → ∃ resp ar text n key' sig,
      Session.Authenticated X E resp ar text n key' sig ∧ key' ≠ key) := by
  obtain ⟨bs, hbs, hmeets⟩ := conn_proj h i
  have hcame : (s.conns i).Came True (Began cfg m post i) := by
    refine Lts.run_inv_meets (Conn.Came True (Began cfg m post i)) (fun _ _ _ hG hi hs => came_step hG hi hs)
      (hmeets.mono fun _ b hb => ?_) ?_ hbs
    · cases b with
      | accept via => cases via <;> trivial
      | _ => exact hb
    · cases hm : m.conns i with
      | session via E t => exact absurd hm (hnew via E t)
      | ready via => exact fun _ => trivial
      | _ => trivial
  rw [hc] at hcame
  obtain ⟨-, ⟨pre', post', nonce, sessionId, m', has, hpre', rfl⟩, as', hrun⟩ := hcame
  -- the file of the moment the session began
  have hfile : Unlisted X key m'.keyFile := by
    refine unlisted_run hgone (fun f hf => hedits f ?_) hpre'
    rw [has]
    exact List.mem_append_left _ hf
  refine ⟨fun entry sig hm hkey => ?_, fun hsp => ?_⟩
  · obtain ⟨text, n, htext, hline⟩ := listed_run hrun entry sig hm
    exact hfile text htext n (hkey ▸ hline)
  · rcases (Session.inv_run hrun).stage.spawned with hnil | ⟨resp, rest, entry, hserved⟩
    · exact absurd hnil hsp
    · obtain ⟨ar, text, n, sig, hauth⟩ := hserved.authenticated
      exact ⟨resp, ar, text, n, _, sig, hauth, fun hkey => hfile text hauth.file n (hkey ▸ hauth.line)⟩

theorem unlisted_empty (X : Ext) (key : ByteArr 32) : Unlisted X key (.ok []) := by
  intro text htext n hline
  obtain ⟨line, b64, rest, hat, -⟩ := hline
  cases htext
  cases hat

/-- A client that has run a command is taken off the key file: its session stays, and the next one does not begin. -/
theorem revoked_sample : ∃ (as post : List (Action Nat)) (m s : State Ext.sample Nat) (E : Session.Env)
      (t₀ t : Session.State Ext.sample), run sampleConfig sampleServer as = some m ∧
    m.conns 0 = .session .tls Session.sampleEnv t₀ ∧ Session.spawnsOf t₀.log ≠ [] ∧
    run sampleConfig m post = some s ∧ s.conns 1 = .session .tls E t ∧ (∃ e, t.pc = .done (.error e)) ∧
    ∀ entry sig, .authed entry sig ∈ t.log → entry.verifyingKey.bytes ≠ Sample.publicKey := by
  obtain ⟨t₀, hserved, hspawns⟩ := served_sample
  have hedit : run sampleConfig (sampleServer.setConn 0 (.session .tls Session.sampleEnv t₀)) [.edit (.ok [])] =
      some { sampleServer.setConn 0 (.session .tls Session.sampleEnv t₀) with keyFile := .ok [] } := rfl
  generalize hm : ({ sampleServer.setConn 0 (.session .tls Session.sampleEnv t₀) with keyFile := .ok [] } :
    State Ext.sample Nat) = m at hedit
  have hconn : m.conns 0 = .session .tls Session.sampleEnv t₀ := by
    rw [← hm]
    exact setConn_self sampleServer 0 _
  have hfree : m.conns 1 = .free := by
    rw [← hm]
    exact setConn_ne sampleServer (i := 0) (j := 1) (by decide) (.session .tls Session.sampleEnv t₀)
  have hgo : m.stopped = none := by
    rw [← hm]
    rfl
  have hfile : m.keyFile = .ok [] := by
    rw [← hm]
  -- there is no key on the file
  obtain ⟨e, hload⟩ : ∃ e, loadAuthorizedKeys Ext.sample m.keyFile = .error e := by
    rw [hfile]
    exact ⟨_, rfl⟩
  have hstart : Session.step (m.env sampleConfig Sample.nonce Sample.sessionId) (Session.init Ext.sample) .start =
      some ((Session.init Ext.sample).finish (.error ("authorized_keys: ".toList ++ e.display))) := by
    simp only [Session.step, Session.init, Session.start, State.env, hload]
  have hopen := run_accept sampleConfig hgo hfree Sample.nonce Sample.sessionId
  have hsession := run_conn sampleConfig (s := m.setConn 1 (.session .tls _ _)) hgo (setConn_self m 1 _)
    (Lts.run_cons.2 ⟨_, hstart, Lts.run_nil⟩)
  have hrun := Lts.run_append.2 ⟨_, hopen, hsession⟩
  have hnew : ∀ via E t, m.conns 1 ≠ .session via E t := fun _ _ _ h => by rw [hfree] at h; cases h
  have hran : Session.spawnsOf t₀.log ≠ [] := by
    rw [hspawns]
    exact List.cons_ne_nil _ _
  refine ⟨_, _, m, _, _, t₀, _, Lts.run_append.2 ⟨_, hserved, hedit⟩, hconn, hran, hrun, setConn_self .., ⟨_, rfl⟩, ?_⟩
  refine (revoked ?_ ?_ hrun hnew (setConn_self ..)).1
  · rw [hfile]
    exact unlisted_empty _ _
  · intro f hf
    simp at hf

/-- **Availability.** Whatever the connections of a server have done, as long as no `accept` of its TLS listener
has failed: a key that is now on the file opens the next session, which runs its request and disturbs nobody. -/
theorem admits {s₀ : State X ι} {as : List (Action ι)} (h0 : s₀.stopped = none) (h : run cfg s₀ as = some s)
    (hgo : ∀ e, .acceptErr .tls e ∉ as) {i : ι} (hc : s.conns i = .free) {nonce : ByteArr 32} {sessionId : Str}
    {keys : List (AuthorizedKey X)} {resp req : Frame} {entry : AuthorizedKey X} {ar : AuthResponsePayload}
    {shell : Str} (hkeys : loadAuthorizedKeys X s.keyFile = .ok keys)
    (hacc : Session.Accepted (s.env cfg nonce sessionId) keys resp entry ar)
    (hreq : Session.permitted (X := X) (s.env cfg nonce sessionId) req = some shell) (hargv : 2 ≤ cfg.shellArgv.length)
    (hf : ∀ f ∈ [Session.challenge (s.env cfg nonce sessionId), resp,
      Session.authOk (s.env cfg nonce sessionId) entry, req], f.Fits DEFAULT_MAX_PAYLOAD_LEN) :
    ∃ bs s' t, run cfg s bs = some s' ∧ s'.conns i = .session .tls (s.env cfg nonce sessionId) t ∧
      Session.spawnsOf t.log = [cfg.shellArgv ++ [shell]] ∧ s'.keyFile = s.keyFile ∧
      ∀ j, j ≠ i → s'.conns j = s.conns j := by
  have hlive : s.stopped = none := (stopped_run h h0).2 hgo
  obtain ⟨t, hrun, hspawns⟩ := run_serving cfg hlive hc hkeys hacc hreq hargv hf
  exact ⟨_, _, t, hrun, setConn_self s i _, hspawns, rfl, fun j hj => setConn_ne s hj _⟩

/-- The sample server runs the command of the sample client. -/
theorem admits_sample : ∃ bs s t, run sampleConfig sampleServer bs = some s ∧
    s.conns 0 = .session .tls Session.sampleEnv t ∧
    Session.spawnsOf t.log = [["bash".toList, "-lc".toList, "id".toList]] := by
  have hstart : run sampleConfig sampleServer [] = some sampleServer := rfl
  obtain ⟨bs, s, t, hrun, hconn, hspawns, -⟩ := admits rfl hstart nofun (i := 0) rfl Sample.load_keyFile
    Session.accepted_sample Session.permitted_sample (by decide) sample_fits
  exact ⟨bs, s, t, hrun, hconn, hspawns⟩

end Edits

end Sao.Serving
