import Sao.Lib.Lts
import Sao.Core.Auth
import Sao.Protocol.FrameStream
import Sao.Server.Child

/-!
# `session.rs`: one client session

`run_session` as a transition function. A state is a suspension point of the task, `Pc`, with what
is on the stream in both directions. The task itself moves by `start`, `read`, `put`, `flushed`,
`recv`, ...; everything else is the outside: the client's bytes, the command, the timer, errors.

| here | there |
| --- | --- |
| `beginWrite`, `put`, `flushed` | `write_frame`: the length check, then `write_all` of header and payload, which may pause after any byte, then `flush` |
| `start`                       | `run_session` up to the challenge |
| `authenticate`, `handleAuth`  | from the response frame to `AUTH_RESULT` |
| `handleFrame`                 | the body of the `loop` |
| `runOneExec`                  | `run_one_exec` up to `cmd.spawn()` |
| `recv`, `waitOk`              | the future `exec` |
| `timeout`                     | the branch `Err(_)` of `tokio::time::timeout`, which drops `exec` where it is suspended |

`log` records what happened; no step reads it.
-/

namespace Sao

open MsgType

namespace Session

/-- What a session is run with: the configuration, the text of the key file, and what it draws. -/
structure Env where
  config : ServerConfig
  authorizedKeys : Except Str Str
  nonce : ByteArr 32
  sessionId : Str

/-- What follows a frame that has been written. -/
inductive Cont where
  /-- After the challenge: read the response. -/
  | authResponse
  /-- After `AUTH_RESULT` with `ok`: the loop begins. -/
  | authOk
  /-- After `POLICY_DENIED`: the loop goes on. -/
  | serve
  /-- `return Ok(())` -/
  | finish
  /-- The forwarding loop of `exec` goes on. -/
  | forward
  /-- `exec` returns. -/
  | execEnd
  /-- The timeout branch returns. -/
  | timedOut
deriving DecidableEq, Repr

inductive Pc where
  | start
  /-- In `write_frame`: `rest` is still to be put on the stream. -/
  | write (f : Frame) (rest : Bytes) (k : Cont)
  | awaitAuth
  | serve
  | spawning (argv : List Str)
  | recv
  | wait
  | done (r : Except Str Unit)
deriving DecidableEq, Repr

variable (X : Ext)

inductive Event where
  | read (f : Frame)
  | wrote (f : Frame)
  /-- The signature of the response verified under the key of the entry. -/
  | authed (entry : AuthorizedKey X) (signature : Str)
  | spawned (argv : List Str)
  /-- `child.wait()` has returned. -/
  | reaped
  /-- The timeout has dropped `exec` where it was suspended: `kill(pid, SIGKILL)`. -/
  | killed (cut : Pc)

structure State where
  /-- All bytes that have arrived from the client. -/
  received : Bytes
  /-- Those not yet read. -/
  inbuf : Bytes
  eof : Bool
  /-- All bytes put on the stream. -/
  out : Bytes
  keys : List (AuthorizedKey X)
  pc : Pc
  /-- The command spawned last. -/
  child : Option Child
  /-- The ones before it, whose processes and reader tasks may still run. -/
  leftover : List Child
  log : List (Event X)

def init : State X := ⟨[], [], false, [], [], .start, none, [], []⟩

inductive Action where
  | clientSend (b : Bytes)
  | clientClose
  | start
  | read
  | put (n : Nat)
  | flushed
  | ioError (e : Str)
  | spawnOk
  | spawnErr (e : Str)
  | recv
  | recvNone
  | waitOk
  | waitErr (e : Str)
  | timeout
  | child (a : Child.Action)
  | leftover (i : Nat) (a : Child.Action)

variable {X}

namespace State

/-- `rx` goes out of scope when `run_one_exec` returns. -/
def dropRx (s : State X) : State X := { s with child := s.child.map fun c => { c with rx := false } }

def finish (s : State X) (r : Except Str Unit) : State X := { s.dropRx with pc := .done r }

def beginWrite (s : State X) (f : Frame) (k : Cont) : State X :=
  match encodeFrame DEFAULT_MAX_PAYLOAD_LEN f.msgType f.payload with
  | .ok b => { s with pc := .write f b k }
  | .error e => s.finish (.error e.display)

def emit (s : State X) (e : Event X) : State X := { s with log := s.log ++ [e] }

end State

open State

/-! ## Authentication -/

inductive Verdict (X : Ext) where
  | expectedAuthResponse
  | malformed (e : Str)
  | fail (reason message : Str)
  | ok (entry : AuthorizedKey X) (signature : Str)

variable (E : Env)

def challenge : Frame := jsonFrame AUTH_CHALLENGE (challengeJson E.nonce.1 E.sessionId)

def start (s : State X) : State X :=
  match loadAuthorizedKeys X E.authorizedKeys with
  | .error e => s.finish (.error ("authorized_keys: ".toList ++ e.display))
  | .ok keys => { s with keys }.beginWrite (challenge E) .authResponse

def authenticate (keys : List (AuthorizedKey X)) (resp : Frame) : Verdict X :=
  if resp.msgType ≠ AUTH_RESPONSE then .expectedAuthResponse
  else match X.authResponse resp.payload with
    | .error e => .malformed e
    | .ok ar =>
      if ar.keyType ≠ KEY_TYPE_ED25519 then .fail "UNSUPPORTED_KEY_TYPE".toList "only sao-ed25519".toList
      else match findKey X keys ar.fingerprint with
        | none => .fail "UNKNOWN_KEY".toList "fingerprint not in authorized_keys".toList
        | some entry =>
          match verifyEd25519Signature X entry.verifyingKey (signingBytes E.nonce.1 E.sessionId) ar.signature with
          | .error e => .fail "BAD_SIGNATURE".toList e.display
          | .ok () => .ok entry ar.signature

/-- `policy_group` of the answer. -/
def policyGroup (entry : AuthorizedKey X) : Str :=
  (E.config.policyGroupByFingerprint.lookup (X.toLowercase entry.fingerprintHex)).getD E.config.policyGroupDefault

def agentName (entry : AuthorizedKey X) : Option Str :=
  if entry.comment = [] then none else some entry.comment

def authOk (entry : AuthorizedKey X) : Frame :=
  jsonFrame AUTH_RESULT (authOkJson (agentName entry) (policyGroup E entry))

def sendError (s : State X) (code message : Str) : State X :=
  s.beginWrite (jsonFrame ERROR (errorJson code message)) .finish

def sendAuthFail (s : State X) (reason message : Str) : State X :=
  s.beginWrite (jsonFrame AUTH_RESULT (authFailJson reason message)) .finish

def handleAuth (s : State X) (resp : Frame) : State X :=
  match authenticate E s.keys resp with
  | .expectedAuthResponse => sendError s "EXPECTED_AUTH_RESPONSE".toList "expected AuthResponse".toList
  | .malformed e => s.finish (.error e)
  | .fail reason message => sendAuthFail s reason message
  | .ok entry signature => (s.emit (.authed entry signature)).beginWrite (authOk E entry) .authOk

/-! ## Requests -/

def runOneExec (s : State X) (shell : Str) : State X :=
  match checkShell X E.config.policy shell with
  | .error (.policyDenied msg) => s.beginWrite (jsonFrame POLICY_DENIED (policyDeniedJson msg)) .serve
  | _ =>
    if E.config.shellArgv.length < 2 then
      s.finish (.error "shell_argv must have at least [program, -lc]".toList)
    else { s with pc := .spawning (E.config.shellArgv ++ [shell]) }

def handleFrame (s : State X) (f : Frame) : State X :=
  if f.msgType = EXEC_SHELL then
    match X.execShell f.payload with
    | .error e => s.finish (.error e)
    | .ok shell => runOneExec E s shell
  else sendError s "UNKNOWN_MSG_TYPE".toList "only ExecShell allowed after auth".toList

/-! ## The command -/

def chunkFrame (c : StreamChunk) : Frame :=
  jsonFrame (match c.fd with | .out => STREAM_STDOUT | .err => STREAM_STDERR) (streamJson c.data)

def exitFrame (code : Int32) : Frame := jsonFrame EXEC_EXIT (execExitJson code)

/-- `cmd.spawn()` has succeeded. -/
def spawned (s : State X) (argv : List Str) : State X :=
  { s.emit (.spawned argv) with
    pc := .recv, child := some (Child.spawn argv), leftover := s.leftover ++ s.child.toList }

/-- `rx.recv()` returns a chunk. -/
def recv (s : State X) (c : Child) : Option (State X) :=
  match c.queue with
  | [] => none
  | chunk :: q => some ({ s with child := some { c with queue := q } }.beginWrite (chunkFrame chunk) .forward)

/-- `child.wait()` returns. -/
def waitOk (s : State X) (c : Child) : Option (State X) :=
  match c.status with
  | none => none
  | some code => some ((s.emit .reaped).beginWrite (exitFrame (code.getD (-1))) .execEnd)

def timeout (s : State X) : State X := (s.emit (.killed s.pc)).beginWrite (exitFrame 124) .timedOut

/-! ## Steps -/

/-- The frame `f` is on the stream and flushed. -/
def afterWrite (s : State X) (f : Frame) : Cont → State X
  | .authResponse => { s.emit (.wrote f) with pc := .awaitAuth }
  | .authOk => { s.emit (.wrote f) with pc := .serve }
  | .serve => { s.emit (.wrote f) with pc := .serve }
  | .finish => (s.emit (.wrote f)).finish (.ok ())
  | .forward => { s.emit (.wrote f) with pc := .recv }
  | .execEnd => { (s.emit (.wrote f)).dropRx with pc := .serve }
  | .timedOut => { (s.emit (.wrote f)).dropRx with pc := .serve }

/-- `read_frame`: waits while the stream holds no whole frame and may go on. `eof` is what an
early end of the stream makes of the session. -/
def read (s : State X) (handle : State X → Frame → State X) (eof : Except Str Unit) : Option (State X) :=
  match readFrame DEFAULT_MAX_PAYLOAD_LEN s.inbuf with
  | .ok (f, r) => some (handle ({ s with inbuf := r }.emit (.read f)) f)
  | .error .unexpectedEof => if s.eof then some (s.finish eof) else none
  | .error e => some (s.finish (.error e.display))

/-- The task is inside the future `exec`. -/
def Pc.inExec : Pc → Bool
  | .recv | .wait | .write _ _ .forward | .write _ _ .execEnd => true
  | _ => false

/-- The task waits for the stream. -/
def Pc.onStream : Pc → Bool
  | .awaitAuth | .serve | .write _ _ _ => true
  | _ => false

def step (s : State X) : Action → Option (State X)
  | .clientSend b => if s.eof then none else some { s with received := s.received ++ b, inbuf := s.inbuf ++ b }
  | .clientClose => some { s with eof := true }
  | .child a =>
    match s.child with
    | none => none
    | some c => (c.step a).map fun c => { s with child := some c }
  | .leftover i a =>
    match s.leftover[i]? with
    | none => none
    | some c => (c.step a).map fun c => { s with leftover := s.leftover.set i c }
  | .start =>
    match s.pc with
    | .start => some (start E s)
    | _ => none
  | .read =>
    match s.pc with
    | .awaitAuth => read s (handleAuth E) (.error ProtocolError.unexpectedEof.display)
    | .serve => read s (handleFrame E) (.ok ())
    | _ => none
  | .put n =>
    match s.pc with
    | .write f rest k =>
      if 0 < n ∧ n ≤ rest.length then some { s with out := s.out ++ rest.take n, pc := .write f (rest.drop n) k }
      else none
    | _ => none
  | .flushed =>
    match s.pc with
    | .write f [] k => some (afterWrite s f k)
    | _ => none
  | .ioError e => if s.pc.onStream then some (s.finish (.error (ProtocolError.io e).display)) else none
  | .spawnOk =>
    match s.pc with
    | .spawning argv => some (spawned s argv)
    | _ => none
  | .spawnErr e =>
    match s.pc with
    | .spawning _ => some (s.finish (.error e))
    | _ => none
  | .recv =>
    match s.pc, s.child with
    | .recv, some c => recv s c
    | _, _ => none
  | .recvNone =>
    match s.pc, s.child with
    | .recv, some c => if c.queue = [] ∧ c.sendersGone then some { s with pc := .wait } else none
    | _, _ => none
  | .waitOk =>
    match s.pc, s.child with
    | .wait, some c => waitOk s c
    | _, _ => none
  | .waitErr e =>
    match s.pc with
    | .wait => some (s.finish (.error e))
    | _ => none
  | .timeout => if s.pc.inExec then some (timeout s) else none

/-- The state reached by a sequence of actions from the start of the task. -/
def run (s : State X) (as : List Action) : Option (State X) := Lts.run (step E) s as

end Session

end Sao
