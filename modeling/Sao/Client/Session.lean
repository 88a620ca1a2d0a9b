import Sao.Lib.LineWriter
import Sao.Lib.Lts
import Sao.Core.Auth
import Sao.Protocol.FrameStream

/-!
# `main.rs`: one session of the client

`run_session` as a transition function, in the shape of the server's: a state is a suspension point
of the task with what is on the stream in both directions. The task moves by `start`, `read`, `put`
and `flushed`; the bytes that arrive and the errors are the outside's.

| here | there |
| --- | --- |
| `Env.signingKey`          | what `load_or_create_signing_key` returned |
| `answerChallenge`         | from the challenge frame to the response |
| `handleResult`            | from the result frame to the request |
| `handleReply`             | the body of the `loop` |
| `Outcome`                 | `process::exit`, the error `main` returns, or a panic |
| `stdout`, `stderr`        | what the client writes of the replies |
| `held`                    | the end of `stdout` that is still in its `LineWriter` |
| `State.file`              | what the standard output gets when the last flush ends after `n` bytes |

The standard output is line-buffered, and whoever ends the client flushes it without looking at the error; the
standard error has no buffer.

`log` records what happened; no step reads it.
-/

namespace Sao.ClientSession

open MsgType

structure Env where
  signingKey : Except CoreError (ByteArr 32)
  shellLine : Str

inductive Cont where
  /-- After `AUTH_RESPONSE`. -/
  | awaitResult
  /-- After `EXEC_SHELL`: the loop begins. -/
  | replies
deriving DecidableEq, Repr

inductive Outcome where
  | exit (code : Int32)
  | err (text : Str)
  /-- `eprintln!` on a standard error that fails. -/
  | panic
deriving DecidableEq, Repr

/-- The client has ended without `process::exit`. -/
def Outcome.Failed : Outcome → Prop
  | .exit _ => False
  | _ => True

inductive Pc where
  | start
  | awaitChallenge (signingKey : ByteArr 32)
  | write (f : Frame) (rest : Bytes) (k : Cont)
  | awaitResult
  | replies
  | done (r : Outcome)
deriving DecidableEq, Repr

inductive Event where
  | read (f : Frame)
  | wrote (f : Frame)
  /-- `sign_auth_message` has signed these bytes. -/
  | signed (message : Bytes) (signature : ByteArr 64)
deriving DecidableEq, Repr

structure State where
  /-- All bytes that have arrived from the server. -/
  received : Bytes
  /-- Those not yet read. -/
  inbuf : Bytes
  eof : Bool
  /-- All bytes put on the stream. -/
  out : Bytes
  stdout : Bytes
  /-- The end of `stdout` that its `LineWriter` has not passed on. -/
  held : Bytes
  stderr : Bytes
  pc : Pc
  log : List Event

def init : State := ⟨[], [], false, [], [], [], [], .start, []⟩

inductive Action where
  | serverSend (b : Bytes)
  | serverClose
  | start
  | read
  /-- `read` of a reply of which the standard stream takes only `n` bytes. -/
  | readBroken (n : Nat) (e : Str)
  | put (n : Nat)
  | flushed
  | ioError (e : Str)
deriving DecidableEq, Repr

namespace State

def fail (s : State) (text : Str) : State := { s with pc := .done (.err text) }

def exit (s : State) (code : Int32) : State := { s with pc := .done (.exit code) }

def emit (s : State) (e : Event) : State := { s with log := s.log ++ [e] }

/-- `eprintln!` -/
def eprintln (s : State) (text : Bytes) : State := { s with stderr := s.stderr ++ text ++ [0x0A] }

def beginWrite (s : State) (f : Frame) (k : Cont) : State :=
  match encodeFrame DEFAULT_MAX_PAYLOAD_LEN f.msgType f.payload with
  | .ok b => { s with pc := .write f b k }
  | .error e => s.fail e.display

end State

open State

variable (X : Ext)

/-! ## Authentication -/

/-- `sign_auth_message`, before its base64. -/
def signature (signingKey : ByteArr 32) (nonce : Bytes) (sessionId : Str) : ByteArr 64 :=
  X.sign signingKey (signingBytes nonce sessionId)

def authResponse (signingKey : ByteArr 32) (nonce : Bytes) (sessionId : Str) : Frame :=
  jsonFrame AUTH_RESPONSE (authResponseJson (ed25519FingerprintHex X (X.verifyingKey signingKey)) KEY_TYPE_ED25519
    (Base64.encode (signature X signingKey nonce sessionId).1))

def answerChallenge (signingKey : ByteArr 32) (s : State) (f : Frame) : State :=
  if f.msgType ≠ AUTH_CHALLENGE then s.fail "expected AuthChallenge".toList
  else match X.authChallenge f.payload with
    | .error e => s.fail e
    | .ok ch =>
      match X.base64Decode ch.nonce with
      | .error e => s.fail e
      | .ok nonce =>
        (s.emit (.signed (signingBytes nonce ch.sessionId) (signature X signingKey nonce ch.sessionId))).beginWrite
          (authResponse X signingKey nonce ch.sessionId) .awaitResult

/-- `{:?}` of an `Option<String>` -/
def debugOption : Option Str → Str
  | none => "None".toList
  | some s => "Some(".toList ++ X.debugStr s ++ ")".toList

def rejected (ar : AuthResult) : Str :=
  let reason := ar.reason.getD []
  let detail := ar.message.getD []
  if reason = "UNKNOWN_KEY".toList ∨ "authorized_keys".toList <:+: detail ∨
      "fingerprint not in authorized_keys".toList <:+: detail then
    "Authentication rejected: this agent's public key is not in the server's authorized_keys.\nRun `sao key-fingerprint` to create or refresh your key pair; append the non-comment line from ~/.sao/keys/agent.ed25519.pub to the server's authorized_keys.\nServer detail: ".toList ++
      reason ++ " ".toList ++ X.debugStr detail
  else "auth failed: ".toList ++ reason ++ " ".toList ++ debugOption X ar.message

def execShell (shellLine : Str) : Frame := jsonFrame EXEC_SHELL (execShellJson shellLine)

def handleResult (shellLine : Str) (s : State) (f : Frame) : State :=
  if f.msgType ≠ AUTH_RESULT then s.fail "expected AuthResult".toList
  else match X.authResult f.payload with
    | .error e => s.fail e
    | .ok ar => if ar.ok then s.beginWrite (execShell shellLine) .replies else s.fail (rejected X ar)

/-! ## Replies -/

/-- The bytes of a stream frame. -/
def streamBytes (f : Frame) : Except Str Bytes :=
  match X.streamData f.payload with
  | .error e => .error e
  | .ok none => .error "bad stream frame".toList
  | .ok (some data) => X.base64Decode data

/-- The buffer of `io::stdout`. -/
def STDOUT_CAPACITY : Nat := 1024

namespace State

/-- The standard stream a stream frame is written to. -/
def writeStd (s : State) (t : UInt8) (raw : Bytes) : State :=
  if t = STREAM_STDERR then { s with stderr := s.stderr ++ raw }
  else { s with
    stdout := s.stdout ++ raw
    held := LineWriter.keep 0x0A STDOUT_CAPACITY s.held raw }

/-- How much a write of `raw` passes on to the standard output. -/
def due (s : State) (raw : Bytes) : Nat :=
  s.held.length + raw.length - (LineWriter.keep 0x0A STDOUT_CAPACITY s.held raw).length

/-- What the standard output has got once `n` bytes of what is held back have been flushed. -/
def file (s : State) (n : Nat) : Bytes := LineWriter.passed s.stdout s.held n

end State

def handleReply (s : State) (f : Frame) : State :=
  if f.msgType = STREAM_STDOUT ∨ f.msgType = STREAM_STDERR then
    match streamBytes X f with
    | .error e => s.fail e
    | .ok raw => { s.writeStd f.msgType raw with pc := .replies }
  else if f.msgType = EXEC_EXIT then
    match X.exitCode f.payload with
    | .error e => s.fail e
    | .ok code => s.exit (code.getD (-1)).toInt32
  else if f.msgType = POLICY_DENIED then (s.eprintln (Bytes.utf8 (X.fromUtf8Lossy f.payload))).exit 126
  else if f.msgType = ERROR then (s.eprintln (Bytes.utf8 (X.fromUtf8Lossy f.payload))).exit 1
  else (s.eprintln (Bytes.utf8 ("unexpected msg_type 0x".toList ++ Text.hexEncode [f.msgType]))).exit 1

/-- What the client prints about the frame it ends with. -/
def printed (f : Frame) : Bytes :=
  if f.msgType = EXEC_EXIT then []
  else if f.msgType = POLICY_DENIED ∨ f.msgType = ERROR then Bytes.utf8 (X.fromUtf8Lossy f.payload) ++ [0x0A]
  else Bytes.utf8 ("unexpected msg_type 0x".toList ++ Text.hexEncode [f.msgType]) ++ [0x0A]

/-- The standard stream of the reply fails after `n` bytes. -/
def handleReplyBroken (n : Nat) (e : Str) (s : State) (f : Frame) : State :=
  if f.msgType = STREAM_STDOUT ∨ f.msgType = STREAM_STDERR then
    match streamBytes X f with
    | .error e => s.fail e
    | .ok raw =>
      if f.msgType = STREAM_STDERR then
        if n < raw.length then { s with stderr := s.stderr ++ raw.take n }.fail e else handleReply X s f
      else if 0 < s.due raw ∧ n ≤ s.due raw then
        -- what is left in the buffer is flushed once more at the end, so that `n` may be all
        { s with stdout := (s.stdout ++ raw).take (s.stdout.length - s.held.length + n), held := [] }.fail e
      -- what is only held back does not fail
      else handleReply X s f
  else if n < (printed X f).length then
    { s with stderr := s.stderr ++ (printed X f).take n, pc := .done .panic }
  else handleReply X s f

/-! ## Steps -/

def afterWrite (s : State) (f : Frame) : Cont → State
  | .awaitResult => { s.emit (.wrote f) with pc := .awaitResult }
  | .replies => { s.emit (.wrote f) with pc := .replies }

/-- `read_frame`: waits while the stream holds no whole frame and may go on. -/
def readWith (s : State) (handle : State → Frame → State) : Option State :=
  match readFrame DEFAULT_MAX_PAYLOAD_LEN s.inbuf with
  | .ok (f, r) => some (handle ({ s with inbuf := r }.emit (.read f)) f)
  | .error e => if e = .unexpectedEof ∧ s.eof = false then none else some (s.fail e.display)

/-- The task waits for the stream. -/
def Pc.onStream : Pc → Bool
  | .awaitChallenge _ | .write _ _ _ | .awaitResult | .replies => true
  | _ => false

variable (E : Env)

def step (s : State) : Action → Option State
  | .serverSend b => if s.eof then none else some { s with received := s.received ++ b, inbuf := s.inbuf ++ b }
  | .serverClose => some { s with eof := true }
  | .start =>
    match s.pc with
    | .start =>
      match E.signingKey with
      | .error e => some (s.fail e.display)
      | .ok sk => some { s with pc := .awaitChallenge sk }
    | _ => none
  | .read =>
    match s.pc with
    | .awaitChallenge sk => readWith s (answerChallenge X sk)
    | .awaitResult => readWith s (handleResult X E.shellLine)
    | .replies => readWith s (handleReply X)
    | _ => none
  | .readBroken n e =>
    match s.pc with
    | .replies => readWith s (handleReplyBroken X n e)
    | _ => none
  | .put n =>
    match s.pc with
    | .write f rest k =>
      if 0 < n ∧ n ≤ rest.length then some { s with out := s.out ++ rest.take n, pc := .write f (rest.drop n) k }
      else none
    | _ => none
  | .flushed =>
    match s.pc with
    | .write f [] k => some (afterWrite s f k)
    | _ => none
  | .ioError e => if s.pc.onStream then some (s.fail (ProtocolError.io e).display) else none

/-- The state reached by a sequence of actions from the start of the task. -/
def run (s : State) (as : List Action) : Option State := Lts.run (step X E) s as

end Sao.ClientSession
