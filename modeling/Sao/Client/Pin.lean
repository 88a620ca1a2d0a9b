import Sao.Lib.Prog
import Sao.Core.KnownHosts
import Sao.Core.Spki

/-!
# TLS pins on the client: `connect.rs` and the pin management of `main.rs`

The functions as programs over the operations they perform on the pin file, the network and the
terminal. What a peer presents, what the user answers and which operation fails is the
environment's choice.

| here | there |
| --- | --- |
| `Op.connect`                         | `TcpStream::connect`, the connector's `build` and `connect`; the first that fails gives the text |
| `TlsStream.peerDer`                  | `peer_certificate()` and `to_der()` |
| `connectPinned`, `connectProbe`      | `connect_pinned`, `connect_probe` |
| `confirm`                            | the `if accept_new { .. } else if stdin().is_terminal() { .. } else { .. }` of both places |
| `resolveTlsPin`, `connectWithPinManagement` | `resolve_tls_pin`, `connect_with_pin_management` |
| `trustAdd`                           | the arm `Cmd::TrustAdd` of `main` |
-/

namespace Sao.Client

open Text Prog

structure TlsStream where
  /-- The inner result is that of `to_der`. -/
  peerCertificate : Except Str (Option (Except Str Bytes))

def TlsStream.peerDer (tls : TlsStream) : Except Str Bytes :=
  match tls.peerCertificate with
  | .error e => .error e
  | .ok none => .error "no peer certificate".toList
  | .ok (some der) => der

/-- What ends a command of the client early. -/
inductive Stop where
  | err (text : Str)
  | panic
deriving DecidableEq, Repr

def Stop.ofFault : Fault → Stop
  | .err e => .err e.display
  | .panic => .panic

def Stop.ofCore (e : CoreError) : Stop := .err e.display

/-! ## Operations -/

inductive Op where
  /-- `KnownHosts::load(known_path)` -/
  | load
  /-- `kh.save(known_path)` -/
  | save (kh : KnownHosts)
  | connect (host : Str) (port : UInt16)
  /-- `io::stdin().is_terminal()` -/
  | isTerminal
  | eprint (text : Str)
  /-- `io::stdout().flush()` -/
  | flush
  /-- `io::stdin().read_line(&mut line)` -/
  | readLine
deriving DecidableEq

abbrev Op.Reply : Op → Type
  | .load => Res KnownHosts
  | .save _ => Except CoreError Unit
  | .connect _ _ => Except Str TlsStream
  | .isTerminal => Bool
  | .eprint _ => Except Str Unit
  | .flush => Except Str Unit
  | .readLine => Except Str Str

abbrev Trace := List (Event Op.Reply)

abbrev Interact := Prog Op Op.Reply Stop

def load : Interact KnownHosts := perform .load fun r => r.mapError Stop.ofFault

def save (kh : KnownHosts) : Interact Unit := perform (.save kh) fun r => r.mapError Stop.ofCore

def isTerminal : Interact Bool := perform .isTerminal .ok

/-- `eprint!` panics when the error stream cannot be written. -/
def eprint (text : Str) : Interact Unit := perform (.eprint text) fun r => r.mapError fun _ => .panic

def eprintln (text : Str) : Interact Unit := eprint (text ++ ['\n'])

def flush : Interact Unit := perform .flush fun r => r.mapError .err

def readLine : Interact Str := perform .readLine fun r => r.mapError .err

/-! ## `connect.rs` -/

variable (X : Ext) (host : Str) (port : UInt16)

def connect : Prog Op Op.Reply Str TlsStream := perform (.connect host port) id

def pinMismatch : Str := "TLS SPKI pin mismatch (possible MITM or wrong known_hosts)".toList

def connectPinned (pin : Pin) : Prog Op Op.Reply Str TlsStream := do
  let tls ← connect host port
  let der ← .ret tls.peerDer
  let got ← .ret ((spkiSha256Bytes X der).mapError fun e => "cert parse: ".toList ++ e.display)
  if got ≠ pin then throw pinMismatch else pure tls

def connectProbe : Prog Op Op.Reply Str Bytes := do
  let tls ← connect host port
  .ret tls.peerDer

/-! ## `main.rs` -/

/-- `{host}:{port}` -/
def hostPort : Str := host ++ ":".toList ++ decimal port.toNat

/-- `connect_probe` and the hex fingerprint of what it read; `what` is the text of a failed connection. -/
def probeFingerprint (what : Str) : Interact Str := do
  let der ← (connectProbe host port).mapError fun e => .err (what ++ e)
  .ret ((spkiSha256Hex X der).mapError fun e => .err ("server certificate: ".toList ++ e.display))

/-- `matches!(line.trim().to_lowercase().as_str(), "y" | "yes")` -/
def saidYes (line : Str) : Bool :=
  X.toLowercase (trim line) = "y".toList || X.toLowercase (trim line) = "yes".toList

def confirm (acceptNew : Bool) (warning first second question refusal : Str) : Interact Bool :=
  if acceptNew then do
    eprintln warning
    pure true
  else do
    let tty ← isTerminal
    if tty then
      eprintln first
      eprintln second
      eprint question
      flush
      let line ← readLine
      pure (saidYes X line)
    else throw (.err refusal)

/-- `insert_hex`, `save`, the message and `pin_hex`. -/
def storePin (kh : KnownHosts) (fpHex message : Str) : Interact Pin := do
  let kh ← .ret ((kh.insertHex X.toLowercase host port fpHex).mapError Stop.ofFault)
  save kh
  eprintln message
  .ret ((kh.pinHex X.toLowercase host port).mapError Stop.ofCore)

variable (knownPath : Str) (acceptNew : Bool)

def confirmFirstUse (fpHex : Str) : Interact Bool :=
  confirm X acceptNew
    ("Warning: saving new TLS pin for ".toList ++ hostPort host port ++ " (SPKI SHA-256 ".toList ++ fpHex ++
      ") — verify on a trusted network when possible.".toList)
    ("The authenticity of host '".toList ++ host ++ "' (port ".toList ++ decimal port.toNat ++
      ") can't be established.".toList)
    ("TLS SPKI SHA-256 fingerprint is ".toList ++ fpHex ++ ".".toList)
    "Are you sure you want to continue connecting (yes/no)? ".toList
    ("no TLS pin for ".toList ++ hostPort host port ++ ". Add with:\n  sao trust add ".toList ++ host ++
      " ".toList ++ decimal port.toNat ++ " ".toList ++ fpHex ++
      "\nOr non-interactively:\n  sao run -p ".toList ++ decimal port.toNat ++ " --accept-new ".toList ++ host ++
      " -- …".toList)

def confirmReplace (fpHex : Str) : Interact Bool :=
  confirm X acceptNew
    ("Warning: replacing TLS pin for ".toList ++ hostPort host port ++ " with new SPKI SHA-256 ".toList ++ fpHex ++
      " — verify on a trusted network.".toList)
    ("Host key for ".toList ++ hostPort host port ++ " has changed.".toList)
    ("New TLS SPKI SHA-256 fingerprint is ".toList ++ fpHex ++ ".".toList)
    "Replace the pin in known_hosts? (yes/no): ".toList
    ("TLS pin mismatch for ".toList ++ hostPort host port ++
      ". Run interactively to replace, or: sao trust add ".toList ++ host ++ " ".toList ++
      decimal port.toNat ++ " ".toList ++ fpHex)

def notAccepted : Stop := .err "Host key not accepted.".toList

def resolveTlsPin : Interact Pin := do
  let kh ← load
  match kh.pinHex X.toLowercase host port with
  | .ok pin => pure pin
  | .error (.knownHostsMissing _) =>
    let fpHex ← probeFingerprint X host port "TLS connect (trust setup): ".toList
    let save ← confirmFirstUse X host port acceptNew fpHex
    if save then
      storePin X host port kh fpHex ("Pinned ".toList ++ hostPort host port ++ " in ".toList ++ knownPath)
    else throw notAccepted
  | .error e => throw (Stop.ofCore e)

/-- The branch `Err(e) if e.to_string().contains("SPKI pin mismatch")`. -/
def replacePin : Interact TlsStream := do
  let fpHex ← probeFingerprint X host port "TLS connect (host key changed): ".toList
  let replace ← confirmReplace X host port acceptNew fpHex
  if replace then
    let kh ← load
    let newPin ← storePin X host port kh fpHex
      ("Replaced pin for ".toList ++ hostPort host port ++ " in ".toList ++ knownPath)
    (connectPinned X host port newPin).mapError .err
  else throw notAccepted

def connectWithPinManagement : Interact TlsStream := do
  let pin ← resolveTlsPin X host port knownPath acceptNew
  let r ← (connectPinned X host port pin).attempt
  match r with
  | .ok tls => pure tls
  | .error e =>
    if "SPKI pin mismatch".toList <:+: e then replacePin X host port knownPath acceptNew
    else throw (.err e)

def trustAdd (fingerprintHex : Str) : Interact Unit := do
  let kh ← load
  let kh ← .ret ((kh.insertHex X.toLowercase host port fingerprintHex).mapError Stop.ofFault)
  save kh
  eprintln ("pinned ".toList ++ hostPort host port)

end Sao.Client
