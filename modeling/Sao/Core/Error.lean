import Sao.Lib.Text

/-!
# `CoreError` (`error.rs`)

The variants the modelled functions produce, with the text `Display` gives them. A call may also
panic (a slice off a character boundary), which is an outcome of its own.
-/

namespace Sao

inductive CoreError where
  | io (e : Str)
  | yaml (e : Str)
  | knownHostsLine (s : Str)
  | knownHostsMissing (s : Str)
  | invalidFingerprint (s : Str)
  | authorizedKeys (s : Str)
  | ed25519 (s : Str)
  | policyDenied (s : Str)
  | x509 (s : Str)
deriving DecidableEq, Repr

def CoreError.display : CoreError → Str
  | .io e => "io: ".toList ++ e
  | .yaml e => "yaml: ".toList ++ e
  | .knownHostsLine s => "invalid known_hosts line: ".toList ++ s
  | .knownHostsMissing s => "unknown host:port in known_hosts: ".toList ++ s
  | .invalidFingerprint s => "invalid fingerprint (expect 64 hex chars): ".toList ++ s
  | .authorizedKeys s => "authorized_keys: ".toList ++ s
  | .ed25519 s => "ed25519: ".toList ++ s
  | .policyDenied s => "policy denied: ".toList ++ s
  | .x509 s => "x509 parse: ".toList ++ s

/-- The call returned `Err`, or it panicked. -/
inductive Fault where
  | err (e : CoreError)
  | panic
deriving DecidableEq, Repr

abbrev Res := Except Fault

end Sao
