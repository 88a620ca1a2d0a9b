import Mathlib.Data.List.AList
import Sao.Core.Error

/-!
# `known_hosts.rs`: the client's pin store and its file

| here | there |
| --- | --- |
| `KnownHosts`                 | `KnownHosts { pins: HashMap<(String, u16), [u8; 32]> }`; the order of the association list is the iteration order |
| `normalizeHost`, `parseHex32` | `normalize_host`, `parse_hex32` |
| `loadLine`, `load`           | the loop body and the whole of `KnownHosts::load` (`none`: the file does not exist) |
| `pinHex`, `insertHex`        | `KnownHosts::pin_hex`, `KnownHosts::insert_hex` |
| `saveText`                   | the text `KnownHosts::save` writes |

`str::to_lowercase` is the parameter `lower`.
-/

namespace Sao

open Text

abbrev Pin := ByteArr 32
/-- Normalized host and port. -/
abbrev HostPort := Str × UInt16

structure KnownHosts where
  pins : AList (fun _ : HostPort => Pin)
deriving DecidableEq

namespace KnownHosts

def default : KnownHosts := ⟨∅⟩

def lookup (k : KnownHosts) (key : HostPort) : Option Pin := k.pins.lookup key

def insert (k : KnownHosts) (key : HostPort) (fp : Pin) : KnownHosts := ⟨k.pins.insert key fp⟩

@[simp] theorem lookup_default (key : HostPort) : default.lookup key = none := AList.lookup_empty key

@[simp] theorem lookup_insert_self (k : KnownHosts) (key : HostPort) (fp : Pin) :
    (k.insert key fp).lookup key = some fp := AList.lookup_insert k.pins

theorem lookup_insert_ne {k : KnownHosts} {key key' : HostPort} {fp : Pin} (h : key ≠ key') :
    (k.insert key' fp).lookup key = k.lookup key := AList.lookup_insert_ne h

theorem lookup_insert (k : KnownHosts) (key key' : HostPort) (fp : Pin) :
    (k.insert key' fp).lookup key = if key = key' then some fp else k.lookup key := by
  split
  · rename_i h; subst h; exact lookup_insert_self k key fp
  · rename_i h; exact lookup_insert_ne h

theorem mem_keys_iff {k : KnownHosts} {key : HostPort} : key ∈ k.pins.keys ↔ ∃ fp, k.lookup key = some fp := by
  rw [← AList.mem_keys, ← AList.lookup_isSome, Option.isSome_iff_exists]
  rfl

end KnownHosts

def isBracket (c : Char) : Bool := c == '[' || c == ']'

variable (lower : Str → Str)

/-- `normalize_host`; both of its branches lowercase the host without its brackets. -/
def normalizeHost (h : Str) : Str :=
  let h := trimMatches isBracket h
  if h.contains ':' && !h.all (fun c => c.isDigit || c == '.' || c == ':') then lower h
  else lower h

/-- `u8::from_str_radix(&s[i * 2..i * 2 + 2], 16)` -/
def hexPair (s : Str) (i : Nat) : Res UInt8 :=
  match sliceBytes s (i * 2) (i * 2 + 2) with
  | none => .error .panic
  | some t =>
    match fromStrRadix 16 255 t with
    | none => .error (.err (.invalidFingerprint s))
    | some b => .ok (UInt8.ofNat b)

/-- The loop `for i in 0..32`, with `n` rounds to go. -/
def hexPairs (s : Str) : (n i : Nat) → Res (ByteArr n)
  | 0, _ => .ok ⟨[], rfl⟩
  | n + 1, i =>
    match hexPair s i with
    | .error e => .error e
    | .ok b =>
      match hexPairs s n (i + 1) with
      | .error e => .error e
      | .ok bs => .ok ⟨b :: bs.1, by rw [List.length_cons, bs.2]⟩

def parseHex32 (s : Str) : Res Pin :=
  let s := lower (trim s)
  if byteLen s ≠ 64 then .error (.err (.invalidFingerprint s))
  else hexPairs s 32 0

namespace KnownHosts

/-- One line of the file; `lineno` counts from 0. -/
def loadLine (k : KnownHosts) (lineno : Nat) (line : Str) : Res KnownHosts :=
  let line := trim line
  if line = [] ∨ line.head? = some '#' then .ok k
  else match splitWhitespace line with
    | host :: port :: fp :: _ =>
      match parseU16 port with
      | none => .error (.err (.knownHostsLine ("line ".toList ++ decimal (lineno + 1) ++ ": bad port".toList)))
      | some p =>
        match parseHex32 lower fp with
        | .error e => .error e
        | .ok fp => .ok (k.insert (normalizeHost lower host, p) fp)
    | _ => .error (.err (.knownHostsLine
        ("line ".toList ++ decimal (lineno + 1) ++ ": need host port fingerprint".toList)))

def loadLines (k : KnownHosts) (lineno : Nat) : List Str → Res KnownHosts
  | [] => .ok k
  | l :: ls =>
    match loadLine lower k lineno l with
    | .error e => .error e
    | .ok k => loadLines k (lineno + 1) ls

def load : Option Str → Res KnownHosts
  | none => .ok default
  | some text => loadLines lower default 0 (lines text)

def pinHex (k : KnownHosts) (host : Str) (port : UInt16) : Except CoreError Pin :=
  match k.lookup (normalizeHost lower host, port) with
  | some fp => .ok fp
  | none => .error (.knownHostsMissing (normalizeHost lower host ++ ":".toList ++ decimal port.toNat))

def insertHex (k : KnownHosts) (host : Str) (port : UInt16) (hexFp : Str) : Res KnownHosts :=
  match parseHex32 lower hexFp with
  | .error e => .error e
  | .ok fp => .ok (k.insert (normalizeHost lower host, port) fp)

/-- `a.0.cmp(&b.0).then(a.1.cmp(&b.1))` is not `Greater`; strings compare by their bytes. -/
def keyLe (a b : HostPort) : Bool :=
  ((compare (Bytes.utf8 a.1) (Bytes.utf8 b.1)).then (compare a.2 b.2)).isLE

def sortedKeys (k : KnownHosts) : List HostPort := k.pins.keys.mergeSort keyLe

/-- `format!("{host} {port} {fp}")` -/
def entryLine (e : HostPort × Pin) : Str :=
  e.1.1 ++ ' ' :: (decimal e.1.2.toNat ++ ' ' :: hexEncode e.2.1)

/-- The keys in sorted order with their pins; `self.pins[..]` never misses a key of the map. -/
def savedEntries (k : KnownHosts) : List (HostPort × Pin) :=
  k.sortedKeys.filterMap fun key => (k.lookup key).map fun fp => (key, fp)

def fileHeader : Str := "# sao known_hosts: host port spki_sha256_hex".toList

/-- `lines.join("\n")` of the header, the entries and an empty last line. -/
def saveText (k : KnownHosts) : Str :=
  List.intercalate ['\n'] (fileHeader :: k.savedEntries.map entryLine ++ [[]])

end KnownHosts

end Sao
