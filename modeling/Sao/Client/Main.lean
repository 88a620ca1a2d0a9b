import Sao.Lib.Embed
import Sao.Client.Address
import Sao.Client.Steps
import Sao.Core.FirstUse
import Sao.Server.Files

/-!
# `main.rs`: the commands of the client

`main` runs the pin management, the agent key and its own output one after the other. Each of the
three is a program over its own operations; here they are lifted into one signature.

| here | there |
| --- | --- |
| `Cmd`                    | `Cmd`, with clap's parsing done |
| `Op.pin`, `Op.key`       | what `connect_with_pin_management` and `load_or_create_signing_key` perform |
| `publicKeyPath`          | `public_key_path` |
| `trustProbe`, `keyFingerprint`, `runCmd` | the arms of `main`; `Client.trustAdd` is the fourth |
| `Next.session`           | `run_session` behind its first line: `ClientSession` |
| `World`                  | the two files nobody else writes, and what was printed |

* `run_phases` — `sao run` leaves the agent key alone until a peer has presented the stored pin, and
  `known_hosts` alone from then on.
* `run_signs` — so whatever a session signs, it signs for that peer, with the key that is in the file.
* `command_effects` — what each command may change, and what the lines on stdout mean.
-/

namespace Sao.Main

open Text Prog Client
open Setup (Path)

/-- `Cmd` -/
inductive Cmd where
  | run (port : UInt16) (host : Str) (cmd : List Str) (acceptNew : Bool)
  | trustProbe (addr : Str)
  | trustAdd (host : Str) (port : UInt16) (fingerprintHex : Str)
  | keyFingerprint
deriving DecidableEq, Repr

/-! ## Operations -/

inductive Op where
  | pin (op : Client.Op)
  | key (op : AgentKey.Op)
  | println (text : Str)
deriving DecidableEq

abbrev Op.Reply : Op → Type
  | .pin op => op.Reply
  | .key op => op.Reply
  | .println _ => Except Str Unit

abbrev Interact := Prog Op Op.Reply Stop

def pins : Embedding Client.Op.Reply Op.Reply where
  op := .pin
  reply _ r := r
  forth _ r := r
  reply_forth _ _ := rfl
  back
    | ⟨.pin op, r⟩ => some ⟨op, r⟩
    | _ => none
  back_op _ _ := rfl

def keys : Embedding AgentKey.Op.Reply Op.Reply where
  op := .key
  reply _ r := r
  forth _ r := r
  reply_forth _ _ := rfl
  back
    | ⟨.key op, r⟩ => some ⟨op, r⟩
    | _ => none
  back_op _ _ := rfl

/-- `println!` panics when stdout cannot be written. -/
def println (text : Str) : Interact Unit := perform (.println text) fun r => r.mapError fun _ => .panic

def eprintln (text : Str) : Interact Unit := (Client.eprintln text).lift pins

/-! ## Paths -/

/-- `file_name()` -/
def fileName (p : Path) : Option Str := p.parts.getLast?.filter fun n => n ≠ ".".toList ∧ n ≠ "..".toList

/-- A path without a file name is given one. -/
def publicKeyPath (privateKeyPath : Path) : Path :=
  (privateKeyPath.parent.getD privateKeyPath).join
    ((fileName privateKeyPath).getD "agent.ed25519".toList ++ ".pub".toList)

def saoDir (home : Path) : Path := home.join ".sao".toList

def knownPath (home : Path) : Path := (saoDir home).join "known_hosts".toList

def keyPath (home : Path) : Path := ((saoDir home).join "keys".toList).join "agent.ed25519".toList

/-! ## Commands -/

/-- What is left to do: nothing, or the session over a stream. -/
inductive Next where
  | done
  | session (tls : TlsStream) (E : ClientSession.Env)

variable (X : Ext) (home : Path)

/-- `trust-probe` behind `parse_addr`. -/
def probe (host : Str) (port : UInt16) : Interact Next := do
  let der ← ((connectProbe host port).mapError .err).lift pins
  let fp ← .ret ((spkiSha256Hex X der).mapError Stop.ofCore)
  println fp
  eprintln ("If correct: sao trust add ".toList ++ host ++ " ".toList ++ decimal port.toNat ++ " ".toList ++ fp)
  pure .done

def trustProbe (addr : Str) : Interact Next :=
  match parseAddr addr with
  | .error e => throw (.err e)
  | .ok (host, port) => probe X host port

def keyFingerprint : Interact Next := do
  let sk ← ((AgentKey.loadOrCreateSigningKey X).mapError Stop.ofCore).lift keys
  println (ed25519FingerprintHex X (X.verifyingKey sk))
  eprintln ("Keys: ".toList ++ (keyPath home).display ++ " and ".toList ++ (publicKeyPath (keyPath home)).display)
  eprintln "Append the non-comment line from the .pub file to the server's authorized_keys.".toList
  pure .done

def runCmd (port : UInt16) (host : Str) (cmd : List Str) (acceptNew : Bool) : Interact Next := do
  let tls ← (connectWithPinManagement X host port (knownPath home).display acceptNew).lift pins
  let signingKey ← (AgentKey.loadOrCreateSigningKey X).attempt.lift keys
  pure (.session tls ⟨signingKey, List.intercalate [' '] cmd⟩)

def command : Cmd → Interact Next
  | .run port host cmd acceptNew => runCmd X home port host cmd acceptNew
  | .trustProbe addr => trustProbe X addr
  | .trustAdd host port fingerprintHex => do
    (Client.trustAdd X host port fingerprintHex).lift pins
    pure .done
  | .keyFingerprint => keyFingerprint X home

/-- `main`; `home` is what `dirs::home_dir()` finds. -/
def main (home : Option Path) (cmd : Cmd) : Interact Next :=
  match home with
  | none => throw (.err "no home".toList)
  | some home => command X home cmd

/-! ## The files -/

structure World where
  known : KnownHosts
  keys : AgentKey.KeyFiles
  /-- The lines `println!` has written. -/
  stdout : List Str

/-- What an operation does when it is answered so, if the files allow the answer. -/
def answer : Event Op.Reply → World → Option World
  | ⟨.pin op, r⟩, w => (file ⟨op, r⟩ w.known).map fun k => { w with known := k }
  | ⟨.key op, r⟩, w => (AgentKey.answer ⟨op, r⟩ w.keys).map fun f => { w with keys := f }
  | ⟨.println text, .ok ()⟩, w => some { w with stdout := w.stdout ++ [text] }
  | ⟨.println _, .error _⟩, w => some w

def printed : Event Op.Reply → Option Str
  | ⟨.println text, .ok ()⟩ => some text
  | _ => none

section World

variable {w w' : World} {tr : List (Event Op.Reply)}

/-- **The three kinds of steps.** -/
theorem answer_cases {e : Event Op.Reply} (h : answer e w = some w') :
    (∃ e₀ k, pins.back e = some e₀ ∧ keys.back e = none ∧ printed e = none ∧ file e₀ w.known = some k ∧
      w' = { w with known := k }) ∨
    (∃ e₀ f, pins.back e = none ∧ keys.back e = some e₀ ∧ printed e = none ∧ AgentKey.answer e₀ w.keys = some f ∧
      w' = { w with keys := f }) ∨
    (pins.back e = none ∧ keys.back e = none ∧ w' = { w with stdout := w.stdout ++ (printed e).toList }) := by
  obtain ⟨op, r⟩ := e
  cases op with
  | pin op =>
    obtain ⟨k, hk, rfl⟩ := Option.map_eq_some_iff.1 h
    exact Or.inl ⟨_, k, rfl, rfl, rfl, hk, rfl⟩
  | key op =>
    obtain ⟨f, hf, rfl⟩ := Option.map_eq_some_iff.1 h
    exact Or.inr (Or.inl ⟨_, f, rfl, rfl, rfl, hf, rfl⟩)
  | println text =>
    cases r with
    | ok u =>
      cases h
      exact Or.inr (Or.inr ⟨rfl, rfl, rfl⟩)
    | error err =>
      cases h
      have hnone : printed ⟨.println text, .error err⟩ = none := rfl
      exact Or.inr (Or.inr ⟨rfl, rfl, by rw [hnone, Option.toList_none, List.append_nil]⟩)

theorem run_pins (h : Lts.run (fun w e => answer e w) w tr = some w') :
    Lts.run (fun k e => file e k) w.known (pins.part tr) = some w'.known := by
  refine run_part (E := pins) World.known (fun e s s' hback hs => ?_) (fun e e₀ s s' hback hs => ?_) h
  · rcases answer_cases hs with ⟨e₀, k, hp, -⟩ | ⟨_, f, -, -, -, -, rfl⟩ | ⟨-, -, rfl⟩
    · rw [hback] at hp
      cases hp
    · rfl
    · rfl
  · rcases answer_cases hs with ⟨e₁, k, hp, -, -, hk, rfl⟩ | ⟨_, f, hp, -⟩ | ⟨hp, -⟩
    · rw [hback, Option.some.injEq] at hp
      exact hp ▸ hk
    · rw [hback] at hp
      cases hp
    · rw [hback] at hp
      cases hp

theorem run_keys (h : Lts.run (fun w e => answer e w) w tr = some w') :
    Lts.run (fun f e => AgentKey.answer e f) w.keys (keys.part tr) = some w'.keys := by
  refine run_part (E := keys) World.keys (fun e s s' hback hs => ?_)
    (fun e e₀ s s' hback hs => ?_) h
  · rcases answer_cases hs with ⟨_, k, -, -, -, -, rfl⟩ | ⟨e₀, f, -, hp, -⟩ | ⟨-, -, rfl⟩
    · rfl
    · rw [hback] at hp
      cases hp
    · rfl
  · rcases answer_cases hs with ⟨_, k, -, hp, -⟩ | ⟨e₁, f, -, hp, -, hf, rfl⟩ | ⟨-, hp, -⟩
    · rw [hback] at hp
      cases hp
    · rw [hback, Option.some.injEq] at hp
      exact hp ▸ hf
    · rw [hback] at hp
      cases hp

/-- A run of the pin management alone, and one of the agent key. -/
theorem run_pins_event {k : KnownHosts} {tr₀ : Client.Trace}
    (h : Lts.run (fun k e => file e k) w.known tr₀ = some k) :
    Lts.run (fun w e => answer e w) w (tr₀.map pins.event) = some { w with known := k } :=
  run_event (E := pins) World.known (fun w k => { w with known := k }) (fun _ _ => rfl) (fun _ _ _ => rfl) (fun _ => rfl)
    (fun e w k hk => by
      obtain ⟨op, r⟩ := e
      exact Option.map_eq_some_iff.2 ⟨k, hk, rfl⟩) h

theorem run_keys_event {f : AgentKey.KeyFiles} {tr₀ : List (Event AgentKey.Op.Reply)}
    (h : Lts.run (fun f e => AgentKey.answer e f) w.keys tr₀ = some f) :
    Lts.run (fun w e => answer e w) w (tr₀.map keys.event) = some { w with keys := f } :=
  run_event (E := keys) World.keys (fun w f => { w with keys := f }) (fun _ _ => rfl) (fun _ _ _ => rfl) (fun _ => rfl)
    (fun e w f hf => by
      obtain ⟨op, r⟩ := e
      exact Option.map_eq_some_iff.2 ⟨f, hf, rfl⟩) h

theorem run_printed (h : Lts.run (fun w e => answer e w) w tr = some w') :
    w'.stdout = w.stdout ++ tr.filterMap printed := by
  induction tr generalizing w with
  | nil =>
    rw [Lts.run_nil, Option.some.injEq] at h
    rw [h, List.filterMap_nil, List.append_nil]
  | cons e tr ih =>
    obtain ⟨m, hm, hrun⟩ := Lts.run_cons.1 h
    rw [ih hrun, List.filterMap_cons]
    rcases answer_cases hm with ⟨_, k, -, -, hp, -, rfl⟩ | ⟨_, f, -, -, hp, -, rfl⟩ | ⟨-, -, rfl⟩
    · rw [hp]
    · rw [hp]
    · cases printed e with
      | none => rw [Option.toList_none, List.append_nil]
      | some text => rw [Option.toList_some, List.append_assoc, List.singleton_append]

end World

/-! ## The phases of `sao run` -/

section Run

variable {X : Ext} {home : Path} {port : UInt16} {host : Str} {cmd : List Str} {acceptNew : Bool}
  {tr : List (Event Op.Reply)} {q : Interact Next}

/-- Events of the pin management and of nothing else. -/
theorem pins_only (h : ∀ e ∈ tr, pins.back e ≠ none) : keys.part tr = [] ∧ tr.filterMap printed = [] := by
  have hother : ∀ e : Event Op.Reply, pins.back e ≠ none → keys.back e = none ∧ printed e = none := by
    rintro ⟨op, r⟩ hp
    cases op with
    | pin op => exact ⟨rfl, rfl⟩
    | key op => exact absurd rfl hp
    | println text => exact absurd rfl hp
  exact ⟨Embedding.part_eq_nil fun e he => (hother e (h e he)).1,
    List.filterMap_eq_nil_iff.2 fun e he => (hother e (h e he)).2⟩

theorem keys_only (h : ∀ e ∈ tr, keys.back e ≠ none) : pins.part tr = [] ∧ tr.filterMap printed = [] := by
  have hother : ∀ e : Event Op.Reply, keys.back e ≠ none → pins.back e = none ∧ printed e = none := by
    rintro ⟨op, r⟩ hk
    cases op with
    | pin op => exact absurd rfl hk
    | key op => exact ⟨rfl, rfl⟩
    | println text => exact absurd rfl hk
  exact ⟨Embedding.part_eq_nil fun e he => (hother e (h e he)).1,
    List.filterMap_eq_nil_iff.2 fun e he => (hother e (h e he)).2⟩

/-- The key is loaded behind the connection, and whatever came of that is left to the session. -/
theorem keyPhase_after {tls : TlsStream} {line : Str} (h : ((AgentKey.loadOrCreateSigningKey X).attempt.lift keys >>=
      fun r => (pure (.session tls ⟨r, line⟩) : Interact Next)).after tr = some q) :
    (∀ e ∈ tr, keys.back e ≠ none) ∧ ∀ r, q = .ret r → ∃ signingKey, r = .ok (.session tls ⟨signingKey, line⟩) ∧
      (AgentKey.loadOrCreateSigningKey X).after (keys.part tr) = some (.ret signingKey) := by
  rcases after_lift_bind h with ⟨honly, q₀, hq₀, hno, rfl⟩ | ⟨tr₁, tr₂, a, rfl, honly, hp, hq⟩
  · rw [after_attempt_eq, Option.map_eq_some_iff] at hq₀
    obtain ⟨q₁, -, rfl⟩ := hq₀
    refine ⟨honly, fun r hr => ?_⟩
    cases q₁ with
    | ret r₁ => exact absurd rfl (hno r₁)
    | call o k => cases hr
  · rw [after_attempt_eq, Option.map_eq_some_iff] at hp
    obtain ⟨q₁, hq₁, hret⟩ := hp
    obtain ⟨rfl, rfl⟩ := after_ret hq
    rw [List.append_nil]
    refine ⟨honly, fun r hr => ?_⟩
    cases q₁ with
    | call o k => cases hret
    | ret r₁ =>
      cases hret
      cases hr
      exact ⟨a, rfl, hq₁⟩

/-- **The two phases**: first the pin management, and behind a connection it returned the agent key. -/
theorem runCmd_after (h : (runCmd X home port host cmd acceptNew).after tr = some q) :
    ∃ trp trk p, tr = trp ++ trk ∧ (∀ e ∈ trp, pins.back e ≠ none) ∧ (∀ e ∈ trk, keys.back e ≠ none) ∧
      (connectWithPinManagement X host port (knownPath home).display acceptNew).after (pins.part trp) = some p ∧
      ((trk = [] ∧ (∀ tls, p ≠ .ret (.ok tls)) ∧ ∀ next, q ≠ .ret (.ok next)) ∨ ∃ tls, p = .ret (.ok tls) ∧
        ∀ r, q = .ret r → ∃ signingKey, r = .ok (.session tls ⟨signingKey, List.intercalate [' '] cmd⟩) ∧
          (AgentKey.loadOrCreateSigningKey X).after (keys.part trk) = some (.ret signingKey)) := by
  rcases after_lift_bind h with ⟨honly, q₀, hq₀, hno, rfl⟩ | ⟨trp, trk, tls, rfl, honly, hp, hq⟩
  · exact ⟨tr, [], q₀, (List.append_nil tr).symm, honly, nofun, hq₀, Or.inl ⟨rfl, hno, lift_bind_ne_ok hno _⟩⟩
  · obtain ⟨honly', hend⟩ := keyPhase_after hq
    exact ⟨trp, trk, _, rfl, honly, honly', hp, Or.inr ⟨tls, rfl, hend⟩⟩

/-- Both phases, one behind the other. -/
theorem runCmd_returns {tls : TlsStream} {signingKey : Except CoreError (ByteArr 32)} {trp : Client.Trace}
    {trk : List (Event AgentKey.Op.Reply)}
    (hconn : (connectWithPinManagement X host port (knownPath home).display acceptNew).after trp = some (.ret (.ok tls)))
    (hkey : (AgentKey.loadOrCreateSigningKey X).after trk = some (.ret signingKey)) :
    (runCmd X home port host cmd acceptNew).after (trp.map pins.event ++ trk.map keys.event) =
      some (.ret (.ok (.session tls ⟨signingKey, List.intercalate [' '] cmd⟩))) := by
  have hconn' := after_lift_map (E := pins) hconn
  have hattempt : ((AgentKey.loadOrCreateSigningKey X).attempt : Prog AgentKey.Op AgentKey.Op.Reply Stop _).after trk =
      some (.ret (.ok signingKey)) := after_attempt hkey
  have hkey' := after_lift_map (E := keys) hattempt
  refine (after_bind hconn').trans ?_
  rw [← List.append_nil (trk.map keys.event)]
  exact (after_bind hkey').trans (after_nil _)

/-! ## The agent key -/

/-- The two files are the halves of this key. -/
def HoldsKey (X : Ext) (f : AgentKey.KeyFiles) (key : ByteArr 32) : Prop :=
  (∃ s, f.privateKey = some s ∧ AgentKey.keyOfLines X (lines s) = .ok key) ∧
    f.publicKey = some (AgentKey.publicBody (X.verifyingKey key))

section Key

variable {f f' : AgentKey.KeyFiles}

/-- Whatever the private file holds, the `.pub` file is written beside it. -/
theorem publish_keeps {s : Str} {key : ByteArr 32} (hs : f.privateKey = some s)
    (hkey : AgentKey.keyOfLines X (lines s) = .ok key) :
    Keeps AgentKey.answer (fun _ _ => True) (fun _ => True) (fun r f' => ∀ key', r = .ok key' → HoldsKey X f' key')
      (do AgentKey.writeAgentPublicKeyFile X key; pure key) f := by
  refine AgentKey.writePub_keeps trivial (fun r f' _ hf => ?_) fun r f' _ hf => ⟨trivial, ?_⟩
  · cases hf
    refine ⟨rfl, ?_⟩
    rintro e rfl
    exact nofun
  · cases r with
    | error e => exact nofun
    | ok u =>
      cases hf
      intro key' hret
      cases hret
      exact ⟨⟨s, hs, hkey⟩, rfl⟩

/-- **A key that is returned is the one in the files.** -/
theorem loadOrCreateSigningKey_keeps (hX : X.Lawful) (f : AgentKey.KeyFiles) :
    Keeps AgentKey.answer (fun _ _ => True) (fun _ => True) (fun r f' => ∀ key, r = .ok key → HoldsKey X f' key)
      (AgentKey.loadOrCreateSigningKey X) f := by
  refine keeps_bind (keeps_perform trivial fun found f' _ hf => ⟨trivial, ?_⟩)
  cases found with
  | true =>
    simp only [AgentKey.answer] at hf
    split at hf
    · cases hf
    · cases hf
      refine keeps_bind (keeps_perform trivial fun r f' _ hf => ⟨trivial, ?_⟩)
      cases r with
      | error e => exact fun _ he => by cases he
      | ok s =>
        have hs := AgentKey.answer_read hf
        obtain rfl := AgentKey.answer_files hf
        refine keeps_bind (keeps_ret trivial ?_)
        cases hkey : AgentKey.keyOfLines X (lines s) with
        | error e => exact fun _ he => by cases he
        | ok key => exact publish_keeps hs hkey
  | false =>
    cases hf
    refine keeps_bind (keeps_perform trivial fun r f' _ hf => ⟨trivial, ?_⟩)
    cases hf
    cases r with
    | error e => exact fun _ he => by cases he
    | ok u =>
      refine keeps_bind (keeps_perform trivial fun key f' _ hf => ⟨trivial, ?_⟩)
      cases hf
      refine keeps_bind (keeps_perform trivial fun r f' _ hf => ⟨trivial, ?_⟩)
      cases r with
      | error e => exact fun _ he => by cases he
      | ok u' =>
        cases hf
        exact publish_keeps rfl (AgentKey.keyOfLines_privateBody hX key)

theorem holdsKey_after (hX : X.Lawful) {tr₀ : List (Event AgentKey.Op.Reply)} {key : ByteArr 32}
    (hp : (AgentKey.loadOrCreateSigningKey X).after tr₀ = some (.ret (.ok key)))
    (hf : Lts.run (fun f e => AgentKey.answer e f) f tr₀ = some f') : HoldsKey X f' key :=
  (keeps_after (loadOrCreateSigningKey_keeps hX f) (Lts.meets_of_forall fun _ _ _ => trivial) hp hf).2 key rfl

end Key

/-! ## What `sao run` relies on -/

/-- The connection opened last presents the pin that is stored. -/
def PeerPinned (X : Ext) (host : Str) (port : UInt16) (tr : List (Event Op.Reply)) (k : KnownHosts) (tls : TlsStream) :
    Prop :=
  ∃ before pin, pins.part tr = before ++ [⟨.connect host port, .ok tls⟩] ∧ Presents X tls pin ∧
    k.lookup (pinKey X host port) = some pin

variable {w₀ w : World}

theorem run_phases (hX : X.Lawful)
    (h : Lts.run (Prog.step answer) (runCmd X home port host cmd acceptNew, w₀) tr = some (q, w)) :
    ∃ trp trk, tr = trp ++ trk ∧ (∀ e ∈ trp, pins.back e ≠ none) ∧ (∀ e ∈ trk, keys.back e ≠ none) ∧
      ((trk = [] ∧ ∀ next, q ≠ .ret (.ok next)) ∨ ∃ tls, PeerPinned X host port trp w.known tls ∧
        ∀ r, q = .ret r → ∃ signingKey, r = .ok (.session tls ⟨signingKey, List.intercalate [' '] cmd⟩) ∧
          ∀ sk, signingKey = .ok sk → HoldsKey X w.keys sk) := by
  obtain ⟨hprog, hworld⟩ := Prog.step_run.1 h
  obtain ⟨trp, trk, p, rfl, hpins, hkeys, hconn, hend⟩ := runCmd_after hprog
  refine ⟨trp, trk, rfl, hpins, hkeys, hend.imp (fun ⟨hnil, _, hno⟩ => ⟨hnil, hno⟩) ?_⟩
  rintro ⟨tls, rfl, hret⟩
  have hsat := sat_after (connectWithPinManagement_sat adds_nil hX.lowercase) hconn
  have hfile := run_pins hworld
  have hkeyfiles := run_keys hworld
  rw [Embedding.part_append, (keys_only hkeys).1, List.append_nil] at hfile
  rw [Embedding.part_append, (pins_only hpins).1, List.nil_append] at hkeyfiles
  obtain ⟨⟨before, hlast⟩, m, pin, hm, hpin, hpres⟩ := hsat.2 tls rfl
  have hcurrent := (fileInv_run hsat.inv hfile).current m hm
  refine ⟨tls, ⟨before, pin, hlast, hpres, hcurrent ▸ hpin⟩, fun r hr => ?_⟩
  obtain ⟨signingKey, rfl, hkey⟩ := hret r hr
  refine ⟨signingKey, rfl, ?_⟩
  rintro sk rfl
  exact holdsKey_after hX hkey hkeyfiles

/-- A key operation stands behind the whole pin management. -/
theorem key_behind_pins {trp trk pre post : List (Event Op.Reply)} {e : Event Op.Reply}
    (hpins : ∀ e ∈ trp, pins.back e ≠ none) (hkeys : ∀ e ∈ trk, keys.back e ≠ none) (he : keys.back e ≠ none)
    (h : trp ++ trk = pre ++ e :: post) : pins.part pre = pins.part trp ∧ ∀ e' ∈ post, pins.back e' = none := by
  have hne : pins.back e = none := by
    obtain ⟨op, r⟩ := e
    cases op with
    | key op => rfl
    | pin op => exact absurd rfl he
    | println text => rfl
  rcases List.append_eq_append_iff.1 h with ⟨mid, rfl, htrk⟩ | ⟨mid, rfl, hpost⟩
  · have hmid : ∀ e' ∈ mid, keys.back e' ≠ none := fun e' he' => hkeys e' (htrk ▸ List.mem_append_left _ he')
    have hpost : ∀ e' ∈ post, keys.back e' ≠ none := fun e' he' =>
      hkeys e' (htrk ▸ List.mem_append_right _ (List.mem_cons_of_mem _ he'))
    rw [Embedding.part_append, (keys_only hmid).1, List.append_nil]
    exact ⟨rfl, List.filterMap_eq_nil_iff.1 (keys_only hpost).1⟩
  · cases mid with
    | nil =>
      rw [List.nil_append] at hpost
      rw [List.append_nil]
      exact ⟨rfl, fun e' he' => List.filterMap_eq_nil_iff.1 (keys_only hkeys).1 e' (hpost ▸ List.mem_cons_of_mem _ he')⟩
    | cons d mid =>
      rw [List.cons_append, List.cons.injEq] at hpost
      exact absurd hne (hpins e (by rw [hpost.1]; simp))

/-- **The agent signs only for a pinned peer.** In every run of `sao run`, whatever is answered: each operation on the
key files comes behind the pin management, which has opened a connection last whose certificate has the pin that
`known_hosts` holds from then on; without one the key files stay as they are. A session runs over that connection, and
whatever it signs in any of its runs is a challenge, signed with the key in the file whose public half is published. -/
theorem run_signs (hX : X.Lawful) {home : Option Path}
    (h : Lts.run (Prog.step answer) (main X home (.run port host cmd acceptNew), w₀) tr = some (q, w)) :
    (∀ pre e post, tr = pre ++ e :: post → keys.back e ≠ none →
      (∀ e' ∈ post, pins.back e' = none) ∧ ∃ tls, PeerPinned X host port pre w.known tls) ∧
    (keys.part tr = [] → w.keys = w₀.keys) ∧
    ∀ tls E, q = .ret (.ok (.session tls E)) → PeerPinned X host port tr w.known tls ∧
      E.shellLine = List.intercalate [' '] cmd ∧
      ∀ as s, ClientSession.run X E ClientSession.init as = some s → ∀ m sig, .signed m sig ∈ s.log →
        ∃ sk nonce sessionId, HoldsKey X w.keys sk ∧ m = signingBytes nonce sessionId ∧
          sig = ClientSession.signature X sk nonce sessionId := by
  have hkeyfiles := run_keys (Prog.step_run.1 h).2
  have hsame : keys.part tr = [] → w.keys = w₀.keys := by
    intro hnone
    rw [hnone, Lts.run_nil, Option.some.injEq] at hkeyfiles
    exact hkeyfiles.symm
  cases home with
  | none =>
    -- there is no program to run
    obtain ⟨rfl, rfl⟩ := after_ret (Prog.step_run.1 h).1
    exact ⟨fun pre e post hsplit => absurd hsplit (by simp), hsame, fun tls E hq => by cases hq⟩
  | some home =>
    obtain ⟨trp, trk, rfl, hpins, hkeys, hend⟩ := run_phases hX h
    refine ⟨fun pre e post hsplit he => ?_, hsame, ?_⟩
    · obtain ⟨hpart, hpost⟩ := key_behind_pins hpins hkeys he hsplit
      refine ⟨hpost, ?_⟩
      rcases hend with ⟨rfl, -⟩ | ⟨tls, ⟨before, pin, hlast, hpeer⟩, -⟩
      · have hmem : e ∈ trp := by
          rw [List.append_nil] at hsplit
          rw [hsplit]
          simp
        exact absurd (List.filterMap_eq_nil_iff.1 (pins_only hpins).1 e hmem) he
      · exact ⟨tls, before, pin, hpart.trans hlast, hpeer⟩
    · rintro tls E rfl
      rcases hend with ⟨-, hno⟩ | ⟨tls', ⟨before, pin, hlast, hpeer⟩, hret⟩
      · exact absurd rfl (hno _)
      · obtain ⟨signingKey, hE, hholds⟩ := hret _ rfl
        cases hE
        refine ⟨⟨before, pin, ?_, hpeer⟩, rfl, fun as s hs m sig hsigned => ?_⟩
        · rw [Embedding.part_append, (keys_only hkeys).1, List.append_nil]
          exact hlast
        · obtain ⟨sk, f, nonce, sid, hsk, -, -, hm, hsig⟩ := (ClientSession.signedInv_run hs).signed m sig hsigned
          exact ⟨sk, nonce, sid, hholds sk hsk, hm, hsig⟩

/-! ### A new agent -/

def root : Path := ⟨true, ["root".toList]⟩

/-- Neither a pin nor a key. -/
def fresh : World := ⟨.default, ⟨none, none⟩, []⟩

def sampleKeys : AgentKey.KeyFiles :=
  ⟨some (AgentKey.privateBody Sample.secretKey), some (AgentKey.publicBody (Ext.sample.verifyingKey Sample.secretKey))⟩

theorem run_creates : Lts.run (fun f e => AgentKey.answer e f) ⟨none, none⟩
    (AgentKey.creates Ext.sample Sample.secretKey) = some sampleKeys := rfl

/-- `sao run --accept-new`, of a host that is new as well. -/
theorem run_signs_sample : ∃ tr w tls E,
    Lts.run (Prog.step answer) (main Ext.sample (some root) (.run 8443 "sao".toList ["id".toList] true), fresh) tr =
      some (.ret (.ok (.session tls E)), w) ∧
      E.signingKey = .ok Sample.secretKey ∧ PeerPinned Ext.sample "sao".toList 8443 tr w.known tls := by
  obtain ⟨trp, hpins⟩ := firstUse_run lawful_sample.lowercase (knownPath root).display
    (KnownHosts.lookup_default (pinKey Ext.sample "sao".toList 8443)) presents_sample
  obtain ⟨hconn, hfile⟩ := Prog.step_run.1 hpins
  have hprog := @runCmd_returns Ext.sample root 8443 "sao".toList ["id".toList] true _ _ _ _ hconn
    (AgentKey.after_creates Sample.secretKey)
  have hworld := Lts.run_append.2 ⟨_, run_pins_event (w := fresh) hfile, run_keys_event run_creates⟩
  have hrun : Lts.run (Prog.step answer) (main Ext.sample (some root) (.run 8443 "sao".toList ["id".toList] true), fresh)
      _ = _ := Prog.step_run.2 ⟨hprog, hworld⟩
  exact ⟨_, _, _, _, hrun, rfl, ((run_signs lawful_sample hrun).2.2 _ _ rfl).1⟩

end Run

/-! ## What the other commands do -/

section Commands

variable {X : Ext} {home : Path} {tr : List (Event Op.Reply)} {q : Interact Next}

/-- Neither the key files nor stdout nor `known_hosts`. -/
def Aside (e : Event Op.Reply) : Prop :=
  keys.back e = none ∧ printed e = none ∧ ∀ e₀, pins.back e = some e₀ → Quiet e₀

/-- A program that leaves all three alone. -/
def Notes (p : Interact Next) : Prop := ∀ tr q, p.after tr = some q → ∀ e ∈ tr, Aside e

theorem notes_ret (r : Except Stop Next) : Notes (.ret r) := by
  intro tr q h e he
  rw [(after_ret h).1] at he
  cases he

theorem notes_eprintln {text : Str} {p : Interact Next} (hp : Notes p) : Notes (eprintln text >>= fun _ => p) := by
  intro tr q h
  have hperform : eprintln text = perform (.pin (.eprint (text ++ ['\n']))) fun r => r.mapError fun _ => .panic := rfl
  rw [hperform] at h
  rcases after_perform_bind h with ⟨rfl, -⟩ | ⟨r, tr', rfl, hk⟩
  · exact nofun
  · refine List.forall_mem_cons.2 ⟨⟨rfl, rfl, fun e₀ he₀ => ?_⟩, ?_⟩
    · cases he₀
      trivial
    · cases r with
      | error err => exact notes_ret _ tr' q hk
      | ok u => exact hp tr' q hk

theorem Aside.of_pins {e : Event Op.Reply} (h : pins.back e ≠ none) (hq : ∀ e₀, pins.back e = some e₀ → Quiet e₀) :
    Aside e := by
  have hone : ∀ e' ∈ [e], pins.back e' ≠ none := fun e' he' => List.mem_singleton.1 he' ▸ h
  obtain ⟨hkeys, hprinted⟩ := pins_only hone
  exact ⟨List.filterMap_eq_nil_iff.1 hkeys e (List.mem_singleton_self e),
    List.filterMap_eq_nil_iff.1 hprinted e (List.mem_singleton_self e), hq⟩

theorem connectProbe_after {host : Str} {port : UInt16} {der : Bytes} {tr₀ : Client.Trace}
    (h : (connectProbe host port).after tr₀ = some (.ret (.ok der))) :
    ∃ tls, tr₀ = [⟨.connect host port, .ok tls⟩] ∧ tls.peerDer = .ok der := by
  rcases after_perform_bind h with ⟨-, hcall⟩ | ⟨r, tr', rfl, hk⟩
  · cases hcall
  · cases r with
    | error err => cases (after_ret hk).2
    | ok tls =>
      obtain ⟨rfl, hder⟩ := after_ret (show (Prog.ret tls.peerDer).after tr' = _ from hk)
      exact ⟨tls, rfl, (Prog.ret.inj hder).symm⟩

/-- Nothing but a connection is opened. -/
theorem connectProbe_quiet {host : Str} {port : UInt16} {q₀ : Prog Client.Op Client.Op.Reply Str Bytes}
    {tr₀ : Client.Trace} (h : (connectProbe host port).after tr₀ = some q₀) : ∀ e ∈ tr₀, Quiet e := by
  rcases after_perform_bind h with ⟨rfl, -⟩ | ⟨r, tr', rfl, hk⟩
  · exact nofun
  · have hrest : tr' = [] := by
      cases r with
      | error err => exact (after_ret hk).1
      | ok tls => exact (after_ret (show (Prog.ret tls.peerDer).after tr' = _ from hk)).1
    rw [hrest]
    exact List.forall_mem_singleton.2 trivial

/-- A line on stdout, and notes. -/
theorem report_after {text : Str} {notes : Interact Next} (hnotes : Notes notes)
    (h : (println text >>= fun _ => notes).after tr = some q) :
    (∀ e ∈ tr, keys.back e = none ∧ ∀ e₀, pins.back e = some e₀ → Quiet e₀) ∧
      ((tr.filterMap printed = [] ∧ ∀ next, q ≠ .ret (.ok next)) ∨ tr.filterMap printed = [text]) := by
  rcases after_perform_bind h with ⟨rfl, rfl⟩ | ⟨r, tr', rfl, hk⟩
  · exact ⟨nofun, Or.inl ⟨rfl, fun next hr => by cases hr⟩⟩
  · cases r with
    | error err =>
      obtain ⟨rfl, rfl⟩ := after_ret hk
      exact ⟨List.forall_mem_singleton.2 ⟨rfl, nofun⟩, Or.inl ⟨rfl, fun next hr => by cases hr⟩⟩
    | ok u =>
      have haside := hnotes tr' q hk
      refine ⟨List.forall_mem_cons.2 ⟨⟨rfl, nofun⟩, fun e he => ⟨(haside e he).1, (haside e he).2.2⟩⟩, Or.inr ?_⟩
      have hrest : tr'.filterMap printed = [] := List.filterMap_eq_nil_iff.2 fun e he => (haside e he).2.1
      have hhead : printed ⟨.println text, .ok u⟩ = some text := rfl
      rw [List.filterMap_cons, hhead, hrest]

theorem probe_after {host : Str} {port : UInt16} (h : (probe X host port).after tr = some q) :
    (∀ e ∈ tr, keys.back e = none ∧ ∀ e₀, pins.back e = some e₀ → Quiet e₀) ∧
      ((tr.filterMap printed = [] ∧ ∀ next, q ≠ .ret (.ok next)) ∨ ∃ tls fp,
        ⟨.connect host port, .ok tls⟩ ∈ pins.part tr ∧ Presents X tls fp ∧ tr.filterMap printed = [hexEncode fp.1]) := by
  -- What happens before the line is a connection.
  have hconnects : ∀ {tr₀ q₁}, (∀ e ∈ tr₀, pins.back e ≠ none) →
      (connectProbe host port).after (pins.part tr₀) = some q₁ →
      ∀ e ∈ tr₀, keys.back e = none ∧ ∀ e₀, pins.back e = some e₀ → Quiet e₀ := by
    intro tr₀ q₁ honly hq₁ e he
    have hquiet := connectProbe_quiet hq₁
    have haside := Aside.of_pins (honly e he) fun e₀ he₀ => hquiet e₀ (List.mem_filterMap.2 ⟨e, he, he₀⟩)
    exact ⟨haside.1, haside.2.2⟩
  rcases after_lift_bind h with ⟨honly, q₀, hq₀, hno, rfl⟩ | ⟨tr₁, tr₂, der, rfl, honly, hp, hq⟩
  · rw [after_mapError_eq, Option.map_eq_some_iff] at hq₀
    obtain ⟨q₁, hq₁, -⟩ := hq₀
    exact ⟨hconnects honly hq₁, Or.inl ⟨(pins_only honly).2, lift_bind_ne_ok hno _⟩⟩
  · rw [after_mapError_eq, Option.map_eq_some_iff] at hp
    obtain ⟨q₁, hq₁, hret⟩ := hp
    have hbefore := hconnects honly hq₁
    rw [mapError_eq_ok hret] at hq₁
    obtain ⟨tls, hconn, hder⟩ := connectProbe_after hq₁
    cases hhex : spkiSha256Hex X der with
    | error e =>
      rw [hhex] at hq
      obtain ⟨rfl, rfl⟩ := after_ret (r := (.error (Stop.ofCore e) : Except Stop Next)) hq
      rw [List.append_nil]
      exact ⟨hbefore, Or.inl ⟨(pins_only honly).2, fun next hr => by cases hr⟩⟩
    | ok hex =>
      obtain ⟨fp, hfp, rfl⟩ := spkiSha256Hex_ok hhex
      rw [hhex] at hq
      obtain ⟨hrest, hend⟩ := report_after (notes_eprintln (notes_ret _)) hq
      refine ⟨List.forall_mem_append.2 ⟨hbefore, hrest⟩, ?_⟩
      rw [List.filterMap_append, (pins_only honly).2, List.nil_append]
      refine hend.imp id fun hprinted => ⟨tls, fp, ?_, ⟨der, hder, hfp⟩, hprinted⟩
      rw [Embedding.part_append, hconn]
      exact List.mem_append_left _ (List.mem_singleton_self _)

/-- **`sao trust-probe`.** -/
theorem trustProbe_after {addr : Str} (h : (trustProbe X addr).after tr = some q) :
    (∀ e ∈ tr, keys.back e = none ∧ ∀ e₀, pins.back e = some e₀ → Quiet e₀) ∧
      ((tr.filterMap printed = [] ∧ ∀ next, q ≠ .ret (.ok next)) ∨ ∃ host port tls fp,
        parseAddr addr = .ok (host, port) ∧ ⟨.connect host port, .ok tls⟩ ∈ pins.part tr ∧ Presents X tls fp ∧
          tr.filterMap printed = [hexEncode fp.1]) := by
  unfold trustProbe at h
  split at h
  · obtain ⟨rfl, rfl⟩ := after_ret h
    exact ⟨nofun, Or.inl ⟨rfl, fun next hr => by cases hr⟩⟩
  · rename_i host port haddr
    obtain ⟨hall, hend⟩ := probe_after h
    exact ⟨hall, hend.imp id fun ⟨tls, fp, hmem, hpres, hprinted⟩ => ⟨host, port, tls, fp, haddr, hmem, hpres, hprinted⟩⟩

/-- **`sao key-fingerprint`.** -/
theorem keyFingerprint_after (h : (keyFingerprint X home).after tr = some q) :
    (∀ e ∈ tr, ∀ e₀, pins.back e = some e₀ → Quiet e₀) ∧
      ((tr.filterMap printed = [] ∧ ∀ next, q ≠ .ret (.ok next)) ∨ ∃ sk,
        (AgentKey.loadOrCreateSigningKey X).after (keys.part tr) = some (.ret (.ok sk)) ∧
          tr.filterMap printed = [ed25519FingerprintHex X (X.verifyingKey sk)]) := by
  have hnopin : ∀ {tr₀ : List (Event Op.Reply)}, (∀ e ∈ tr₀, keys.back e ≠ none) →
      ∀ e ∈ tr₀, ∀ e₀, pins.back e = some e₀ → Quiet e₀ := by
    intro tr₀ honly e he e₀ he₀
    rw [List.filterMap_eq_nil_iff.1 (keys_only honly).1 e he] at he₀
    cases he₀
  rcases after_lift_bind h with ⟨honly, q₀, -, hno, rfl⟩ | ⟨tr₁, tr₂, sk, rfl, honly, hp, hq⟩
  · exact ⟨hnopin honly, Or.inl ⟨(keys_only honly).2, lift_bind_ne_ok hno _⟩⟩
  · rw [after_mapError_eq, Option.map_eq_some_iff] at hp
    obtain ⟨q₁, hq₁, hret⟩ := hp
    rw [mapError_eq_ok hret] at hq₁
    obtain ⟨hrest, hend⟩ := report_after (notes_eprintln (notes_eprintln (notes_ret _))) hq
    refine ⟨List.forall_mem_append.2 ⟨hnopin honly, fun e he => (hrest e he).2⟩, ?_⟩
    rw [List.filterMap_append, (keys_only honly).2, List.nil_append, Embedding.part_append,
      Embedding.part_eq_nil fun e he => (hrest e he).1, List.append_nil]
    exact hend.imp id fun hprinted => ⟨sk, hq₁, hprinted⟩

end Commands

/-! ## What each command may change -/

/-- The command uses the agent key. -/
def Cmd.usesKey : Cmd → Bool
  | .run _ _ _ _ | .keyFingerprint => true
  | .trustProbe _ | .trustAdd _ _ _ => false

/-- The command may store a pin. The others report one line on stdout. -/
def Cmd.storesPin : Cmd → Bool
  | .run _ _ _ _ | .trustAdd _ _ _ => true
  | .trustProbe _ | .keyFingerprint => false

/-- What a line on stdout stands for: the certificate of a connection, or the key in the files. -/
inductive Reports (X : Ext) (tr : List (Event Op.Reply)) (w : World) : Cmd → Str → Prop where
  | certificate {addr host : Str} {port : UInt16} {tls : TlsStream} {fp : Pin} : parseAddr addr = .ok (host, port) →
      ⟨.connect host port, .ok tls⟩ ∈ pins.part tr → Presents X tls fp →
      Reports X tr w (.trustProbe addr) (hexEncode fp.1)
  | key {sk : ByteArr 32} : HoldsKey X w.keys sk →
      Reports X tr w .keyFingerprint (ed25519FingerprintHex X (X.verifyingKey sk))

section Effects

variable {X : Ext} {home : Path} {cmd : Cmd} {tr : List (Event Op.Reply)} {q : Interact Next} {w₀ w : World}

/-- A file that was not written. -/
theorem file_quiet {k k' : KnownHosts} {tr₀ : Client.Trace} (hq : ∀ e ∈ tr₀, Quiet e)
    (h : Lts.run (fun k e => file e k) k tr₀ = some k') : k' = k := by
  refine Lts.run_inv_of Quiet (fun m => m = k) (fun s e s' he hs hstep => ?_) hq rfl h
  rcases file_cases hstep with ⟨rfl, -, -⟩ | ⟨-, rfl⟩ | rfl
  · exact hs
  · exact hs
  · exact he.elim

theorem known_of_quiet (h : Lts.run (fun w e => answer e w) w₀ tr = some w)
    (hq : ∀ e ∈ tr, ∀ e₀, pins.back e = some e₀ → Quiet e₀) : w.known = w₀.known := by
  refine file_quiet (fun e₀ he₀ => ?_) (run_pins h)
  obtain ⟨e, he, hback⟩ := List.mem_filterMap.1 he₀
  exact hq e he e₀ hback

theorem keys_of_none (h : Lts.run (fun w e => answer e w) w₀ tr = some w) (hk : keys.part tr = []) :
    w.keys = w₀.keys := by
  have hrun := run_keys h
  rw [hk, Lts.run_nil, Option.some.injEq] at hrun
  exact hrun.symm

theorem command_effects_at (hX : X.Lawful) (h : Lts.run (Prog.step answer) (command X home cmd, w₀) tr = some (q, w)) :
    (cmd.usesKey = false → w.keys = w₀.keys) ∧ (cmd.storesPin = false → w.known = w₀.known) ∧
      ((w.stdout = w₀.stdout ∧ (cmd.storesPin = false → ∀ next, q ≠ .ret (.ok next))) ∨
        ∃ line, w.stdout = w₀.stdout ++ [line] ∧ Reports X tr w cmd line) := by
  obtain ⟨hprog, hworld⟩ := Prog.step_run.1 h
  have hout := run_printed hworld
  cases cmd with
  | run port host cmd acceptNew =>
    obtain ⟨trp, trk, _, rfl, hpins, hkeys, -⟩ := runCmd_after hprog
    rw [List.filterMap_append, (pins_only hpins).2, (keys_only hkeys).2, List.append_nil, List.append_nil] at hout
    exact ⟨nofun, nofun, Or.inl ⟨hout, nofun⟩⟩
  | trustAdd host port fingerprintHex =>
    have honly : ∀ e ∈ tr, pins.back e ≠ none := by
      rcases after_lift_bind hprog with ⟨honly, -⟩ | ⟨tr₁, tr₂, u, rfl, honly, -, hq⟩
      · exact honly
      · rw [(after_ret hq).1, List.append_nil]
        exact honly
    obtain ⟨hnokey, hnoprint⟩ := pins_only honly
    rw [hnoprint, List.append_nil] at hout
    exact ⟨fun _ => keys_of_none hworld hnokey, nofun, Or.inl ⟨hout, nofun⟩⟩
  | trustProbe addr =>
    obtain ⟨haside, hend⟩ := trustProbe_after hprog
    have hnokey : keys.part tr = [] := Embedding.part_eq_nil fun e he => (haside e he).1
    refine ⟨fun _ => keys_of_none hworld hnokey, fun _ => known_of_quiet hworld fun e he => (haside e he).2, ?_⟩
    rcases hend with ⟨hnone, hno⟩ | ⟨host, port, tls, fp, haddr, hmem, hpres, hline⟩
    · rw [hnone, List.append_nil] at hout
      exact Or.inl ⟨hout, fun _ => hno⟩
    · rw [hline] at hout
      exact Or.inr ⟨_, hout, .certificate haddr hmem hpres⟩
  | keyFingerprint =>
    obtain ⟨hquiet, hend⟩ := keyFingerprint_after hprog
    refine ⟨nofun, fun _ => known_of_quiet hworld hquiet, ?_⟩
    rcases hend with ⟨hnone, hno⟩ | ⟨sk, hkey, hline⟩
    · rw [hnone, List.append_nil] at hout
      exact Or.inl ⟨hout, fun _ => hno⟩
    · rw [hline] at hout
      exact Or.inr ⟨_, hout, .key (holdsKey_after hX hkey (run_keys hworld))⟩

/-- **What the commands do.** In every run of a command, whatever is answered: `trust-probe` and `trust add` leave the
key files alone, `trust-probe` and `key-fingerprint` the pins; and at most one line is printed before a session, by the
latter two alone, and always when they succeed. It is the fingerprint of the certificate that the host and the port of
the address have presented, or of the key whose two halves are in the files. -/
theorem command_effects (hX : X.Lawful) {home : Option Path}
    (h : Lts.run (Prog.step answer) (main X home cmd, w₀) tr = some (q, w)) :
    (cmd.usesKey = false → w.keys = w₀.keys) ∧ (cmd.storesPin = false → w.known = w₀.known) ∧
      ((w.stdout = w₀.stdout ∧ (cmd.storesPin = false → ∀ next, q ≠ .ret (.ok next))) ∨
        ∃ line, w.stdout = w₀.stdout ++ [line] ∧ Reports X tr w cmd line) := by
  cases home with
  | some home => exact command_effects_at hX h
  | none =>
    obtain ⟨hprog, hworld⟩ := Prog.step_run.1 h
    obtain ⟨rfl, rfl⟩ := after_ret hprog
    rw [Lts.run_nil, Option.some.injEq] at hworld
    rw [hworld]
    exact ⟨fun _ => rfl, fun _ => rfl, Or.inl ⟨rfl, fun _ next hr => by cases hr⟩⟩

/-- `sao key-fingerprint` of a new agent, up to its line on stdout. -/
theorem command_effects_sample : ∃ tr q w,
    Lts.run (Prog.step answer) (main Ext.sample (some root) .keyFingerprint, fresh) tr = some (q, w) ∧
      w.stdout = [ed25519FingerprintHex Ext.sample (Ext.sample.verifyingKey Sample.secretKey)] ∧ w.known = .default := by
  have hkey := after_lift_map (E := keys) (after_mapError (f := Stop.ofCore) (AgentKey.after_creates (X := Ext.sample)
    Sample.secretKey))
  have hworld : Lts.run (fun w e => answer e w) fresh ((AgentKey.creates Ext.sample Sample.secretKey).map keys.event ++
      [⟨.println (ed25519FingerprintHex Ext.sample (Ext.sample.verifyingKey Sample.secretKey)), .ok ()⟩]) =
        some ⟨.default, sampleKeys, [ed25519FingerprintHex Ext.sample (Ext.sample.verifyingKey Sample.secretKey)]⟩ :=
    Lts.run_append.2 ⟨_, run_keys_event run_creates, rfl⟩
  have hrun : Lts.run (Prog.step answer) (main Ext.sample (some root) .keyFingerprint, fresh) _ = _ :=
    Prog.step_run.2 ⟨(after_bind hkey).trans ((after_call _ _ _ _).trans (after_nil _)), hworld⟩
  exact ⟨_, _, _, hrun, rfl, (command_effects lawful_sample hrun).2.1 rfl⟩

end Effects

end Sao.Main
