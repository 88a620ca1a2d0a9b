import Sao.Client.Main
import Sao.Client.TrustAdd

/-!
# From `trust-probe` to an unattended `run`

The fingerprint that `trust-probe` prints is given to `trust add`, and `run` is then left to itself:
without `--accept-new`, and with nobody at a terminal.

* `unattended_saves` — such a run never writes the pin file: only a person could consent.
* `lastAccepted_later` — a pin stays the last one of its key, whatever is added for other keys.
* `enrolment` — from then on exactly the peers with the probed fingerprint are talked to.
-/

namespace Sao.Client

open Text Prog

variable {X : Ext}

/-! ## A run without a person -/

/-- The pin file reads as `file`, and nobody is at the terminal. -/
def Unattended (X : Ext) (file : Option Str) : Event Op.Reply → Prop
  | ⟨.load, r⟩ => r = KnownHosts.load X.toLowercase file ∨ ∃ e, r = .error (.err (.io e))
  | ⟨.isTerminal, tty⟩ => tty = false
  | _ => True

/-- Consent without the flag was given on a terminal. -/
theorem Consent.terminal {fp : Pin} {shown : Trace} (h : Consent X false fp shown) :
    (⟨.isTerminal, true⟩ : Event Op.Reply) ∈ shown := by
  cases h with
  | flag hflag _ => cases hflag
  | answer _ _ _ => exact List.mem_cons_self

section Unattended

variable {host knownPath : Str} {port : UInt16} {file : Option Str} {kh : KnownHosts} {tr : Trace}
  {q : Interact TlsStream}

/-- Nobody consents, so nothing is written. -/
theorem unattended_saves (hs : Saves X host port false tr) (hun : ∀ e ∈ tr, Unattended X file e) :
    ∀ m r, ⟨.save m, r⟩ ∉ tr := by
  intro m r hmem
  obtain ⟨before, rest, rfl⟩ := List.append_of_mem hmem
  obtain ⟨-, fp, -, ⟨pre, tls, shown, post, rfl, -, hconsent⟩, -⟩ := hs before m r rest rfl
  have hterminal : (⟨.isTerminal, true⟩ : Event Op.Reply) ∈
      pre ++ ⟨.connect host port, .ok tls⟩ :: shown ++ post ++ ⟨.save m, r⟩ :: rest := by
    simp [hconsent.terminal]
  exact Bool.noConfusion (show true = false from hun _ hterminal)

/-- What is known of a file that is not written is what it reads as. -/
theorem unattended_known (hload : KnownHosts.load X.toLowercase file = .ok kh)
    (hsaves : ∀ m r, ⟨.save m, r⟩ ∉ tr) (hun : ∀ e ∈ tr, Unattended X file e) {m : KnownHosts}
    (hm : known tr = some m) : m = kh := by
  induction tr using List.reverseRecOn with
  | nil => cases hm
  | append_singleton tr e ih =>
    have ih := ih (fun m r h => hsaves m r (List.mem_append_left _ h)) fun e he => hun e (List.mem_append_left _ he)
    have he := hun e (List.mem_append_right _ (List.mem_singleton_self e))
    obtain ⟨op, r⟩ := e
    rw [known_snoc] at hm
    cases op with
    | load =>
      cases r with
      | error err => exact ih hm
      | ok m' =>
        cases hm
        rcases he with he | ⟨err, he⟩
        · rw [hload] at he
          exact Except.ok.inj he
        · cases he
    | save m' => exact absurd (List.mem_append_right _ (List.mem_singleton_self _)) (hsaves m' r)
    | _ => exact ih hm

/-- A returned connection presents the pin of the file. -/
theorem unattended_pinned (hl : Lowercase X.toLowercase) (hload : KnownHosts.load X.toLowercase file = .ok kh)
    (h : (connectWithPinManagement X host port knownPath false).after tr = some q)
    (hun : ∀ e ∈ tr, Unattended X file e) : (∀ m r, ⟨.save m, r⟩ ∉ tr) ∧ ∀ tls, q = .ret (.ok tls) →
      ∃ before pin, tr = before ++ [⟨.connect host port, .ok tls⟩] ∧ kh.lookup (pinKey X host port) = some pin ∧
        Presents X tls pin := by
  have hsat := sat_after (connectWithPinManagement_sat adds_nil hl) h
  rw [List.nil_append] at hsat
  have hsaves := unattended_saves hsat.inv hun
  refine ⟨hsaves, ?_⟩
  rintro tls rfl
  obtain ⟨⟨before, hlast⟩, m, pin, hm, hpin, hpres⟩ := hsat.2 tls rfl
  rw [unattended_known hload hsaves hun hm] at hpin
  exact ⟨before, pin, hlast, hpin, hpres⟩

/-- A peer that presents the stored pin is talked to at once. -/
theorem after_pinned {tls : TlsStream} {pin : Pin} (hpin : kh.lookup (pinKey X host port) = some pin)
    (hpres : Presents X tls pin) : (connectWithPinManagement X host port knownPath false).after
      [⟨.load, .ok kh⟩, ⟨.connect host port, .ok tls⟩] = some (.ret (.ok tls)) := by
  have hlookup : kh.pinHex X.toLowercase host port = .ok pin := by
    rw [KnownHosts.pinHex, show (normalizeHost X.toLowercase host, port) = pinKey X host port from rfl, hpin]
  have hresolve : (resolveTlsPin X host port knownPath false).after [⟨.load, .ok kh⟩] = some (.ret (.ok pin)) := by
    refine (after_call _ _ _ _).trans ?_
    simp only [Except.mapError, Prog.bind]
    rw [hlookup]
    rfl
  have hconn : ((connectPinned X host port pin).attempt : Interact _).after [⟨.connect host port, .ok tls⟩] =
      some (.ret (.ok (.ok tls))) := after_attempt (after_connectPinned hpres)
  have hsplit : ([⟨.load, .ok kh⟩, ⟨.connect host port, .ok tls⟩] : Trace) =
      [⟨.load, .ok kh⟩] ++ ([⟨.connect host port, .ok tls⟩] ++ []) := rfl
  rw [hsplit]
  exact (after_bind hresolve).trans ((after_bind hconn).trans (after_nil _))

/-- Behind such a beginning, nothing else happens. -/
theorem unattended_begins {tls : TlsStream} {pin : Pin} {m : KnownHosts}
    (hload : KnownHosts.load X.toLowercase file = .ok kh) (hpin : kh.lookup (pinKey X host port) = some pin)
    (h : (connectWithPinManagement X host port knownPath false).after tr = some q)
    (hun : ∀ e ∈ tr, Unattended X file e) (hpres : Presents X tls pin)
    (hbegins : [⟨.load, .ok m⟩, ⟨.connect host port, .ok tls⟩] <+: tr) : q = .ret (.ok tls) := by
  obtain ⟨rest, rfl⟩ := hbegins
  have hm : m = kh := by
    rcases hun ⟨.load, .ok m⟩ List.mem_cons_self with hm | ⟨err, hm⟩
    · rw [hload] at hm
      exact Except.ok.inj hm
    · cases hm
  subst hm
  obtain ⟨p, hp, hq⟩ := after_append.1 h
  rw [after_pinned hpin hpres, Option.some.injEq] at hp
  subst hp
  exact (after_ret hq).2

end Unattended

/-! ## Commands for other hosts -/

theorem lastAccepted_later {cs later : List TrustAdd} {c : TrustAdd} {fp : Pin} (hc : c.accepted X = some fp)
    (hlater : ∀ d ∈ later, d.key X ≠ c.key X) : lastAccepted X (cs ++ c :: later) (c.key X) = some fp := by
  induction later using List.reverseRecOn with
  | nil =>
    rw [lastAccepted_snoc, if_pos rfl, hc]
    rfl
  | append_singleton later d ih =>
    have hd := hlater d (List.mem_append_right _ (List.mem_singleton_self d))
    rw [← List.cons_append, ← List.append_assoc, lastAccepted_snoc, if_neg (Ne.symm hd)]
    exact ih fun e he => hlater e (List.mem_append_left _ he)

end Sao.Client

namespace Sao.Main

open Text Prog Client
open Setup (Path)

variable {X : Ext} {home : Path}

/-- The probe of a host that has presented a certificate. -/
theorem trustProbe_returned {addr : Str} {next : Next} {tr : List (Event Op.Reply)}
    (h : (trustProbe X addr).after tr = some (.ret (.ok next))) : ∃ host port tls fp,
      parseAddr addr = .ok (host, port) ∧ ⟨.connect host port, .ok tls⟩ ∈ pins.part tr ∧ Presents X tls fp ∧
        tr.filterMap printed = [hexEncode fp.1] := by
  rcases (trustProbe_after h).2 with ⟨-, hno⟩ | hreport
  · exact absurd rfl (hno next)
  · exact hreport

/-- **Enrolment.** Let `trust-probe` of an address have returned: it has printed the fingerprint of what the peer
presented. Let that line be given to `trust add`, among any other commands before it, and commands for other entries
after it. Then in every `run` for this entry, under any spelling of the host, without `--accept-new` and with nobody at
the terminal: the pin file is not written; the agent key is touched and a session begun only over a connection whose
certificate has the probed fingerprint; and if the first peer presents it, the command ends in a session with it. -/
theorem enrolment (hX : X.Lawful) (oracle : (op : Client.Op) → op.Reply) {addr : Str} {next : Next}
    {trp : List (Event Op.Reply)}
    (hprobe : (main X (some home) (.trustProbe addr)).after trp = some (.ret (.ok next))) :
    ∃ host port tls₀ pin, parseAddr addr = .ok (host, port) ∧ ⟨.connect host port, .ok tls₀⟩ ∈ pins.part trp ∧
      Presents X tls₀ pin ∧ trp.filterMap printed = [hexEncode pin.1] ∧
      ∀ (cs later : List TrustAdd) (host' : Str) (cmd : List Str) (tr : List (Event Op.Reply)) (q : Interact Next),
        (∀ c ∈ cs ++ ⟨host, port, hexEncode pin.1⟩ :: later, KnownHosts.Plain (c.key X).1) →
        (∀ c ∈ later, c.key X ≠ pinKey X host port) → pinKey X host' port = pinKey X host port →
        (main X (some home) (.run port host' cmd false)).after tr = some q →
        (∀ e ∈ pins.part tr,
          Unattended X (fileAfter X oracle (cs ++ ⟨host, port, hexEncode pin.1⟩ :: later)) e) →
        (∀ m r, ⟨.save m, r⟩ ∉ pins.part tr) ∧
        (keys.part tr ≠ [] ∨ (∃ next, q = .ret (.ok next)) → ∃ before tls,
          pins.part tr = before ++ [⟨.connect host' port, .ok tls⟩] ∧ Presents X tls pin) ∧
        ∀ kh tls r, [⟨.load, .ok kh⟩, ⟨.connect host' port, .ok tls⟩] <+: pins.part tr → Presents X tls pin →
          q = .ret r → ∃ E, r = .ok (.session tls E) := by
  obtain ⟨host, port, tls₀, pin, haddr, hmem, hpres, hline⟩ := trustProbe_returned hprobe
  refine ⟨host, port, tls₀, pin, haddr, hmem, hpres, hline, ?_⟩
  intro cs later host' cmd tr q hplain hlater hkey hrun hun
  have haccepted : (TrustAdd.mk host port (hexEncode pin.1)).accepted X = some pin := by
    rw [TrustAdd.accepted, parseHex32_hexEncode hX.lowercase]
    rfl
  obtain ⟨kh, hload, hlookup, -⟩ :=
    (show Holds X (fileAfter X oracle _) _ from holds_fileAfter hX.lowercase hplain).load hX.lowercase
  have hpin : kh.lookup (pinKey X host' port) = some pin := by
    rw [hlookup, hkey]
    exact lastAccepted_later haccepted hlater
  obtain ⟨trq, trk, p, rfl, hpins, hkeys, hconn, hend⟩ := runCmd_after hrun
  have hpart : pins.part (trq ++ trk) = pins.part trq := by
    rw [Embedding.part_append, (keys_only hkeys).1, List.append_nil]
  rw [hpart] at hun ⊢
  obtain ⟨hsaves, hpinned⟩ := unattended_pinned hX.lowercase hload hconn hun
  refine ⟨hsaves, ?_, ?_⟩
  · intro hused
    rcases hend with ⟨rfl, -, hno⟩ | ⟨tls, rfl, -⟩
    · rcases hused with hkey | ⟨next, hq⟩
      · rw [List.append_nil] at hkey
        exact absurd (pins_only hpins).1 hkey
      · exact absurd hq (hno next)
    · obtain ⟨before, pin', hlast, hpin', hpres'⟩ := hpinned tls rfl
      rw [hpin, Option.some.injEq] at hpin'
      exact ⟨before, tls, hlast, hpin' ▸ hpres'⟩
  · intro m tls r hbegins hpeer hq
    obtain rfl := unattended_begins hload hpin hconn hun hpeer hbegins
    rcases hend with ⟨-, hno, -⟩ | ⟨tls', htls, hret⟩
    · exact absurd rfl (hno tls)
    · cases htls
      obtain ⟨signingKey, rfl, -⟩ := hret r hq
      exact ⟨_, rfl⟩

/-! ## A host that is enrolled -/

/-- A probe in which nothing fails. -/
theorem probe_returns {host : Str} {port : UInt16} {tls : TlsStream} {fp : Pin} (h : Presents X tls fp) : ∃ text,
    (probe X host port).after [⟨.pin (.connect host port), .ok tls⟩, ⟨.println (hexEncode fp.1), .ok ()⟩,
      ⟨.pin (.eprint text), .ok ()⟩] = some (.ret (.ok .done)) := by
  obtain ⟨der, hder, hfp⟩ := h
  have hconn : (connectProbe host port).after [⟨.connect host port, .ok tls⟩] = some (.ret (.ok der)) := by
    refine (after_call _ _ _ _).trans ?_
    rw [after_nil, ← hder]
    rfl
  have hhex : spkiSha256Hex X der = .ok (hexEncode fp.1) := by rw [spkiSha256Hex, hfp]
  have hlift := after_lift_map (E := pins) (after_mapError (f := Stop.err) hconn)
  refine ⟨"If correct: sao trust add ".toList ++ host ++ " ".toList ++ decimal port.toNat ++ " ".toList ++
    hexEncode fp.1 ++ ['\n'], (after_bind hlift).trans ?_⟩
  rw [hhex]
  exact (after_call _ _ _ _).trans ((after_call _ _ _ _).trans (after_nil _))

/-- The host is probed, its fingerprint is added, and the command is run under another spelling of the host. -/
theorem enrolment_sample : ∃ (tls : TlsStream) (E : ClientSession.Env) (tr : List (Event Op.Reply)),
    (main Ext.sample (some root) (.run 8443 "[SAO]".toList ["id".toList] false)).after tr =
      some (.ret (.ok (.session tls E))) ∧ ∀ m r, ⟨.save m, r⟩ ∉ pins.part tr := by
  obtain ⟨text, hprobe⟩ := @probe_returns Ext.sample "sao".toList 8443 _ _ presents_sample
  have haddr : parseAddr "sao:8443".toList = .ok ("sao".toList, 8443) := by decide
  have hmain : main Ext.sample (some root) (.trustProbe "sao:8443".toList) = probe Ext.sample "sao".toList 8443 := by
    show trustProbe Ext.sample "sao:8443".toList = _
    rw [trustProbe, haddr]
  rw [← hmain] at hprobe
  obtain ⟨host, port, tls, pin, hparse, -, hpres, -, hrun⟩ := enrolment lawful_sample unattended hprobe
  rw [haddr, Except.ok.injEq, Prod.mk.injEq] at hparse
  obtain ⟨rfl, rfl⟩ := hparse
  have hplain : ∀ c ∈ [] ++ [TrustAdd.mk "sao".toList 8443 (hexEncode pin.1)], KnownHosts.Plain (c.key Ext.sample).1 := by
    intro c hc
    rw [List.mem_singleton.1 hc]
    show KnownHosts.Plain (normalizeHost asciiLower "sao".toList)
    decide
  have haccepted : (TrustAdd.mk "sao".toList 8443 (hexEncode pin.1)).accepted Ext.sample = some pin := by
    rw [TrustAdd.accepted, parseHex32_hexEncode lawful_sample.lowercase]
    rfl
  obtain ⟨kh, hload, hlookup, -⟩ := (show Holds Ext.sample (fileAfter Ext.sample unattended _) _ from
    holds_fileAfter lawful_sample.lowercase hplain).load lawful_sample.lowercase
  have hkey : pinKey Ext.sample "[SAO]".toList 8443 = pinKey Ext.sample "sao".toList 8443 := by decide
  have hpin : kh.lookup (pinKey Ext.sample "[SAO]".toList 8443) = some pin := by
    rw [hlookup, hkey]
    exact lastAccepted_later haccepted nofun
  have hafter := @runCmd_returns Ext.sample root 8443 "[SAO]".toList ["id".toList] false _ _ _ _ (after_pinned hpin hpres)
    (AgentKey.after_creates Sample.secretKey)
  have hpart : ∀ e ∈ pins.part
        (([⟨.load, .ok kh⟩, ⟨.connect "[SAO]".toList 8443, .ok tls⟩] : Client.Trace).map pins.event ++
          (AgentKey.creates Ext.sample Sample.secretKey).map keys.event),
      Unattended Ext.sample (fileAfter Ext.sample unattended ([] ++ [⟨"sao".toList, 8443, hexEncode pin.1⟩])) e := by
    intro e he
    have he' : e ∈ ([⟨.load, .ok kh⟩, ⟨.connect "[SAO]".toList 8443, .ok tls⟩] : Client.Trace) := he
    rcases List.mem_cons.1 he' with rfl | he'
    · exact Or.inl hload.symm
    · rw [List.mem_singleton.1 he']
      trivial
  exact ⟨tls, _, _, hafter, (hrun [] [] "[SAO]".toList ["id".toList] _ _ hplain nofun hkey hafter hpart).1⟩

end Sao.Main
