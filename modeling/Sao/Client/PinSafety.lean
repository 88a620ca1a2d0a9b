import Sao.Core.KnownHostsFile
import Sao.Core.Reference
import Sao.Client.Pin

/-!
# What the client trusts

The commands write the pin file only with a fingerprint that a peer presented and that was
accepted, and a connection is handed on only when its certificate has the pin that is stored.

* `Accepted` — a probe presented the fingerprint, and right after it was shown and consented to.
* `connectWithPinManagement_sat` — the spec of the whole function, whatever the replies are.
* `no_silent_trust` — over the file.
-/

namespace Sao.Client

open Text Prog

variable (X : Ext) (host : Str) (port : UInt16) (acceptNew : Bool)

/-- The key of a host and a port in the map. -/
def pinKey : HostPort := (normalizeHost X.toLowercase host, port)

/-- The map a process last read or wrote. -/
def known (tr : Trace) : Option KnownHosts :=
  tr.foldl (fun m e => match e with
    | ⟨.load, .ok kh⟩ => some kh
    | ⟨.save kh, .ok ()⟩ => some kh
    | _ => m) none

def shows (texts : List Str) : Trace := texts.map fun t => ⟨.eprint t, .ok ()⟩

/-- The fingerprint was shown, and it was accepted: by the flag, or by an answer on a terminal. -/
inductive Consent (fp : Pin) : Trace → Prop where
  | flag {text : Str} : acceptNew = true → hexEncode fp.1 <:+: text → Consent fp (shows [text])
  | answer {texts : List Str} {line : Str} : acceptNew = false → (∃ t ∈ texts, hexEncode fp.1 <:+: t) →
      saidYes X line = true →
      Consent fp (⟨.isTerminal, true⟩ :: shows texts ++ [⟨.flush, .ok ()⟩, ⟨.readLine, .ok line⟩])

/-- The certificate of this connection has this fingerprint. -/
def Presents (tls : TlsStream) (fp : Pin) : Prop :=
  ∃ der, tls.peerDer = .ok der ∧ spkiSha256Bytes X der = .ok fp

/-- A connection was opened that presents the fingerprint, and what follows is the consent to it. -/
def Accepted (tr : Trace) (fp : Pin) : Prop :=
  ∃ before tls shown rest, tr = before ++ ⟨.connect host port, .ok tls⟩ :: shown ++ rest ∧
    Presents X tls fp ∧ Consent X acceptNew fp shown

/-- Every write of the file adds one pin for `key`, which `A` allows at that point, to the map last known. -/
def Adds (A : Trace → Pin → Prop) (key : HostPort) (tr : Trace) : Prop :=
  ∀ before kh r rest, tr = before ++ ⟨.save kh, r⟩ :: rest →
    ∃ m fp, known before = some m ∧ A before fp ∧ kh = m.insert key fp

/-- Only accepted pins are added. -/
abbrev Saves : Trace → Prop := Adds (Accepted X host port acceptNew) (pinKey X host port)

/-- Events other than reading and writing the file. -/
def Quiet : Event Op.Reply → Prop
  | ⟨.load, _⟩ => False
  | ⟨.save _, _⟩ => False
  | _ => True

variable {X host port acceptNew}

/-! ## Traces -/

theorem known_snoc (tr : Trace) (e : Event Op.Reply) : known (tr ++ [e]) = match e with
    | ⟨.load, .ok kh⟩ => some kh
    | ⟨.save kh, .ok ()⟩ => some kh
    | _ => known tr := by
  rw [known, List.foldl_append]
  rfl

theorem known_quiet {tr : Trace} {e : Event Op.Reply} (h : Quiet e) : known (tr ++ [e]) = known tr := by
  obtain ⟨op, r⟩ := e
  rw [known_snoc]
  cases op with
  | load => exact h.elim
  | save kh => exact h.elim
  | _ => rfl

theorem Accepted.append {tr : Trace} {fp : Pin} (h : Accepted X host port acceptNew tr fp) (tr' : Trace) :
    Accepted X host port acceptNew (tr ++ tr') fp := by
  obtain ⟨before, tls, shown, rest, rfl, hp, hc⟩ := h
  exact ⟨before, tls, shown, rest ++ tr', by rw [List.append_assoc], hp, hc⟩

section Adds

variable {A : Trace → Pin → Prop} {key : HostPort} {tr : Trace}

theorem adds_nil : Adds A key [] := by
  intro before kh r rest h
  cases before <;> cases h

theorem Adds.prefix {tr' : Trace} (h : Adds A key (tr ++ tr')) : Adds A key tr := by
  intro before kh r rest htr
  exact h before kh r (rest ++ tr') (by rw [htr, List.append_assoc, List.cons_append])

/-- The last event of a trace is the only one that `Adds` has to be shown for. -/
theorem Adds.snoc {e : Event Op.Reply} (h : Adds A key tr)
    (he : ∀ kh r, e = ⟨.save kh, r⟩ → ∃ m fp, known tr = some m ∧ A tr fp ∧ kh = m.insert key fp) :
    Adds A key (tr ++ [e]) := by
  intro before kh r rest heq
  rcases List.eq_nil_or_concat rest with rfl | ⟨rest, e', rfl⟩
  · obtain ⟨rfl, he'⟩ := List.append_inj' heq rfl
    rw [List.cons.injEq] at he'
    exact he kh r he'.1
  · rw [List.concat_eq_append, ← List.cons_append, ← List.append_assoc] at heq
    exact h before kh r rest (List.append_inj' heq rfl).1

theorem Adds.quiet {e : Event Op.Reply} (h : Adds A key tr) (he : Quiet e) : Adds A key (tr ++ [e]) := by
  apply h.snoc
  rintro kh r rfl
  exact he.elim

theorem Adds.load {r : Res KnownHosts} (h : Adds A key tr) : Adds A key (tr ++ [⟨.load, r⟩]) := by
  apply h.snoc
  intro kh r' he
  cases he

end Adds

/-! ## The spec of each function -/

theorem insertHex_hexEncode (hl : Lowercase X.toLowercase) (kh : KnownHosts) (fp : Pin) :
    kh.insertHex X.toLowercase host port (hexEncode fp.1) = .ok (kh.insert (pinKey X host port) fp) := by
  rw [KnownHosts.insertHex, parseHex32_hexEncode hl]
  rfl

theorem pinHex_insert (kh : KnownHosts) (fp : Pin) :
    (kh.insert (pinKey X host port) fp).pinHex X.toLowercase host port = .ok fp := by
  rw [KnownHosts.pinHex, show (normalizeHost X.toLowercase host, port) = pinKey X host port from rfl,
    KnownHosts.lookup_insert_self]

theorem infix_mid (a b c : Str) : b <:+: a ++ b ++ c := ⟨a, c, rfl⟩

section Specs

variable {tr : Trace} (hI : Saves X host port acceptNew tr)

include hI

theorem sat_eprint {text : Str} : Sat (Saves X host port acceptNew)
    (fun r tr' => known tr' = known tr ∧ (r = .ok () → tr' = tr ++ shows [text])) (eprint text) tr := by
  refine sat_perform hI fun r => ⟨hI.quiet trivial, known_quiet trivial, fun hr => ?_⟩
  cases r with
  | ok u => rfl
  | error e => cases hr

theorem sat_connectPinned {pin : Pin} : Sat (Saves X host port acceptNew)
    (fun r tr' => known tr' = known tr ∧
      ∀ tls, r = .ok tls → tr' = tr ++ [⟨.connect host port, .ok tls⟩] ∧ Presents X tls pin)
    (connectPinned X host port pin) tr := by
  refine sat_bind (sat_perform hI fun r => ⟨hI.quiet trivial, ?_⟩)
  cases r with
  | error e => exact ⟨known_quiet trivial, fun tls h => by cases h⟩
  | ok tls =>
    refine sat_bind (sat_ret (hI.quiet trivial) ?_)
    cases hder : tls.peerDer with
    | error e => exact ⟨known_quiet trivial, fun tls h => by cases h⟩
    | ok der =>
      refine sat_bind (sat_ret (hI.quiet trivial) ?_)
      cases hgot : spkiSha256Bytes X der with
      | error e => exact ⟨known_quiet trivial, fun tls h => by cases h⟩
      | ok got =>
        show Sat _ _ (if got ≠ pin then throw pinMismatch else pure tls) _
        by_cases hpin : got = pin
        · rw [if_neg (not_not.2 hpin)]
          refine sat_pure (hI.quiet trivial) ⟨known_quiet trivial, fun tls' h => ?_⟩
          cases h
          exact ⟨rfl, der, hder, hpin ▸ hgot⟩
        · rw [if_pos hpin]
          exact sat_ret (hI.quiet trivial) ⟨known_quiet trivial, fun tls h => by cases h⟩

theorem sat_probeFingerprint {what : Str} : Sat (Saves X host port acceptNew)
    (fun r tr' => known tr' = known tr ∧
      ∀ fpHex, r = .ok fpHex → ∃ tls fp, tr' = tr ++ [⟨.connect host port, .ok tls⟩] ∧ Presents X tls fp ∧
        fpHex = hexEncode fp.1)
    (probeFingerprint X host port what) tr := by
  refine sat_bind (sat_mapError (sat_bind (sat_perform hI fun r => ⟨hI.quiet trivial, ?_⟩)))
  cases r with
  | error e => exact ⟨known_quiet trivial, fun _ h => by cases h⟩
  | ok tls =>
    refine sat_ret (hI.quiet trivial) ?_
    cases hder : tls.peerDer with
    | error e => exact ⟨known_quiet trivial, fun _ h => by cases h⟩
    | ok der =>
      refine sat_ret (hI.quiet trivial) ⟨known_quiet trivial, fun fpHex h => ?_⟩
      cases hhex : spkiSha256Hex X der with
      | error e => rw [hhex] at h; cases h
      | ok hex =>
        rw [hhex] at h
        cases h
        obtain ⟨fp, hfp, rfl⟩ := spkiSha256Hex_ok hhex
        exact ⟨tls, fp, rfl, ⟨der, hder, hfp⟩, rfl⟩

theorem sat_confirm {warning first second question refusal : Str} {fp : Pin}
    (hw : hexEncode fp.1 <:+: warning) (hs : hexEncode fp.1 <:+: second) : Sat (Saves X host port acceptNew)
    (fun r tr' => known tr' = known tr ∧
      (r = .ok true → ∃ shown, tr' = tr ++ shown ∧ Consent X acceptNew fp shown))
    (confirm X acceptNew warning first second question refusal) tr := by
  have hline : ∀ {t : Str}, hexEncode fp.1 <:+: t → hexEncode fp.1 <:+: t ++ ['\n'] := fun h =>
    h.trans (List.infix_append' [] _ _)
  cases acceptNew with
  | true =>
    refine sat_bind ((sat_eprint hI).mono fun r tr₁ hI₁ ⟨hk₁, htr₁⟩ => ?_)
    cases r with
    | error e => exact ⟨hk₁, fun h => by cases h⟩
    | ok u => exact sat_pure hI₁ ⟨hk₁, fun _ => ⟨_, htr₁ rfl, .flag rfl (hline hw)⟩⟩
  | false =>
    refine sat_bind (sat_perform hI fun tty => ⟨hI.quiet (by trivial), ?_⟩)
    cases tty with
    | false => exact sat_ret (hI.quiet (by trivial)) ⟨known_quiet (by trivial), fun h => by cases h⟩
    | true =>
      refine sat_bind ((sat_eprint (hI.quiet (by trivial))).mono fun r tr₁ hI₁ ⟨hk₁, htr₁⟩ => ?_)
      cases r with
      | error e => exact ⟨hk₁.trans (known_quiet (by trivial)), fun h => by cases h⟩
      | ok u =>
      refine sat_bind ((sat_eprint hI₁).mono fun r tr₂ hI₂ ⟨hk₂, htr₂⟩ => ?_)
      cases r with
      | error e => exact ⟨hk₂.trans (hk₁.trans (known_quiet (by trivial))), fun h => by cases h⟩
      | ok u =>
      refine sat_bind ((sat_eprint hI₂).mono fun r tr₃ hI₃ ⟨hk₃, htr₃⟩ => ?_)
      have hk : known tr₃ = known tr := hk₃.trans (hk₂.trans (hk₁.trans (known_quiet (by trivial))))
      cases r with
      | error e => exact ⟨hk, fun h => by cases h⟩
      | ok u =>
      refine sat_bind (sat_perform hI₃ fun flushed => ⟨hI₃.quiet (by trivial), ?_⟩)
      cases flushed with
      | error e => exact ⟨(known_quiet (by trivial)).trans hk, fun h => by cases h⟩
      | ok u =>
      refine sat_bind (sat_perform (hI₃.quiet (by trivial)) fun line => ⟨(hI₃.quiet (by trivial)).quiet (by trivial), ?_⟩)
      cases line with
      | error e => exact ⟨(known_quiet (by trivial)).trans ((known_quiet (by trivial)).trans hk), fun h => by cases h⟩
      | ok line =>
      refine sat_pure ((hI₃.quiet (by trivial)).quiet (by trivial))
        ⟨(known_quiet (by trivial)).trans ((known_quiet (by trivial)).trans hk), fun h => ?_⟩
      rw [Except.ok.injEq] at h
      have hshown : ∃ t ∈ [first ++ ['\n'], second ++ ['\n'], question], hexEncode fp.1 <:+: t :=
        ⟨_, List.mem_cons_of_mem _ List.mem_cons_self, hline hs⟩
      refine ⟨_, ?_, .answer rfl hshown h⟩
      rw [htr₃ rfl, htr₂ rfl, htr₁ rfl]
      simp [shows]

theorem sat_storePin (hl : Lowercase X.toLowercase) {kh : KnownHosts} {fp : Pin} {message : Str}
    (hk : known tr = some kh) (ha : Accepted X host port acceptNew tr fp) : Sat (Saves X host port acceptNew)
    (fun r tr' => ∀ pin, r = .ok pin → pin = fp ∧ known tr' = some (kh.insert (pinKey X host port) fp))
    (storePin X host port kh (hexEncode fp.1) message) tr := by
  refine sat_bind (sat_ret hI ?_)
  rw [insertHex_hexEncode hl]
  have hI₁ : ∀ r, Saves X host port acceptNew (tr ++ [⟨.save (kh.insert (pinKey X host port) fp), r⟩]) := by
    intro r
    apply hI.snoc
    intro kh' r' he
    cases he
    exact ⟨kh, fp, hk, ha, rfl⟩
  refine sat_bind (sat_perform hI fun r => ⟨hI₁ r, ?_⟩)
  cases r with
  | error e => exact fun pin h => by cases h
  | ok u =>
  refine sat_bind ((sat_eprint (hI₁ (Except.ok u))).mono fun r tr₂ hI₂ ⟨hk₂, _⟩ => ?_)
  cases r with
  | error e => exact fun pin h => by cases h
  | ok u =>
  refine sat_ret hI₂ fun pin h => ?_
  rw [pinHex_insert] at h
  cases h
  exact ⟨rfl, by rw [hk₂, known_snoc]⟩

theorem sat_resolveTlsPin (hl : Lowercase X.toLowercase) {knownPath : Str} : Sat (Saves X host port acceptNew)
    (fun r tr' => ∀ pin, r = .ok pin → ∃ m, known tr' = some m ∧ m.lookup (pinKey X host port) = some pin)
    (resolveTlsPin X host port knownPath acceptNew) tr := by
  refine sat_bind (sat_perform hI fun r => ⟨hI.load, ?_⟩)
  cases r with
  | error e => exact fun pin h => by cases h
  | ok kh =>
  have hk : known (tr ++ [⟨.load, .ok kh⟩]) = some kh := known_snoc _ _
  simp only [Except.mapError]
  split
  · rename_i pin hpin
    refine sat_pure hI.load fun pin' h => ?_
    cases h
    refine ⟨kh, hk, ?_⟩
    unfold KnownHosts.pinHex at hpin
    split at hpin
    · rename_i fp hfp
      cases hpin
      exact hfp
    · cases hpin
  · refine sat_bind ((sat_probeFingerprint hI.load).mono fun r tr₁ hI₁ ⟨hk₁, hprobe⟩ => ?_)
    cases r with
    | error e => exact fun pin h => by cases h
    | ok fpHex =>
    obtain ⟨tls, fp, htr₁, hpres, rfl⟩ := hprobe fpHex rfl
    refine sat_bind ((sat_confirm hI₁ (infix_mid _ _ _) (infix_mid _ _ _)).mono
      fun r tr₂ hI₂ ⟨hk₂, hconf⟩ => ?_)
    cases r with
    | error e => exact fun pin h => by cases h
    | ok save =>
    cases save with
    | false => exact sat_ret hI₂ fun pin h => by cases h
    | true =>
    obtain ⟨shown, htr₂, hcons⟩ := hconf rfl
    have ha : Accepted X host port acceptNew tr₂ fp :=
      ⟨tr ++ [⟨.load, .ok kh⟩], tls, shown, [], by rw [htr₂, htr₁]; simp, hpres, hcons⟩
    refine (sat_storePin hI₂ hl (hk₂.trans (hk₁.trans hk)) ha).mono fun r tr₃ _ hstore pin h => ?_
    obtain ⟨rfl, hk₃⟩ := hstore pin h
    exact ⟨_, hk₃, KnownHosts.lookup_insert_self _ _ _⟩
  · exact sat_ret hI.load fun pin h => by cases h

/-- A returned stream is the connection opened last, and presents the pin of the map last known. -/
def Pinned (X : Ext) (host : Str) (port : UInt16) (r : Except Stop TlsStream) (tr : Trace) : Prop :=
  ∀ tls, r = .ok tls → (∃ before, tr = before ++ [⟨.connect host port, .ok tls⟩]) ∧
    ∃ m pin, known tr = some m ∧ m.lookup (pinKey X host port) = some pin ∧ Presents X tls pin

theorem sat_replacePin (hl : Lowercase X.toLowercase) {knownPath : Str} : Sat (Saves X host port acceptNew)
    (Pinned X host port) (replacePin X host port knownPath acceptNew) tr := by
  refine sat_bind ((sat_probeFingerprint hI).mono fun r tr₁ hI₁ ⟨_, hprobe⟩ => ?_)
  cases r with
  | error e => exact fun tls h => by cases h
  | ok fpHex =>
  obtain ⟨tls, fp, htr₁, hpres, rfl⟩ := hprobe fpHex rfl
  refine sat_bind ((sat_confirm hI₁ (infix_mid _ _ _) (infix_mid _ _ _)).mono
    fun r tr₂ hI₂ ⟨_, hconf⟩ => ?_)
  cases r with
  | error e => exact fun tls h => by cases h
  | ok replace =>
  cases replace with
  | false => exact sat_ret hI₂ fun tls h => by cases h
  | true =>
  obtain ⟨shown, htr₂, hcons⟩ := hconf rfl
  have ha : Accepted X host port acceptNew tr₂ fp :=
    ⟨tr, tls, shown, [], by rw [htr₂, htr₁]; simp, hpres, hcons⟩
  refine sat_bind (sat_perform hI₂ fun r => ⟨hI₂.load, ?_⟩)
  cases r with
  | error e => exact fun tls h => by cases h
  | ok kh =>
  refine sat_bind ((sat_storePin hI₂.load hl (known_snoc _ _) (ha.append _)).mono fun r tr₃ hI₃ hstore => ?_)
  cases r with
  | error e => exact fun tls h => by cases h
  | ok pin =>
  obtain ⟨rfl, hk₃⟩ := hstore pin rfl
  refine sat_mapError ((sat_connectPinned hI₃).mono fun r tr₄ _ ⟨hk₄, hconn⟩ tls h => ?_)
  cases r with
  | error e => cases h
  | ok tls' =>
    cases h
    obtain ⟨htr₄, hpres⟩ := hconn tls rfl
    exact ⟨⟨_, htr₄⟩, _, pin, hk₄.trans hk₃, KnownHosts.lookup_insert_self _ _ _, hpres⟩

/-- **The whole function**, however it is answered. -/
theorem connectWithPinManagement_sat (hl : Lowercase X.toLowercase) {knownPath : Str} :
    Sat (Saves X host port acceptNew) (Pinned X host port)
      (connectWithPinManagement X host port knownPath acceptNew) tr := by
  refine sat_bind ((sat_resolveTlsPin hI hl).mono fun r tr₁ hI₁ hres => ?_)
  cases r with
  | error e => exact fun tls h => by cases h
  | ok pin =>
  obtain ⟨m, hm, hpin⟩ := hres pin rfl
  refine sat_bind (sat_attempt ((sat_connectPinned hI₁).mono fun r tr₂ hI₂ ⟨hk₂, hconn⟩ => ?_))
  cases r with
  | ok tls =>
    refine sat_pure hI₂ fun tls' h => ?_
    cases h
    obtain ⟨htr₂, hpres⟩ := hconn tls rfl
    exact ⟨⟨_, htr₂⟩, m, pin, hk₂.trans hm, hpin, hpres⟩
  | error e =>
    show Sat _ _ (if "SPKI pin mismatch".toList <:+: e then replacePin X host port knownPath acceptNew
      else throw (.err e)) _
    by_cases hmis : "SPKI pin mismatch".toList <:+: e
    · rw [if_pos hmis]
      exact sat_replacePin hI₂ hl
    · rw [if_neg hmis]
      exact sat_ret hI₂ fun tls h => by cases h

end Specs

/-! ## Over the file -/

/-- The file that nobody else writes: `load` reads the map or fails, `save` replaces it or fails. -/
def file (e : Event Op.Reply) (kh : KnownHosts) : Option KnownHosts :=
  match e with
  | ⟨.load, .ok m⟩ => if m = kh then some kh else none
  | ⟨.save m, .ok ()⟩ => some m
  | _ => some kh

/-- **The three kinds of steps**: others leave the file and what is known of it alone. -/
theorem file_cases {e : Event Op.Reply} {kh kh' : KnownHosts} (h : file e kh = some kh') :
    (kh' = kh ∧ (∀ tr, known (tr ++ [e]) = known tr) ∧ ∀ m, e ≠ ⟨.load, .ok m⟩) ∨
    (e = ⟨.load, .ok kh⟩ ∧ kh' = kh) ∨ e = ⟨.save kh', .ok ()⟩ := by
  obtain ⟨op, r⟩ := e
  cases op with
  | load =>
    cases r with
    | ok m =>
      simp only [file] at h
      split at h
      · rename_i hm
        cases h
        exact Or.inr (Or.inl ⟨by rw [hm], rfl⟩)
      · cases h
    | error err =>
      cases h
      exact Or.inl ⟨rfl, fun tr => known_snoc tr _, fun m he => by cases he⟩
  | save m =>
    cases r with
    | ok u => cases h; exact Or.inr (Or.inr rfl)
    | error err =>
      cases h
      exact Or.inl ⟨rfl, fun tr => known_snoc tr _, fun m he => by cases he⟩
  | _ =>
    cases h
    exact Or.inl ⟨rfl, fun tr => known_quiet trivial, fun m he => by cases he⟩

section File

variable {k₀ k : KnownHosts} {tr : Trace}

/-- The file is the initial one but for accepted pins, and the process knows it. -/
structure FileInv (X : Ext) (host : Str) (port : UInt16) (acceptNew : Bool) (k₀ k : KnownHosts) (tr : Trace) : Prop where
  current : ∀ m, known tr = some m → k = m
  other : ∀ key, key ≠ pinKey X host port → k.lookup key = k₀.lookup key
  own : k.lookup (pinKey X host port) = k₀.lookup (pinKey X host port) ∨
    ∃ fp, k.lookup (pinKey X host port) = some fp ∧ Accepted X host port acceptNew tr fp
  unwritten : (∀ kh r, ⟨.save kh, r⟩ ∉ tr) → k = k₀

theorem FileInv.same {tr : Trace} {e : Event Op.Reply} (h : FileInv X host port acceptNew k₀ k tr)
    (hk : ∀ m, known (tr ++ [e]) = some m → k = m) : FileInv X host port acceptNew k₀ k (tr ++ [e]) where
  current := hk
  other := h.other
  own := h.own.imp id fun ⟨fp, hfp, ha⟩ => ⟨fp, hfp, ha.append _⟩
  unwritten hno := h.unwritten fun kh r hmem => hno kh r (List.mem_append_left _ hmem)

theorem fileInv_run (hs : Saves X host port acceptNew tr)
    (h : Lts.run (fun k e => file e k) k₀ tr = some k) : FileInv X host port acceptNew k₀ k tr := by
  induction tr using List.reverseRecOn generalizing k with
  | nil =>
    rw [Lts.run_nil, Option.some.injEq] at h
    subst h
    exact ⟨fun m hm => (by cases hm), fun _ _ => rfl, Or.inl rfl, fun _ => rfl⟩
  | append_singleton tr e ih =>
    obtain ⟨k₁, hrun, he⟩ := Lts.run_snoc.1 h
    have hinv := ih hs.prefix hrun
    rcases file_cases he with ⟨rfl, hknown, -⟩ | ⟨rfl, rfl⟩ | rfl
    · exact hinv.same fun m hm => hinv.current m (by rwa [hknown] at hm)
    · exact hinv.same fun m hm => by rwa [known_snoc, Option.some.injEq] at hm
    · obtain ⟨m, fp, hm, ha, rfl⟩ := hs tr k (.ok ()) [] rfl
      obtain rfl := hinv.current m hm
      refine ⟨fun m hm => ?_, fun key hkey => ?_, ?_, fun hno => ?_⟩
      · rwa [known_snoc, Option.some.injEq] at hm
      · rw [KnownHosts.lookup_insert_ne hkey, hinv.other key hkey]
      · exact Or.inr ⟨fp, KnownHosts.lookup_insert_self _ _ _, ha.append _⟩
      · exact absurd (List.mem_append_right _ List.mem_cons_self) (hno _ _)

end File

/-- **No silent trust change.** In every run, finished or not: a returned stream is the connection
opened last and presents the pin that is stored; only the pin of this host and port may differ from
the initial one, and then it was accepted; and nothing is written before it was accepted. -/
theorem no_silent_trust (hl : Lowercase X.toLowercase) {knownPath : Str} {k₀ k : KnownHosts}
    {q : Interact TlsStream} {tr : Trace}
    (h : Lts.run (Prog.step file) (connectWithPinManagement X host port knownPath acceptNew, k₀) tr = some (q, k)) :
    (∀ tls, q = .ret (.ok tls) → (∃ before, tr = before ++ [⟨.connect host port, .ok tls⟩]) ∧
      ∃ pin, Presents X tls pin ∧ k.lookup (pinKey X host port) = some pin) ∧
    (∀ key, key ≠ pinKey X host port → k.lookup key = k₀.lookup key) ∧
    (k.lookup (pinKey X host port) = k₀.lookup (pinKey X host port) ∨
      ∃ fp, k.lookup (pinKey X host port) = some fp ∧ Accepted X host port acceptNew tr fp) ∧
    (∀ before kh r rest, tr = before ++ ⟨.save kh, r⟩ :: rest →
      ∃ fp, kh.lookup (pinKey X host port) = some fp ∧ Accepted X host port acceptNew before fp) ∧
    ((∀ fp, ¬ Accepted X host port acceptNew tr fp) → (∀ kh r, ⟨.save kh, r⟩ ∉ tr) ∧ k = k₀) := by
  obtain ⟨hq, hfile⟩ := Prog.step_run.1 h
  have hsat := sat_after (connectWithPinManagement_sat adds_nil hl) hq
  rw [List.nil_append] at hsat
  have hs := hsat.inv
  have hinv := fileInv_run hs hfile
  refine ⟨?_, hinv.other, hinv.own, ?_, ?_⟩
  · rintro tls rfl
    obtain ⟨hlast, m, pin, hm, hpin, hpres⟩ := hsat.2 tls rfl
    exact ⟨hlast, pin, hpres, hinv.current m hm ▸ hpin⟩
  · intro before kh r rest htr
    obtain ⟨m, fp, -, ha, rfl⟩ := hs before kh r rest htr
    exact ⟨fp, KnownHosts.lookup_insert_self _ _ _, ha⟩
  · intro hno
    have hnone : ∀ kh r, ⟨.save kh, r⟩ ∉ tr := by
      intro kh r hmem
      obtain ⟨before, rest, htr⟩ := List.append_of_mem hmem
      obtain ⟨m, fp, -, ha, -⟩ := hs before kh r rest htr
      exact hno fp (htr ▸ ha.append _)
    exact ⟨hnone, hinv.unwritten hnone⟩

/-! ## A first use with `--accept-new` -/

theorem after_connectPinned {tls : TlsStream} {fp : Pin} (h : Presents X tls fp) :
    (connectPinned X host port fp).after [⟨.connect host port, .ok tls⟩] = some (.ret (.ok tls)) := by
  obtain ⟨der, hder, hfp⟩ := h
  refine (after_call _ _ _ _).trans ?_
  rw [after_nil, Option.some.injEq]
  show (Prog.ret tls.peerDer >>= fun der => Prog.ret ((spkiSha256Bytes X der).mapError _) >>= fun got =>
    if got ≠ fp then throw pinMismatch else pure tls) = _
  rw [hder]
  show (Prog.ret ((spkiSha256Bytes X der).mapError _) >>= fun got =>
    if got ≠ fp then throw pinMismatch else pure tls) = _
  rw [hfp]
  exact if_neg (not_not.2 rfl)

/-- `connect_pinned` returns the connection only to a peer that presents the pin. -/
theorem presents_of_connectPinned {tls : TlsStream} {fp : Pin}
    (h : (connectPinned X host port fp).after [⟨.connect host port, .ok tls⟩] = some (.ret (.ok tls))) :
    Presents X tls fp :=
  ((sat_after (@sat_connectPinned X host port true [] adds_nil fp) h).2.2 tls rfl).2

theorem after_probeFingerprint {tls : TlsStream} {fp : Pin} {what : Str} (h : Presents X tls fp) :
    (probeFingerprint X host port what).after [⟨.connect host port, .ok tls⟩] = some (.ret (.ok (hexEncode fp.1))) := by
  obtain ⟨der, hder, hfp⟩ := h
  refine (after_call _ _ _ _).trans ?_
  rw [after_nil, Option.some.injEq]
  show (mapError _ (Prog.ret tls.peerDer) >>= fun der => .ret ((spkiSha256Hex X der).mapError _)) = _
  rw [hder]
  show Prog.ret ((spkiSha256Hex X der).mapError _) = _
  rw [spkiSha256Hex, hfp]
  rfl

theorem after_confirmFirstUse (fpHex : Str) : ∃ text,
    (confirmFirstUse X host port true fpHex).after [⟨.eprint text, .ok ()⟩] = some (.ret (.ok true)) :=
  ⟨_, after_call _ _ _ _⟩

theorem after_storePin (hl : Lowercase X.toLowercase) (kh : KnownHosts) (fp : Pin) (message : Str) : ∃ text,
    (storePin X host port kh (hexEncode fp.1) message).after
      [⟨.save (kh.insert (pinKey X host port) fp), .ok ()⟩, ⟨.eprint text, .ok ()⟩] = some (.ret (.ok fp)) := by
  refine ⟨message ++ ['\n'], ?_⟩
  unfold storePin
  rw [insertHex_hexEncode hl]
  refine (after_call _ _ _ _).trans ((after_call _ _ _ _).trans ?_)
  rw [after_nil, Option.some.injEq]
  show Prog.ret (((kh.insert (pinKey X host port) fp).pinHex X.toLowercase host port).mapError Stop.ofCore) = _
  rw [pinHex_insert]
  rfl

/-- A host without a pin, met with `--accept-new`: its pin is stored and the connection returned. -/
theorem firstUse_run (hl : Lowercase X.toLowercase) (knownPath : Str) {k₀ : KnownHosts} {tls : TlsStream} {fp : Pin}
    (hk : k₀.lookup (pinKey X host port) = none) (hp : Presents X tls fp) :
    ∃ tr, Lts.run (Prog.step file) (connectWithPinManagement X host port knownPath true, k₀) tr =
      some (.ret (.ok tls), k₀.insert (pinKey X host port) fp) := by
  obtain ⟨warning, hw⟩ := @after_confirmFirstUse X host port (hexEncode fp.1)
  obtain ⟨text, ht⟩ := @after_storePin X host port hl k₀ fp
    ("Pinned ".toList ++ hostPort host port ++ " in ".toList ++ knownPath)
  obtain ⟨s, hs⟩ : ∃ s, k₀.pinHex X.toLowercase host port = .error (.knownHostsMissing s) := by
    rw [KnownHosts.pinHex, show (normalizeHost X.toLowercase host, port) = pinKey X host port from rfl, hk]
    exact ⟨_, rfl⟩
  have hresolve : (resolveTlsPin X host port knownPath true).after
      (⟨.load, .ok k₀⟩ :: ([⟨.connect host port, .ok tls⟩] ++ ([⟨.eprint warning, .ok ()⟩] ++
        [⟨.save (k₀.insert (pinKey X host port) fp), .ok ()⟩, ⟨.eprint text, .ok ()⟩]))) = some (.ret (.ok fp)) := by
    refine (after_call _ _ _ _).trans ?_
    simp only [Except.mapError, Prog.bind]
    rw [hs]
    exact (after_bind (after_probeFingerprint hp)).trans ((after_bind hw).trans ht)
  have hconn : ((connectPinned X host port fp).attempt : Interact _).after [⟨.connect host port, .ok tls⟩] =
      some (.ret (.ok (.ok tls))) := after_attempt (after_connectPinned hp)
  refine ⟨_ ++ ([⟨.connect host port, .ok tls⟩] ++ []), Prog.step_run.2
    ⟨(after_bind hresolve).trans ((after_bind hconn).trans (after_nil _)), ?_⟩⟩
  simp only [List.cons_append, List.nil_append, Lts.run, file, if_true]

theorem presents_sample : Presents Ext.sample ⟨.ok (some (.ok Sample.certificate))⟩ Sample.spkiDigest := by
  have hraw : Ext.sample.subjectPkiRaw Sample.certificate = .ok Sample.spki := by
    simp only [Ext.sample, Ext.reference, Sample.crypto, if_true]
  exact ⟨Sample.certificate, rfl, by rw [spkiSha256Bytes, hraw]; exact congrArg _ Sample.sha256_spki⟩

/-- `sao run --accept-new` against a peer with the sample certificate. -/
theorem no_silent_trust_firstUse : ∃ pin, Presents Ext.sample ⟨.ok (some (.ok Sample.certificate))⟩ pin ∧
    (KnownHosts.default.insert (pinKey Ext.sample "sao".toList 8443) Sample.spkiDigest).lookup
      (pinKey Ext.sample "sao".toList 8443) = some pin := by
  obtain ⟨tr, htr⟩ := firstUse_run lawful_sample.lowercase "known_hosts".toList
    (KnownHosts.lookup_default (pinKey Ext.sample "sao".toList 8443)) presents_sample
  exact ((no_silent_trust lawful_sample.lowercase htr).1 _ rfl).2

end Sao.Client
