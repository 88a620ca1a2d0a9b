import Sao.Server.TlsUtil

/-!
# What the parts of a command do to the files

One specification for each function, under any answers that the files allow and that meet a condition
`G`: the worlds it goes through, and what a result says about the last of them.

* `ensureSelfSignedPem_spec` — a certificate and a key are written only where a test for one of the two
  has failed, the certificate first.
* `save_spec`, `writeStub_spec`, `printSpkiFingerprint_spec` — the other parts of `init`.
* `rustlsServerConfig_spec`, `cmdInit_spec` — from these, the two commands.
* `rustlsServerConfig_exec`, `cmdInit_exec`, `cmdInit_refused` — the commands where nothing fails.
-/

namespace Sao.Setup

open Prog

variable {L : Lib} {G : World → Event Op.Reply → Prop} {J : World → Prop} {w : World} {ε : Type}

/-- A test for the file may find none. -/
def Missed (G : World → Event Op.Reply → Prop) (w : World) (p : Path) : Prop := G w ⟨.pathExists p, false⟩

/-- A file is there when it was written, or was there before. -/
theorem put_isSome {p q : Path} {b : Bytes} (h : q = p ∨ (w.files q).isSome) : ((w.put p b).files q).isSome := by
  by_cases hq : q = p
  · simp [hq]
  · rw [World.put_files, Function.update_of_ne hq]
    exact h.resolve_left hq

/-! ## One operation -/

theorem keeps_exists {p : Path} {Q : Except ε Bool → World → Prop} (hJ : J w)
    (hfound : (w.files p).isSome → Q (.ok true) w) (hmissed : Missed G w p → Q (.ok false) w) :
    Keeps World.answer G J Q (perform (.pathExists p) .ok) w := by
  refine keeps_perform hJ fun found w' hG hw => ?_
  simp only [World.answer] at hw
  split at hw
  · cases hw
  · rename_i hno
    cases hw
    refine ⟨hJ, ?_⟩
    cases found with
    | true => exact hfound (Option.isSome_iff_ne_none.2 fun h => hno ⟨rfl, h⟩)
    | false => exact hmissed hG

theorem keeps_createDirAll {p : Path} {Q : Except CoreError Unit → World → Prop} (hJ : J w) (hQ : ∀ r, Q r w) :
    Keeps World.answer G J Q (createDirAll p) w := by
  refine keeps_perform hJ fun r w' _ hw => ?_
  cases hw
  exact ⟨hJ, hQ _⟩

theorem keeps_generate {Q : Except CoreError (Str × Str) → World → Prop} (hJ : J w)
    (hok : ∀ pair, G w ⟨.generate, .ok pair⟩ → Q (.ok pair) w) (herr : ∀ e, Q (.error e) w) :
    Keeps World.answer G J Q generate w := by
  refine keeps_perform hJ fun r w' hG hw => ?_
  cases hw
  cases r with
  | error e => exact ⟨hJ, herr _⟩
  | ok pair => exact ⟨hJ, hok pair hG⟩

theorem keeps_readToString {p : Path} {Q : Except CoreError Str → World → Prop} (hJ : J w)
    (hok : ∀ s, w.files p = some (Bytes.utf8 s) → Q (.ok s) w) (herr : ∀ e, Q (.error e) w) :
    Keeps World.answer G J Q (readToString p) w := by
  refine keeps_perform hJ fun r w' _ hw => ?_
  cases r with
  | error e =>
    cases hw
    exact ⟨hJ, herr _⟩
  | ok s =>
    simp only [World.answer] at hw
    split at hw
    · rename_i hs
      cases hw
      exact ⟨hJ, hok s hs⟩
    · cases hw

theorem keeps_openFile {p : Path} {Q : Except CoreError Bytes → World → Prop} (hJ : J w) (hQ : ∀ r, Q r w) :
    Keeps World.answer G J Q (openFile p) w := by
  refine keeps_perform hJ fun r w' _ hw => ?_
  cases r with
  | error e =>
    cases hw
    exact ⟨hJ, hQ _⟩
  | ok b =>
    simp only [World.answer] at hw
    split at hw
    · cases hw
      exact ⟨hJ, hQ _⟩
    · cases hw

/-- A write that fails has done nothing, or has written a beginning. -/
theorem keeps_write {p : Path} {body : Bytes} {Q : Except CoreError Unit → World → Prop} (hJ : J w)
    (hok : J (w.put p body) ∧ Q (.ok ()) (w.put p body)) (hnone : ∀ e, Q (.error e) w)
    (htorn : ∀ e n, G w ⟨.write p body, .error (e, some n)⟩ →
      J (w.put p (body.take n)) ∧ Q (.error (.io e)) (w.put p (body.take n))) :
    Keeps World.answer G J Q (write p body) w := by
  refine keeps_perform hJ fun r w' hG hw => ?_
  match r, hw with
  | .ok (), hw =>
    cases hw
    exact hok
  | .error (e, some n), hw =>
    cases hw
    exact htorn e n hG
  | .error (e, none), hw =>
    cases hw
    exact ⟨hJ, hnone _⟩

theorem keeps_announce {fp : Str} {Q : Except CoreError Unit → World → Prop} (hJ : J w)
    (h : J (w.say fp) ∧ Q (.ok ()) (w.say fp)) : Keeps World.answer G J Q (announce fp) w := by
  refine keeps_perform hJ fun r w' _ hw => ?_
  cases hw
  exact h

theorem keeps_createParent {p : Path} {Q : Except CoreError Unit → World → Prop} (hJ : J w) (hQ : ∀ r, Q r w) :
    Keeps World.answer G J Q (createParent p) w := by
  unfold createParent
  split
  · exact keeps_createDirAll hJ hQ
  · exact keeps_ret hJ (hQ _)

theorem keeps_createNonemptyParent {p : Path} {Q : Except CoreError Unit → World → Prop} (hJ : J w)
    (hQ : ∀ r, Q r w) : Keeps World.answer G J Q (createNonemptyParent p) w := by
  unfold createNonemptyParent
  split
  · split
    · exact keeps_ret hJ (hQ _)
    · exact keeps_createDirAll hJ hQ
  · exact keeps_ret hJ (hQ _)

/-! ## The functions -/

/-- Both tests find their file, or one of them misses it. -/
theorem bothExist_spec (tls : TlsConfig) : Keeps World.answer G (· = w) (fun r w' => w' = w ∧
    ((r = .ok true ∧ (w.files tls.certPath).isSome ∧ (w.files tls.keyPath).isSome) ∨
      (r = .ok false ∧ (Missed G w tls.certPath ∨ Missed G w tls.keyPath)))) (bothExist tls) w := by
  refine keeps_bind (keeps_exists rfl (fun hcert => ?_) fun hmissed => ?_)
  · exact keeps_exists rfl (fun hkey => ⟨rfl, Or.inl ⟨rfl, hcert, hkey⟩⟩) fun hmissed =>
      ⟨rfl, Or.inr ⟨rfl, Or.inr hmissed⟩⟩
  · exact keeps_ret rfl ⟨rfl, Or.inr ⟨rfl, Or.inl hmissed⟩⟩

/-- The worlds of `ensure_self_signed_pem` after it has generated a pair: the certificate is written, or a
part of it, and then the key, or a part of that. -/
def Written (G : World → Event Op.Reply → Prop) (tls : TlsConfig) (w : World) (pair : Str × Str) (w' : World) : Prop :=
  (∃ c, w' = w.put tls.certPath c) ∨
    (∃ k, w' = (w.put tls.certPath (Bytes.utf8 pair.1)).put tls.keyPath k ∧ (k = Bytes.utf8 pair.2 ∨
      ∃ e n, G (w.put tls.certPath (Bytes.utf8 pair.1)) ⟨.write tls.keyPath (Bytes.utf8 pair.2), .error (e, some n)⟩))

/-- Nothing is written, or a pair where one of the tests has missed its file. -/
def Generating (G : World → Event Op.Reply → Prop) (tls : TlsConfig) (w w' : World) : Prop := w' = w ∨
  (tls.autoGenerateSelfSigned = true ∧ (Missed G w tls.certPath ∨ Missed G w tls.keyPath) ∧
    ∃ pair, G w ⟨.generate, .ok pair⟩ ∧ Written G tls w pair w')

theorem ensureSelfSignedPem_spec (L : Lib) (tls : TlsConfig) : Keeps World.answer G (Generating G tls w)
    (fun r w' => r = .ok () → (w'.files tls.certPath).isSome ∧ (w'.files tls.keyPath).isSome)
    (ensureSelfSignedPem L tls) w := by
  refine keeps_bind ((bothExist_spec tls).mono (fun w' h => Or.inl h) ?_)
  rintro r w' - ⟨rfl, ⟨rfl, hcert, hkey⟩ | ⟨rfl, hmissed⟩⟩
  · exact keeps_ret (Or.inl rfl) fun _ => ⟨hcert, hkey⟩
  have hstart : Generating G tls w' w' := Or.inl rfl
  show Keeps _ _ _ _ (if tls.autoGenerateSelfSigned then _ else _) w'
  split
  · rename_i hauto
    refine keeps_bind (keeps_createParent hstart fun r => ?_)
    match r with
    | .error e => exact fun h => by cases h
    | .ok () =>
    refine keeps_bind (keeps_createParent hstart fun r => ?_)
    match r with
    | .error e => exact fun h => by cases h
    | .ok () =>
    refine keeps_bind (keeps_generate hstart (fun pair hpair => ?_) fun e h => by cases h)
    have hwritten : ∀ w'', Written G tls w' pair w'' → Generating G tls w' w'' := fun w'' h =>
      Or.inr ⟨hauto, hmissed, pair, hpair, h⟩
    have hc : ∀ c, Generating G tls w' (w'.put tls.certPath c) := fun c => hwritten _ (Or.inl ⟨c, rfl⟩)
    refine keeps_bind (keeps_write hstart ⟨hc _, ?_⟩ (fun e h => by cases h) fun e n _ => ⟨hc _, fun h => by cases h⟩)
    have hk : ∀ k, (k = Bytes.utf8 pair.2 ∨ ∃ e n, G (w'.put tls.certPath (Bytes.utf8 pair.1))
          ⟨.write tls.keyPath (Bytes.utf8 pair.2), .error (e, some n)⟩) →
        Generating G tls w' ((w'.put tls.certPath (Bytes.utf8 pair.1)).put tls.keyPath k) := fun k hk =>
      hwritten _ (Or.inr ⟨k, rfl, hk⟩)
    refine keeps_write (hc _) ⟨hk _ (Or.inl rfl), fun _ => ⟨?_, put_isSome (Or.inl rfl)⟩⟩ (fun e h => by cases h)
      fun e n hG => ⟨hk _ (Or.inr ⟨e, n, hG⟩), fun h => by cases h⟩
    exact put_isSome (Or.inr (put_isSome (Or.inl rfl)))
  · exact keeps_ret hstart fun h => by cases h

theorem save_spec (L : Lib) (cfg : ServerConfigFile) (path : Path) : Keeps World.answer G
    (fun w' => w' = w ∨ ∃ b, w' = w.put path b) (fun r w' => r = .ok () → ∃ b, w' = w.put path b)
    (save L cfg path) w := by
  refine keeps_bind (keeps_createNonemptyParent (Or.inl rfl) fun r => ?_)
  match r with
  | .error e => exact fun h => by cases h
  | .ok () =>
  cases hyaml : L.toYaml cfg with
  | error e => exact keeps_bind (keeps_ret (Or.inl rfl) fun h => by cases h)
  | ok yaml =>
    refine keeps_bind (keeps_ret (Or.inl rfl) ?_)
    exact keeps_write (Or.inl rfl) ⟨Or.inr ⟨_, rfl⟩, fun _ => ⟨_, rfl⟩⟩ (fun e h => by cases h) fun e n _ =>
      ⟨Or.inr ⟨_, rfl⟩, fun h => by cases h⟩

theorem writeStub_spec (path : Path) : Keeps World.answer G
    (fun w' => w' = w ∨ (Missed G w path ∧ ∃ b, w' = w.put path b)) (fun r w' => r = .ok () → (w'.files path).isSome)
    (writeStub path) w := by
  refine keeps_bind (keeps_exists (Or.inl rfl) (fun hfound => ?_) fun hmissed => ?_)
  · exact keeps_ret (Or.inl rfl) fun _ => hfound
  · refine keeps_bind (keeps_createNonemptyParent (Or.inl rfl) fun r => ?_)
    match r with
    | .error e => exact fun h => by cases h
    | .ok () =>
    exact keeps_write (Or.inl rfl) ⟨Or.inr ⟨hmissed, _, rfl⟩, fun _ => by simp⟩ (fun e h => by cases h) fun e n _ =>
      ⟨Or.inr ⟨hmissed, _, rfl⟩, fun h => by cases h⟩

theorem printSpkiFingerprint_spec (L : Lib) (certPem : Str) : Keeps World.answer G
    (fun w' => w' = w ∨ ∃ fp, spkiSha256HexFromPem L.toExt certPem = .ok fp ∧ w' = w.say fp) (fun _ _ => True)
    (printSpkiFingerprint L certPem) w := by
  unfold printSpkiFingerprint
  split
  · exact keeps_ret (Or.inl rfl) trivial
  · rename_i fp hfp
    exact keeps_announce (Or.inl rfl) ⟨Or.inr ⟨fp, hfp, rfl⟩, trivial⟩

/-! ## The commands -/

/-- The worlds of a start: a pair may be written, and the fingerprint of the certificate announced. -/
inductive Starting (G : World → Event Op.Reply → Prop) (L : Lib) (tls : TlsConfig) (w : World) : World → Prop where
  | generating {w' : World} (h : Generating G tls w w') : Starting G L tls w w'
  | announced {w' : World} {certPem fp : Str} (h : Generating G tls w w')
      (hread : w'.files tls.certPath = some (Bytes.utf8 certPem))
      (hfp : spkiSha256HexFromPem L.toExt certPem = .ok fp) : Starting G L tls w (w'.say fp)

/-- The worlds of `init` where it is not refused: the configuration is written, then what a start does is
done, and then the stub is written. -/
inductive Initializing (G : World → Event Op.Reply → Prop) (L : Lib) (configPath : Path) (w : World) : World → Prop where
  | untouched : Initializing G L configPath w w
  | saved (b : Bytes) : Initializing G L configPath w (w.put configPath b)
  | starting {b : Bytes} {w' : World} (h : Starting G L (initForDir (configDir configPath)).tls (w.put configPath b) w') :
      Initializing G L configPath w w'
  | stub {b : Bytes} {w' : World} (h : Starting G L (initForDir (configDir configPath)).tls (w.put configPath b) w')
      (hmissed : Missed G w' (initForDir (configDir configPath)).authorizedKeysPath) (body : Bytes) :
      Initializing G L configPath w (w'.put (initForDir (configDir configPath)).authorizedKeysPath body)

theorem rustlsServerConfig_spec (L : Lib) (tls : TlsConfig) : Keeps World.answer G (Starting G L tls w)
    (fun _ _ => True) (rustlsServerConfig L tls) w := by
  refine keeps_bind ((ensureSelfSignedPem_spec L tls).mono (fun w' h => .generating h) ?_)
  rintro (e | u) w₁ h₁ -
  · trivial
  refine keeps_bind (keeps_readToString (.generating h₁) (fun certPem hread => ?_) fun e => trivial)
  have hsaid : ∀ w', (w' = w₁ ∨ ∃ fp, spkiSha256HexFromPem L.toExt certPem = .ok fp ∧ w' = w₁.say fp) →
      Starting G L tls w w' := by
    rintro w' (rfl | ⟨fp, hfp, rfl⟩)
    · exact .generating h₁
    · exact .announced h₁ hread hfp
  refine keeps_bind ((printSpkiFingerprint_spec L certPem).mono hsaid ?_)
  rintro (e | u) w₂ hw₂ -
  · trivial
  have h₂ := hsaid w₂ hw₂
  refine keeps_bind (keeps_openFile h₂ fun r => ?_)
  cases r with
  | error e => trivial
  | ok certFile =>
  show Keeps _ _ _ _ (if keptCerts L certFile = [] then _ else _) w₂
  split
  · exact keeps_ret h₂ trivial
  refine keeps_bind (keeps_openFile h₂ fun r => ?_)
  cases r with
  | error e => trivial
  | ok keyFile =>
  refine keeps_bind (keeps_ret h₂ ?_)
  cases firstKey L keyFile with
  | error e => trivial
  | ok key =>
  refine keeps_bind (keeps_ret h₂ ?_)
  cases (L.withSingleCert (keptCerts L certFile) key).mapError CoreError.io with
  | error e => trivial
  | ok u => exact keeps_ret h₂ trivial

/-- What a successful `init` leaves: the files of a start in which both were there, and the stub or another
key file. -/
def Initialized (G : World → Event Op.Reply → Prop) (L : Lib) (configPath : Path) (w w' : World) : Prop :=
  ∃ b w₁, Starting G L (initForDir (configDir configPath)).tls (w.put configPath b) w₁ ∧
    (w₁.files (initForDir (configDir configPath)).tls.certPath).isSome ∧
    (w₁.files (initForDir (configDir configPath)).tls.keyPath).isSome ∧
    (w' = w₁ ∨ ∃ body, w' = w₁.put (initForDir (configDir configPath)).authorizedKeysPath body) ∧
    (w'.files (initForDir (configDir configPath)).authorizedKeysPath).isSome

theorem cmdInit_spec (L : Lib) (configPath : Path) (force : Bool) : Keeps World.answer G
    (fun w' => w' = w ∨ ((force = true ∨ Missed G w configPath) ∧ Initializing G L configPath w w'))
    (fun r w' => r = .ok () → Initialized G L configPath w w') (cmdInit L configPath force) w := by
  have hgo : force = true ∨ Missed G w configPath → Keeps World.answer G
      (fun w' => w' = w ∨ ((force = true ∨ Missed G w configPath) ∧ Initializing G L configPath w w'))
      (fun r w' => r = .ok () → Initialized G L configPath w w') (do
        let cfg := initForDir (configDir configPath)
        (save L cfg configPath).mapError .core
        (ensureSelfSignedPem L cfg.tls).mapError .core
        let certPem ← (readToString cfg.tls.certPath).mapError boxed
        (printSpkiFingerprint L certPem).mapError .core
        (writeStub cfg.authorizedKeysPath).mapError boxed) w := by
    intro hgo
    have hsaved : ∀ w', (w' = w ∨ ∃ b, w' = w.put configPath b) → Initializing G L configPath w w' := by
      rintro w' (rfl | ⟨b, rfl⟩)
      · exact .untouched
      · exact .saved b
    refine keeps_bind (keeps_mapError ((save_spec L _ configPath).mono (fun w' hw => Or.inr ⟨hgo, hsaved w' hw⟩) ?_))
    rintro (e | u) w₁ - hok
    · exact fun h => by cases h
    obtain ⟨b, rfl⟩ := hok rfl
    refine keeps_bind (keeps_mapError ((ensureSelfSignedPem_spec L _).mono
      (fun w' hw => Or.inr ⟨hgo, .starting (.generating hw)⟩) ?_))
    rintro (e | u) w₂ h₂ hok
    · exact fun h => by cases h
    obtain ⟨hcert, hkey⟩ := hok rfl
    refine keeps_bind (keeps_mapError (keeps_readToString (Or.inr ⟨hgo, .starting (.generating h₂)⟩)
      (fun certPem hread => ?_) fun e h => by cases h))
    have hsaid : ∀ w', (w' = w₂ ∨ ∃ fp, spkiSha256HexFromPem L.toExt certPem = .ok fp ∧ w' = w₂.say fp) →
        Starting G L (initForDir (configDir configPath)).tls (w.put configPath b) w' ∧ w'.files = w₂.files := by
      rintro w' (rfl | ⟨fp, hfp, rfl⟩)
      · exact ⟨.generating h₂, rfl⟩
      · exact ⟨.announced h₂ hread hfp, rfl⟩
    refine keeps_bind (keeps_mapError ((printSpkiFingerprint_spec L certPem).mono
      (fun w' hw => Or.inr ⟨hgo, .starting (hsaid w' hw).1⟩) ?_))
    rintro (e | u) w₃ hw₃ -
    · exact fun h => by cases h
    obtain ⟨h₃, hfiles⟩ := hsaid w₃ hw₃
    rw [← hfiles] at hcert hkey
    refine keeps_mapError ((writeStub_spec _).mono (fun w' hw => Or.inr ⟨hgo, ?_⟩) fun r w' hw hok hr => ?_)
    · rcases hw with rfl | ⟨hmissed, body, rfl⟩
      · exact .starting h₃
      · exact .stub h₃ hmissed body
    · cases r with
      | error e => cases hr
      | ok u => exact ⟨b, w₃, h₃, hcert, hkey, hw.imp id fun h => h.2, hok rfl⟩
  refine keeps_bind (keeps_exists (Or.inl rfl) (fun hfound => ?_) fun hmissed => ?_)
  · cases force with
    | true => exact hgo (Or.inl rfl)
    | false => exact keeps_ret (Or.inl rfl) fun h => by cases h
  · cases force with
    | true => exact hgo (Or.inl rfl)
    | false => exact hgo (Or.inr hmissed)

/-! ## Runs in which nothing fails -/

section Exec

variable {tls : TlsConfig} {pair : Str × Str}

/-- The files after `ensure_self_signed_pem`. -/
def ensured (tls : TlsConfig) (pair : Str × Str) (w : World) : World :=
  if (w.files tls.certPath).isSome ∧ (w.files tls.keyPath).isSome then w
  else (w.put tls.certPath (Bytes.utf8 pair.1)).put tls.keyPath (Bytes.utf8 pair.2)

/-- The files after the last step of `init`. -/
def stubbed (path : Path) (w : World) : World :=
  if (w.files path).isSome then w else w.put path (Bytes.utf8 AUTHORIZED_KEYS_STUB)

@[simp] theorem ensured_said : (ensured tls pair w).said = w.said := by
  unfold ensured
  split <;> rfl

@[simp] theorem stubbed_said (path : Path) : (stubbed path w).said = w.said := by
  unfold stubbed
  split <;> rfl

theorem createParent_exec (path : Path) : (createParent path).exec (serve pair) w = (w, .ok ()) := by
  unfold createParent
  split <;> rfl

theorem createNonemptyParent_exec (path : Path) : (createNonemptyParent path).exec (serve pair) w = (w, .ok ()) := by
  unfold createNonemptyParent
  split
  · split <;> rfl
  · rfl

theorem bothExist_exec : (bothExist tls).exec (serve pair) w =
    (w, .ok (decide ((w.files tls.certPath).isSome ∧ (w.files tls.keyPath).isSome))) := by
  have hcert : (pathExists tls.certPath).exec (serve pair) w = (w, .ok (w.files tls.certPath).isSome) := rfl
  have hkey : (pathExists tls.keyPath).exec (serve pair) w = (w, .ok (w.files tls.keyPath).isSome) := rfl
  rw [bothExist, exec_bind, hcert]
  cases (w.files tls.certPath).isSome with
  | false => rfl
  | true => simp only [if_true, hkey, true_and, Bool.decide_eq_true]

theorem ensureSelfSignedPem_exec (h : ((w.files tls.certPath).isSome ∧ (w.files tls.keyPath).isSome) ∨
    tls.autoGenerateSelfSigned = true) :
    (ensureSelfSignedPem L tls).exec (serve pair) w = (ensured tls pair w, .ok ()) := by
  rw [ensureSelfSignedPem, exec_bind, bothExist_exec, ensured]
  by_cases hboth : (w.files tls.certPath).isSome ∧ (w.files tls.keyPath).isSome
  · simp only [if_pos hboth, decide_eq_true hboth]
    rfl
  · simp only [if_neg hboth, decide_eq_false hboth, h.resolve_left hboth, Bool.false_eq_true, if_false, if_true,
      exec_bind, createParent_exec]
    rfl

theorem save_exec {cfg : ServerConfigFile} {path : Path} {yaml : Str} (hyaml : L.toYaml cfg = .ok yaml) :
    (save L cfg path).exec (serve pair) w = (w.put path (Bytes.utf8 yaml), .ok ()) := by
  rw [save, exec_bind, createNonemptyParent_exec]
  simp only [hyaml]
  rfl

theorem readToString_exec {path : Path} {text : Str} (h : w.files path = some (Bytes.utf8 text)) :
    (readToString path).exec (serve pair) w = (w, .ok text) := by
  simp only [readToString, perform, exec, serve, h, Bytes.fromUtf8_utf8, Except.mapError]

theorem writeStub_exec (path : Path) : (writeStub path).exec (serve pair) w = (stubbed path w, .ok ()) := by
  have hfound : (pathExists path).exec (serve pair) w = (w, .ok (w.files path).isSome) := rfl
  rw [writeStub, exec_bind, hfound, stubbed]
  cases (w.files path).isSome with
  | true => rfl
  | false =>
    simp only [Bool.false_eq_true, if_false, exec_bind, createNonemptyParent_exec]
    rfl

/-- The chain and the key of the files' bytes. -/
def configOf (L : Lib) (certFile keyFile : Bytes) : Except CoreError TlsServerConfig :=
  if keptCerts L certFile = [] then .error (.io "no certificates in PEM".toList)
  else match firstKey L keyFile with
    | .error e => .error e
    | .ok key =>
      match L.withSingleCert (keptCerts L certFile) key with
      | .error e => .error (.io e)
      | .ok () => .ok ⟨keptCerts L certFile, key⟩

/-- **A start with both files in place.** -/
theorem rustlsServerConfig_exec {text : Str} {keyFile : Bytes}
    (hcert : w.files tls.certPath = some (Bytes.utf8 text)) (hkey : w.files tls.keyPath = some keyFile) :
    (rustlsServerConfig L tls).exec (serve pair) w =
      match spkiSha256HexFromPem L.toExt text with
      | .error e => (w, .error e)
      | .ok fp => (w.say fp, configOf L (Bytes.utf8 text) keyFile) := by
  have hboth : (w.files tls.certPath).isSome ∧ (w.files tls.keyPath).isSome := by
    rw [hcert, hkey]
    exact ⟨rfl, rfl⟩
  have hread : (readToString tls.certPath).exec (serve pair) w = (w, .ok text) := readToString_exec hcert
  have hopen : ∀ fp, (openFile tls.certPath).exec (serve pair) (w.say fp) = (w.say fp, .ok (Bytes.utf8 text)) := by
    intro fp
    simp only [openFile, perform, exec, serve, World.say_files, hcert, Except.mapError]
  have hopenKey : ∀ fp, (openFile tls.keyPath).exec (serve pair) (w.say fp) = (w.say fp, .ok keyFile) := by
    intro fp
    simp only [openFile, perform, exec, serve, World.say_files, hkey, Except.mapError]
  have hensure : (ensureSelfSignedPem L tls).exec (serve pair) w = (w, .ok ()) :=
    by
    rw [ensureSelfSignedPem_exec (Or.inl hboth), ensured, if_pos hboth]
  have hprint : (printSpkiFingerprint L text).exec (serve pair) w =
      match spkiSha256HexFromPem L.toExt text with
      | .error e => (w, .error e)
      | .ok fp => (w.say fp, .ok ()) := by
    unfold printSpkiFingerprint
    cases spkiSha256HexFromPem L.toExt text <;> rfl
  rw [rustlsServerConfig, exec_bind, hensure]
  simp only
  rw [exec_bind, hread]
  simp only
  rw [exec_bind, hprint]
  cases spkiSha256HexFromPem L.toExt text with
  | error e => rfl
  | ok fp =>
    simp only
    rw [exec_bind, hopen, configOf]
    simp only
    by_cases hcerts : keptCerts L (Bytes.utf8 text) = []
    · rw [if_pos hcerts, if_pos hcerts]
      rfl
    · rw [if_neg hcerts, if_neg hcerts, exec_bind, hopenKey]
      simp only
      rw [exec_bind]
      cases firstKey L keyFile with
      | error e => rfl
      | ok key =>
        simp only [exec, exec_bind]
        cases L.withSingleCert (keptCerts L (Bytes.utf8 text)) key with
        | error e => rfl
        | ok u => rfl

theorem configOf_ok {certFile keyFile : Bytes} {cfg : TlsServerConfig} (h : configOf L certFile keyFile = .ok cfg) :
    cfg.certs = keptCerts L certFile ∧ keptCerts L certFile ≠ [] := by
  unfold configOf at h
  split at h
  · cases h
  · rename_i hne
    split at h
    · cases h
    · split at h
      · cases h
      · cases h
        exact ⟨rfl, hne⟩

/-- **An `init` that is not refused**: the certificate it reads is the one that was there, or the one it generates. -/
theorem cmdInit_exec {configPath : Path} {force : Bool} {yaml text hex : Str}
    (hgo : force = true ∨ w.files configPath = none)
    (hyaml : L.toYaml (initForDir (configDir configPath)) = .ok yaml)
    (hcert : (ensured (initForDir (configDir configPath)).tls pair (w.put configPath (Bytes.utf8 yaml))).files
      (initForDir (configDir configPath)).tls.certPath = some (Bytes.utf8 text))
    (hfp : spkiSha256HexFromPem L.toExt text = .ok hex) : (cmdInit L configPath force).exec (serve pair) w =
      (stubbed (initForDir (configDir configPath)).authorizedKeysPath
        ((ensured (initForDir (configDir configPath)).tls pair (w.put configPath (Bytes.utf8 yaml))).say hex), .ok ()) := by
  have hfound : (perform (.pathExists configPath) .ok : Prog Op Op.Reply InitError Bool).exec (serve pair) w =
      (w, .ok (w.files configPath).isSome) := rfl
  have hnot : ((w.files configPath).isSome && !force) = false := by
    rcases hgo with rfl | h
    · exact Bool.and_false _
    · rw [h]
      rfl
  have hprint : ∀ w', (printSpkiFingerprint L text).exec (serve pair) w' = (w'.say hex, .ok ()) := by
    intro w'
    simp only [printSpkiFingerprint, hfp]
    rfl
  rw [cmdInit, exec_bind, hfound]
  simp only [hnot, Bool.false_eq_true, if_false]
  rw [exec_bind, exec_mapError, save_exec hyaml]
  simp only [Except.mapError]
  rw [exec_bind, exec_mapError, ensureSelfSignedPem_exec (Or.inr rfl)]
  simp only [Except.mapError]
  rw [exec_bind, exec_mapError, readToString_exec hcert]
  simp only [Except.mapError]
  rw [exec_bind, exec_mapError, hprint]
  simp only [Except.mapError]
  rw [exec_mapError, writeStub_exec]
  rfl

theorem stubbed_of_ne {path p : Path} (h : p ≠ path) : (stubbed path w).files p = w.files p := by
  unfold stubbed
  split
  · rfl
  · rw [World.put_files, Function.update_of_ne h]

/-- What is there is there after the last step, and so is the key file it is about. -/
theorem stubbed_isSome {path p : Path} (h : p = path ∨ (w.files p).isSome) : ((stubbed path w).files p).isSome := by
  unfold stubbed
  split
  · rename_i hfound
    rcases h with rfl | h
    · exact hfound
    · exact h
  · exact put_isSome h

theorem ensured_of_ne {p : Path} (hcert : p ≠ tls.certPath) (hkey : p ≠ tls.keyPath) :
    (ensured tls pair w).files p = w.files p := by
  unfold ensured
  split
  · rfl
  · rw [World.put_files, Function.update_of_ne hkey, World.put_files, Function.update_of_ne hcert]

theorem ensured_isSome : ((ensured tls pair w).files tls.certPath).isSome ∧
    ((ensured tls pair w).files tls.keyPath).isSome := by
  unfold ensured
  split
  · rename_i h
    exact h
  · exact ⟨put_isSome (Or.inr (put_isSome (Or.inl rfl))), put_isSome (Or.inl rfl)⟩

/-- Where one of the pair is missing, both are the generated ones. -/
theorem ensured_generated (hne : tls.certPath ≠ tls.keyPath)
    (h : w.files tls.certPath = none ∨ w.files tls.keyPath = none) :
    (ensured tls pair w).files tls.certPath = some (Bytes.utf8 pair.1) ∧
      (ensured tls pair w).files tls.keyPath = some (Bytes.utf8 pair.2) := by
  have hnot : ¬ ((w.files tls.certPath).isSome ∧ (w.files tls.keyPath).isSome) := by
    rintro ⟨hcert, hkey⟩
    rcases h with h | h
    · rw [h] at hcert
      cases hcert
    · rw [h] at hkey
      cases hkey
  rw [ensured, if_neg hnot]
  constructor
  · rw [World.put_files, Function.update_of_ne hne, World.put_files, Function.update_self]
  · rw [World.put_files, Function.update_self]

/-- Without `--force` an existing configuration is the end of it. -/
theorem cmdInit_refused {configPath : Path} (h : (w.files configPath).isSome) :
    (cmdInit L configPath false).exec (serve pair) w = (w, .error (alreadyExists configPath)) := by
  have hfound : (perform (.pathExists configPath) .ok : Prog Op Op.Reply InitError Bool).exec (serve pair) w =
      (w, .ok true) := by
    rw [← h]
    rfl
  rw [cmdInit, exec_bind, hfound]
  rfl

end Exec

end Sao.Setup
