import Sao.Server.KeyMaterial

/-!
# `sao-server init` after a failed `init`

`init` writes the configuration first, and does not go on where there is one. In a directory with none of
its files, it leaves them all, or fails; and then:

* `init_retry` — where the configuration is not there, nothing is, and the same command succeeds. Where it
  is, the same command is refused, and `--force` succeeds.
* `init_refused` — so a failure behind the configuration is not mended by the same command.
-/

namespace Sao.Setup

open Prog

variable {L : Lib}

/-! ## The files of `init` -/

/-- What `init` writes, and where. -/
abbrev layoutFor (configPath : Path) : ServerConfigFile := initForDir (configDir configPath)

/-- No file of the layout is there. -/
structure Absent (configPath : Path) (fs : Files) : Prop where
  config : fs configPath = none
  cert : fs (layoutFor configPath).tls.certPath = none
  key : fs (layoutFor configPath).tls.keyPath = none
  authorizedKeys : fs (layoutFor configPath).authorizedKeysPath = none

/-- All four are there. -/
structure Present (configPath : Path) (fs : Files) : Prop where
  config : (fs configPath).isSome
  cert : (fs (layoutFor configPath).tls.certPath).isSome
  key : (fs (layoutFor configPath).tls.keyPath).isSome
  authorizedKeys : (fs (layoutFor configPath).authorizedKeysPath).isSome

/-- The certificate has a fingerprint to pin. -/
def Parsable (L : Lib) (configPath : Path) (fs : Files) : Prop :=
  ∃ hex, ∃ b, fs (layoutFor configPath).tls.certPath = some b ∧ FingerprintOf L b hex

/-- Certificate and key are a generated pair, to the last byte. -/
def Paired (Generated : Str × Str → Prop) (configPath : Path) (fs : Files) : Prop :=
  ∃ pair, Generated pair ∧ fs (layoutFor configPath).tls.certPath = some (Bytes.utf8 pair.1) ∧
    fs (layoutFor configPath).tls.keyPath = some (Bytes.utf8 pair.2)

section Run

variable {Generated : Str × Str → Prop} {configPath : Path} {fs : Files}

/-! ## The run that fails -/

/-- Pairs are generated ones, and if the key is to be `whole`, no write of it stops halfway. -/
def Allowed (Generated : Str × Str → Prop) (whole : Prop) (configPath : Path) (_ : World) : Event Op.Reply → Prop
  | ⟨.generate, .ok pair⟩ => Generated pair
  | ⟨.write p _, .error (_, some _)⟩ => p = (layoutFor configPath).tls.keyPath → ¬ whole
  | _ => True

/-- Nothing has been written yet, or the configuration has, and there is no key without a generated certificate. -/
def Underway (Generated : Str × Str → Prop) (whole : Prop) (configPath : Path) (fs : Files) (w : World) : Prop :=
  w.files = fs ∨ ((w.files configPath).isSome ∧
    (w.files (layoutFor configPath).tls.keyPath = none ∨
      ∃ pair key, Generated pair ∧
        w.files (layoutFor configPath).tls.certPath = some (Bytes.utf8 pair.1) ∧
        w.files (layoutFor configPath).tls.keyPath = some key ∧ (whole → key = Bytes.utf8 pair.2)))

variable {whole : Prop} {w : World}

/-- The configuration is written. -/
theorem underway_config (hfs : Absent configPath fs) (b : Bytes) :
    Underway Generated whole configPath fs (World.put ⟨fs, []⟩ configPath b) := by
  refine Or.inr ⟨by rw [World.put_files, Function.update_self]; rfl, Or.inl ?_⟩
  rw [World.put_files, Function.update_of_ne (tls_ne_configPath configPath).2]
  exact hfs.key

/-- What is written besides, the pair apart, does not matter. -/
theorem Underway.put (h : Underway Generated whole configPath fs w) (hconfig : (w.files configPath).isSome)
    {p : Path} (hcert : p ≠ (layoutFor configPath).tls.certPath)
    (hkey : p ≠ (layoutFor configPath).tls.keyPath) (hfs : fs configPath = none) (b : Bytes) :
    Underway Generated whole configPath fs (w.put p b) := by
  rcases h with h | ⟨-, h⟩
  · rw [h, hfs] at hconfig
    cases hconfig
  refine Or.inr ⟨put_isSome (Or.inr hconfig), ?_⟩
  · rw [World.put_files, Function.update_of_ne (Ne.symm hkey), Function.update_of_ne (Ne.symm hcert)]
    exact h

/-- The pair is written behind the configuration. -/
theorem underway_generating (hconfig : (w.files configPath).isSome)
    (hkey : w.files (layoutFor configPath).tls.keyPath = none) {w' : World}
    (hw : Generating (Allowed Generated whole configPath) (layoutFor configPath).tls w w') :
    Underway Generated whole configPath fs w' ∧ (w'.files configPath).isSome := by
  obtain ⟨hcertConfig, hkeyConfig⟩ := tls_ne_configPath configPath
  have hne := certPath_ne_keyPath (configDir configPath)
  rcases hw with rfl | ⟨-, -, pair, hpair, ⟨b, rfl⟩ | ⟨key, rfl, hwhole⟩⟩
  · exact ⟨Or.inr ⟨hconfig, Or.inl hkey⟩, hconfig⟩
  · have hconfig' : ((w.put (layoutFor configPath).tls.certPath b).files configPath).isSome := by
      rwa [World.put_files, Function.update_of_ne (Ne.symm hcertConfig)]
    refine ⟨Or.inr ⟨hconfig', Or.inl ?_⟩, hconfig'⟩
    rw [World.put_files, Function.update_of_ne (Ne.symm hne)]
    exact hkey
  · have hconfig' : (((w.put (layoutFor configPath).tls.certPath (Bytes.utf8 pair.1)).put
        (layoutFor configPath).tls.keyPath key).files configPath).isSome := by
      rwa [World.put_files, Function.update_of_ne (Ne.symm hkeyConfig), World.put_files,
        Function.update_of_ne (Ne.symm hcertConfig)]
    refine ⟨Or.inr ⟨hconfig', Or.inr ⟨pair, key, hpair, ?_, Function.update_self .., fun h => ?_⟩⟩, hconfig'⟩
    · rw [World.put_files, Function.update_of_ne hne, World.put_files, Function.update_self]
    · rcases hwhole with hwhole | ⟨e, n, hG⟩
      · exact hwhole
      · exact absurd h (hG rfl)

/-- So it is when a start does it, behind the configuration that was just written. -/
theorem underway_starting (hfs : Absent configPath fs) {b : Bytes} {w' : World}
    (hw : Starting (Allowed Generated whole configPath) L (layoutFor configPath).tls (World.put ⟨fs, []⟩ configPath b) w') :
    Underway Generated whole configPath fs w' ∧ (w'.files configPath).isSome := by
  have hconfig : ((World.put ⟨fs, []⟩ configPath b).files configPath).isSome := by
    rw [World.put_files, Function.update_self]
    rfl
  have hkey : (World.put ⟨fs, []⟩ configPath b).files (layoutFor configPath).tls.keyPath = none := by
    rw [World.put_files, Function.update_of_ne (tls_ne_configPath configPath).2]
    exact hfs.key
  cases hw with
  | generating hw => exact underway_generating hconfig hkey hw
  | announced hw _ _ =>
    obtain ⟨h, hconfig⟩ : Underway Generated whole configPath fs _ ∧ _ := underway_generating hconfig hkey hw
    exact ⟨h, hconfig⟩

/-- **A run of `init`** in a directory with none of its files, up to any point. -/
theorem cmdInit_underway (hfs : Absent configPath fs) : Keeps World.answer (Allowed Generated whole configPath)
    (Underway Generated whole configPath fs) (fun r w' => r = .ok () → Present configPath w'.files)
    (cmdInit L configPath false) ⟨fs, []⟩ := by
  obtain ⟨hcertKeys, hkeyKeys⟩ := tls_ne_authorizedKeysPath (configDir configPath)
  refine (cmdInit_spec L configPath false).mono (fun w' hw => ?_) fun r w' _ hok hr => ?_
  · rcases hw with rfl | ⟨-, hw⟩
    · exact Or.inl rfl
    cases hw with
    | untouched => exact Or.inl rfl
    | saved b => exact underway_config hfs b
    | starting hw => exact (underway_starting hfs hw).1
    | stub hw _ body =>
      obtain ⟨h, hconfig⟩ := underway_starting hfs hw
      exact h.put hconfig (Ne.symm hcertKeys) (Ne.symm hkeyKeys) hfs.config body
  · obtain ⟨b, w₁, hw₁, hcert, hkey, hw', hkeys⟩ := hok hr
    obtain ⟨-, hconfig⟩ := underway_starting hfs hw₁
    rcases hw' with rfl | ⟨body, rfl⟩
    · exact ⟨hconfig, hcert, hkey, hkeys⟩
    · refine ⟨?_, ?_, ?_, hkeys⟩
      · exact put_isSome (Or.inr hconfig)
      · exact put_isSome (Or.inr hcert)
      · exact put_isSome (Or.inr hkey)

/-! ## The next run -/

variable (hgen : ∀ pair, Generated pair → ∃ hex, spkiSha256HexFromPem L.toExt pair.1 = .ok hex) {pair : Str × Str}
include hgen

/-- **`init` with which nothing fails**, unless it is refused: where there is a key, there is its certificate. -/
theorem init_completes (whole : Prop) {yaml : Str} (hyaml : L.toYaml (layoutFor configPath) = .ok yaml) {force : Bool}
    (hgo : force = true ∨ fs configPath = none) (hpair : Generated pair)
    (hkey : fs (layoutFor configPath).tls.keyPath = none ∨ ∃ pair key, Generated pair ∧
      fs (layoutFor configPath).tls.certPath = some (Bytes.utf8 pair.1) ∧
      fs (layoutFor configPath).tls.keyPath = some key ∧ (whole → key = Bytes.utf8 pair.2)) :
    ∃ w', (cmdInit L configPath force).exec (serve pair) ⟨fs, []⟩ = (w', .ok ()) ∧ Present configPath w'.files ∧
      Parsable L configPath w'.files ∧ (whole → Paired Generated configPath w'.files) := by
  obtain ⟨hcertConfig, hkeyConfig⟩ := tls_ne_configPath configPath
  obtain ⟨hcertKeys, hkeyKeys⟩ := tls_ne_authorizedKeysPath (configDir configPath)
  generalize hw₁ : World.put ⟨fs, []⟩ configPath (Bytes.utf8 yaml) = w₁
  have hother : ∀ p, p ≠ configPath → w₁.files p = fs p := fun p hp => by
    rw [← hw₁, World.put_files, Function.update_of_ne hp]
  have hconfig₁ : (w₁.files configPath).isSome := by
    rw [← hw₁, World.put_files, Function.update_self]
    rfl
  -- A pair that was there stays, and otherwise one is generated.
  obtain ⟨pair', key, hpair', hcert₂, hkey₂, hwhole⟩ : ∃ pair' key, Generated pair' ∧
      (ensured (layoutFor configPath).tls pair w₁).files (layoutFor configPath).tls.certPath =
        some (Bytes.utf8 pair'.1) ∧
      (ensured (layoutFor configPath).tls pair w₁).files (layoutFor configPath).tls.keyPath = some key ∧
      (whole → key = Bytes.utf8 pair'.2) := by
    rcases hkey with hnone | ⟨pair', key, hpair', hcert, hkey, hwhole⟩
    · obtain ⟨hcert, hkey⟩ : (ensured (layoutFor configPath).tls pair w₁).files (layoutFor configPath).tls.certPath =
          some (Bytes.utf8 pair.1) ∧ _ :=
        ensured_generated (certPath_ne_keyPath _) (Or.inr ((hother _ hkeyConfig).trans hnone))
      exact ⟨pair, _, hpair, hcert, hkey, fun _ => rfl⟩
    · rw [← hother _ hcertConfig] at hcert
      rw [← hother _ hkeyConfig] at hkey
      have hensured : ensured (layoutFor configPath).tls pair w₁ = w₁ :=
        if_pos ⟨by rw [hcert]; rfl, by rw [hkey]; rfl⟩
      exact ⟨pair', key, hpair', by rw [hensured, hcert], by rw [hensured, hkey], hwhole⟩
  obtain ⟨hex, hhex⟩ := hgen pair' hpair'
  have hconfig₂ : ((ensured (layoutFor configPath).tls pair w₁).files configPath).isSome := by
    rw [ensured_of_ne (Ne.symm hcertConfig) (Ne.symm hkeyConfig)]
    exact hconfig₁
  subst hw₁
  refine ⟨_, cmdInit_exec hgo hyaml hcert₂ hhex, ⟨?_, ?_, ?_, stubbed_isSome (Or.inl rfl)⟩,
    ⟨hex, _, ?_, pair'.1, rfl, hhex⟩, fun h => ⟨pair', hpair', ?_, ?_⟩⟩
  · exact stubbed_isSome (Or.inr hconfig₂)
  · exact stubbed_isSome (Or.inr ensured_isSome.1)
  · exact stubbed_isSome (Or.inr ensured_isSome.2)
  · exact (stubbed_of_ne hcertKeys).trans hcert₂
  · exact (stubbed_of_ne hcertKeys).trans hcert₂
  · exact (stubbed_of_ne hkeyKeys).trans (hkey₂.trans (congrArg some (hwhole h)))

/-- **After `init` in a directory with none of its files.** Where it has failed before the configuration, the
directory is as it was, and the same command completes it. Where it has failed behind it, the same command is
refused, and `--force` completes the directory; the certificate and the key are a generated pair, unless it
was the write of the key that stopped halfway. -/
theorem init_retry {yaml : Str} (hyaml : L.toYaml (layoutFor configPath) = .ok yaml) (hfs : Absent configPath fs)
    {tr : Trace} {r : Except InitError Unit} {w' : World}
    (hfinished : (cmdInit L configPath false).after tr = some (.ret r))
    (hrun : Lts.run (fun w e => World.answer e w) ⟨fs, []⟩ tr = some w')
    (hpairs : ∀ pair, ⟨.generate, .ok pair⟩ ∈ tr → Generated pair) (hpair : Generated pair) :
    (r = .ok () ∧ Present configPath w'.files) ∨
    ((∃ e, r = .error e) ∧ w'.files = fs ∧
      ∃ w'', (cmdInit L configPath false).exec (serve pair) ⟨w'.files, []⟩ = (w'', .ok ()) ∧
        Present configPath w''.files ∧ Parsable L configPath w''.files ∧ Paired Generated configPath w''.files) ∨
    ((∃ e, r = .error e) ∧ (w'.files configPath).isSome ∧
      (cmdInit L configPath false).exec (serve pair) ⟨w'.files, []⟩ =
        (⟨w'.files, []⟩, .error (alreadyExists configPath)) ∧
      ∃ w'', (cmdInit L configPath true).exec (serve pair) ⟨w'.files, []⟩ = (w'', .ok ()) ∧
        Present configPath w''.files ∧ Parsable L configPath w''.files ∧
        ((∀ body e n, ⟨.write (layoutFor configPath).tls.keyPath body, .error (e, some n)⟩ ∉ tr) →
          Paired Generated configPath w''.files)) := by
  have hallowed : Lts.Meets (fun w e => World.answer e w) (Allowed Generated
      (∀ body e n, ⟨.write (layoutFor configPath).tls.keyPath body, .error (e, some n)⟩ ∉ tr) configPath) ⟨fs, []⟩ tr := by
    refine Lts.meets_of_forall fun e he w => ?_
    obtain ⟨op, r⟩ := e
    match op, r, he with
    | .generate, .ok pair, he => exact hpairs pair he
    | .write p body, .error (e, some n), he =>
      rintro rfl hwhole
      exact hwhole body e n he
    | .generate, .error e, _ => trivial
    | .write p body, .error (e, none), _ => trivial
    | .write p body, .ok u, _ => trivial
    | .pathExists p, r, _ => trivial
    | .createDirAll p, r, _ => trivial
    | .readToString p, r, _ => trivial
    | .open p, r, _ => trivial
    | .announce fp, r, _ => trivial
  obtain ⟨hunderway, hpresent⟩ := keeps_after (cmdInit_underway hfs) hallowed hfinished hrun
  cases r with
  | ok u => exact Or.inl ⟨rfl, hpresent rfl⟩
  | error e =>
    rcases hunderway with hsame | ⟨hconfig, hkey⟩
    · refine Or.inr (Or.inl ⟨⟨e, rfl⟩, hsame, ?_⟩)
      rw [hsame]
      obtain ⟨w'', hexec, hpresent, hparsable, hpaired⟩ :=
        init_completes hgen True hyaml (Or.inr hfs.config) hpair (Or.inl hfs.key)
      exact ⟨w'', hexec, hpresent, hparsable, hpaired trivial⟩
    · exact Or.inr (Or.inr ⟨⟨e, rfl⟩, hconfig, cmdInit_refused hconfig,
        init_completes hgen _ hyaml (Or.inl rfl) hpair hkey⟩)

end Run

/-! ## A failure behind the configuration -/

section Failure

variable {path dir : Path}

theorem save_after {cfg : ServerConfigFile} {yaml : Str} (hparent : path.parent = some dir) (hne : dir.isEmpty = false)
    (hyaml : L.toYaml cfg = .ok yaml) : (save L cfg path).after
      ([⟨.createDirAll dir, .ok ()⟩] ++ [⟨.write path (Bytes.utf8 yaml), .ok ()⟩]) = some (.ret (.ok ())) := by
  have hdir : (createNonemptyParent path).after [⟨.createDirAll dir, .ok ()⟩] = some (.ret (.ok ())) := by
    simp only [createNonemptyParent, hparent, hne, Bool.false_eq_true, if_false]
    exact after_perform _ _ _
  rw [save, after_bind hdir, hyaml]
  exact after_perform _ _ _

theorem ensureSelfSignedPem_after {tls : TlsConfig} (hparent : tls.certPath.parent = some dir)
    (hauto : tls.autoGenerateSelfSigned = true) (e : Str) : (ensureSelfSignedPem L tls).after
      ([⟨.pathExists tls.certPath, false⟩] ++ [⟨.createDirAll dir, .error e⟩]) = some (.ret (.error (.io e))) := by
  have hfound : (bothExist tls).after [⟨.pathExists tls.certPath, false⟩] = some (.ret (.ok false)) := by
    have h : (bothExist tls).after ([⟨.pathExists tls.certPath, false⟩] ++ []) = some (.ret (.ok false)) :=
      after_bind (after_perform _ _ _)
    exact h
  have hdir : (createParent tls.certPath).after [⟨.createDirAll dir, .error e⟩] = some (.ret (.error (.io e))) := by
    simp only [createParent, hparent]
    exact after_perform _ _ _
  rw [ensureSelfSignedPem, after_bind hfound, if_neg (by simp), if_pos hauto]
  exact after_bind_error hdir

/-- `init` up to where the directory of the certificate cannot be made. -/
def failing (configPath dir certDir : Path) (yaml e : Str) : Trace :=
  [⟨.pathExists configPath, false⟩] ++ (([⟨.createDirAll dir, .ok ()⟩] ++
      [⟨.write configPath (Bytes.utf8 yaml), .ok ()⟩]) ++
    ([⟨.pathExists (layoutFor configPath).tls.certPath, false⟩] ++ [⟨.createDirAll certDir, .error e⟩]))

theorem cmdInit_failing {configPath certDir : Path} {yaml : Str} (hparent : configPath.parent = some dir)
    (hne : dir.isEmpty = false) (hcert : (layoutFor configPath).tls.certPath.parent = some certDir)
    (hyaml : L.toYaml (layoutFor configPath) = .ok yaml) (e : Str) :
    (cmdInit L configPath false).after (failing configPath dir certDir yaml e) =
      some (.ret (.error (.core (.io e)))) := by
  rw [cmdInit, failing, after_bind (after_perform _ _ _), if_neg (by simp)]
  refine (after_bind (after_mapError (save_after hparent hne hyaml))).trans ?_
  exact after_bind_error (after_mapError (ensureSelfSignedPem_after hcert rfl e))

theorem run_failing (fs : Files) (configPath dir certDir : Path) (yaml e : Str) :
    Lts.run (fun w e => World.answer e w) ⟨fs, []⟩ (failing configPath dir certDir yaml e) =
      some (World.put ⟨fs, []⟩ configPath (Bytes.utf8 yaml)) := rfl

end Failure

namespace Local

def certDir : Path := (configDir config).join "tls".toList

def noSpace : Str := "No space left on device (os error 28)".toList

theorem init_failing : (cmdInit lib config false).after (failing config (configDir config) certDir localYaml noSpace) =
    some (.ret (.error (.core (.io noSpace)))) :=
  cmdInit_failing (by decide) (by decide) (by decide) rfl noSpace

/-- What is there after that. -/
def begun : Files := (World.put ⟨fun _ => none, []⟩ config (Bytes.utf8 localYaml)).files

theorem begun_config : (begun config).isSome := by
  rw [begun, World.put_files, Function.update_self]
  rfl

end Local

theorem init_retry_local : ∃ w, (cmdInit Local.lib Local.config true).exec (serve Local.pair) ⟨Local.begun, []⟩ =
    (w, .ok ()) ∧ Present Local.config w.files ∧ Paired (· = Local.pair) Local.config w.files := by
  have hgen : ∀ pair, pair = Local.pair → ∃ hex, spkiSha256HexFromPem Local.lib.toExt pair.1 = .ok hex := by
    rintro pair rfl
    exact ⟨_, Local.fingerprint_pair⟩
  have hpairs : ∀ pair, ⟨.generate, .ok pair⟩ ∈
      failing Local.config (configDir Local.config) Local.certDir localYaml Local.noSpace → pair = Local.pair := by
    intro pair h
    simp [failing] at h
  rcases init_retry hgen rfl ⟨rfl, rfl, rfl, rfl⟩ Local.init_failing (run_failing (fun _ => none) _ _ _ _ _)
    hpairs rfl with ⟨hok, -⟩ | ⟨-, hsame, -⟩ | ⟨-, -, -, w, hexec, hpresent, -, hpaired⟩
  · cases hok
  · have hconfig := Local.begun_config
    rw [Local.begun, hsame] at hconfig
    cases hconfig
  · exact ⟨w, hexec, hpresent, hpaired fun body e n h => by simp [failing] at h⟩

/-- Where the configuration was written and the directory of the certificate cannot be made, the same command
does not complete what it has begun. -/
theorem init_refused : ¬ ∀ (fs : Files) (tr : Trace) (r : Except InitError Unit) (w' : World),
    Absent Local.config fs → (cmdInit Local.lib Local.config false).after tr = some (.ret r) →
    Lts.run (fun w e => World.answer e w) ⟨fs, []⟩ tr = some w' →
    (r = .ok () ∧ Present Local.config w'.files) ∨
      ((∃ e, r = .error e) ∧ ∃ w'', (cmdInit Local.lib Local.config false).exec (serve Local.pair) ⟨w'.files, []⟩ =
        (w'', .ok ()) ∧ Present Local.config w''.files) := by
  intro h
  rcases h _ _ _ _ ⟨rfl, rfl, rfl, rfl⟩ Local.init_failing (run_failing (fun _ => none) _ _ _ _ _) with
    ⟨hok, -⟩ | ⟨-, w'', hexec, -⟩
  · cases hok
  · have hrefused : (cmdInit Local.lib Local.config false).exec (serve Local.pair) ⟨Local.begun, []⟩ = _ :=
      cmdInit_refused Local.begun_config
    cases congrArg Prod.snd (hrefused.symm.trans hexec)

end Sao.Setup
