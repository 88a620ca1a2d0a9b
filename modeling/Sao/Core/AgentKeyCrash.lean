import Sao.Core.FirstUse

/-!
# Calls that are cut off, and the key they leave

`load_or_create_signing_key`, one call after the other on the same path. Each operation may fail, and a call may
be stopped behind any of them. `fs::write` truncates the file before it writes: where it fails or is stopped, the
file is as it was or holds the first bytes of the new text. The existence test is assumed not to miss a private
file that is there (`Careful`); one that does lets the call draw a second key.

* `keyOfLines_cut` — of a cut private file, the last line break may be missing and no more.
* `publish_keeps`, `found_keeps`, `absent_keeps` — what a call does to the files, operation by operation.
* `run_found` — a private file that is there stays as it is.
* `one_identity` — all calls that return a key return the same one, which the private file holds from then on.
* `cut_is_final` — whether calls can succeed at all is settled when the file comes into being.
-/

namespace Sao.AgentKey

open Text Prog Bytes

/-! ## The files as bytes -/

/-- The bytes of the two files, where they exist. -/
structure Disk where
  privateKey : Option Bytes
  publicKey : Option Bytes
deriving DecidableEq

/-- What becomes of a file when a write of `body` fails or is stopped. -/
def torn (cut : Option Nat) (file : Option Bytes) (body : Str) : Option Bytes :=
  match cut with
  | none => file
  | some n => some ((utf8 body).take n)

/-- What an operation does when it is answered so, if the files allow the answer. `exists` is `false` also where
it fails. -/
def Disk.answer (cut : Option Nat) : Event Op.Reply → Disk → Option Disk
  | ⟨.pathExists, found⟩, d => if found = true ∧ d.privateKey = none then none else some d
  | ⟨.readToString, .ok s⟩, d => if d.privateKey = some (utf8 s) then some d else none
  | ⟨.readToString, .error _⟩, d => some d
  | ⟨.createDirAll, _⟩, d => some d
  | ⟨.draw, _⟩, d => some d
  | ⟨.write body, .ok ()⟩, d => some { d with privateKey := some (utf8 body) }
  | ⟨.write body, .error _⟩, d => some { d with privateKey := torn cut d.privateKey body }
  | ⟨.writePub body, .ok ()⟩, d => some { d with publicKey := some (utf8 body) }
  | ⟨.writePub body, .error _⟩, d => some { d with publicKey := torn cut d.publicKey body }

/-- One call, as far as it gets. -/
structure Attempt where
  trace : List (Event Op.Reply)
  /-- What the write that fails leaves. A call performs nothing behind it. -/
  cut : Option Nat

variable (X : Ext)

/-- What the call has returned, if it was not stopped before. -/
def Attempt.result (a : Attempt) : Option (Except CoreError (ByteArr 32)) :=
  match (loadOrCreateSigningKey X).after a.trace with
  | some (.ret r) => some r
  | _ => none

/-- One call on the files. -/
def step (d : Disk) (a : Attempt) : Option Disk :=
  if ((loadOrCreateSigningKey X).after a.trace).isSome then
    Lts.run (fun d e => Disk.answer a.cut e d) d a.trace
  else none

def found? : Event Op.Reply → Option Bool
  | ⟨.pathExists, found⟩ => some found
  | _ => none

/-- The existence test does not miss the private file. -/
def Careful (d : Disk) (a : Attempt) : Prop := ∀ e ∈ a.trace, found? e = some false → d.privateKey = none

/-- The operation has not failed. -/
def Succeeds : Event Op.Reply → Prop
  | ⟨.readToString, .error _⟩ => False
  | ⟨.createDirAll, .error _⟩ => False
  | ⟨.write _, .error _⟩ => False
  | ⟨.writePub _, .error _⟩ => False
  | _ => True

/-- The key that a call reads in a private file with these bytes. -/
def keyOfFile (b : Bytes) : Option (ByteArr 32) := (fromUtf8 b).bind fun s => (keyOfLines X (lines s)).toOption

/-- Padding is required: `STANDARD` decodes no text of another length than the encoding has. -/
def Padded : Prop := ∀ t b, X.base64Decode t = .ok b → t.length = (Base64.encode b).length

variable {X}

/-! ## A private file that is cut off -/

theorem length_trim_le (s : Str) : (trim s).length ≤ s.length := (trimMatches_sublist _ s).length_le

theorem length_encode_key (key : ByteArr 32) : (Base64.encode key.1).length = 44 := by
  rw [Base64.length_encode, key.2]

theorem length_privateBody (key : ByteArr 32) : (privateBody key).length = 68 := by
  simp only [privateBody, List.length_append, List.length_cons, List.length_nil, length_encode_key]
  rfl

/-- Lines that are too short for a key hold none. -/
theorem keyOfLines_short (hpad : Padded X) {ls : List Str} (h : ∀ l ∈ ls, l.length < 44) :
    ∃ e, keyOfLines X ls = .error e := by
  induction ls with
  | nil => exact ⟨_, rfl⟩
  | cons l ls ih =>
    obtain ⟨hl, hls⟩ := List.forall_mem_cons.1 h
    rw [keyOfLines]
    split
    · exact ih hls
    · cases hdec : X.base64Decode (trim l) with
      | error e => exact ⟨_, rfl⟩
      | ok raw =>
        have hlen : raw.length ≠ 32 := by
          intro h32
          have h44 := hpad _ _ hdec
          rw [Base64.length_encode, h32] at h44
          have := length_trim_le l
          omega
        simp only [dif_neg hlen]
        exact ⟨_, rfl⟩

theorem isAscii_privateBody (key : ByteArr 32) : IsAscii (privateBody key) := by
  have halpha : Base64.alphabet.all (fun c => c.toNat < 128) = true := by decide +kernel
  have hhead : FILE_HEADER.all (fun c => c.toNat < 128) = true := by decide
  intro c hc
  simp only [privateBody, List.mem_append, List.mem_cons, List.not_mem_nil, or_false] at hc
  rcases hc with hc | rfl | hc | rfl
  · simpa using List.all_eq_true.1 hhead c hc
  · decide
  · rcases Base64.mem_encode hc with hc | rfl
    · simpa using List.all_eq_true.1 halpha c hc
    · decide
  · decide

/-- **The first characters of a private file** hold the key if at most the line break is missing. -/
theorem keyOfLines_cut (hX : X.Lawful) (hpad : Padded X) (key : ByteArr 32) (n : Nat) :
    if 67 ≤ n then keyOfLines X (lines ((privateBody key).take n)) = .ok key
    else ∃ e, keyOfLines X (lines ((privateBody key).take n)) = .error e := by
  have hhead : FILE_HEADER.length = 22 := rfl
  have hcut : ∀ m, (privateBody key).take (23 + m) = FILE_HEADER ++ '\n' :: (Base64.encode key.1 ++ ['\n']).take m := by
    intro m
    rw [privateBody, List.take_append, List.take_of_length_le (by omega), hhead,
      show 23 + m - 22 = m + 1 by omega, List.take_succ_cons]
  have hlines : ∀ t, lines (FILE_HEADER ++ '\n' :: t) = FILE_HEADER :: lines t := fun t =>
    lines_cons (by decide) (by decide) t
  split
  · rename_i hn
    by_cases hall : 68 ≤ n
    · rw [List.take_of_length_le (by rw [length_privateBody]; exact hall)]
      exact keyOfLines_privateBody hX key
    · -- the line of the key is the last one, and is not ended
      have hn : n = 23 + 44 := by omega
      have hbody := keyOfLines_privateBody hX key
      have hnl : '\n' ∉ Base64.encode key.1 := fun h => absurd (base64_noWhitespace _ _ h) (by decide)
      rw [lines_privateBody] at hbody
      rw [hn, hcut, hlines, List.take_left' (length_encode_key key), lines_single (encode_ne_nil key) hnl]
      exact hbody
  · rename_i hn
    apply keyOfLines_short hpad
    intro l hl
    by_cases hsmall : n < 23
    · have hlen := (infix_of_mem_lines hl).length_le
      rw [List.length_take] at hlen
      omega
    · obtain ⟨m, rfl⟩ := Nat.exists_eq_add_of_le (Nat.le_of_not_lt hsmall)
      rw [hcut, hlines, List.mem_cons] at hl
      rcases hl with rfl | hl
      · rw [hhead]
        omega
      · have hlen := (infix_of_mem_lines hl).length_le
        rw [List.length_take] at hlen
        omega

theorem keyOfFile_utf8 (s : Str) : keyOfFile X (utf8 s) = (keyOfLines X (lines s)).toOption := by
  rw [keyOfFile, fromUtf8_utf8, Option.bind_some]

theorem keyOfFile_cut (hX : X.Lawful) (hpad : Padded X) (key : ByteArr 32) (n : Nat) :
    keyOfFile X ((utf8 (privateBody key)).take n) = if 67 ≤ n then some key else none := by
  have h := keyOfLines_cut hX hpad key n
  rw [take_utf8_ascii (isAscii_privateBody key), keyOfFile_utf8]
  split
  · rename_i hn
    rw [if_pos hn] at h
    rw [h]
    rfl
  · rename_i hn
    rw [if_neg hn] at h
    obtain ⟨e, he⟩ := h
    rw [he]
    rfl

/-! ## One call -/

theorem answer_read_utf8 {cut : Option Nat} {s : Str} {d d' : Disk}
    (h : Disk.answer cut ⟨.readToString, .ok s⟩ d = some d') : d.privateKey = some (utf8 s) ∧ d' = d := by
  simp only [Disk.answer] at h
  split at h
  · cases h
    exact ⟨‹_›, rfl⟩
  · cases h

section Operations

variable {cut : Option Nat} (calm : Prop) {d : Disk}

/-- What both ways of coming by a key end in: only the `.pub` file is written. -/
theorem publish_keeps {p : Option Bytes} (hd : d.privateKey = p) (key : ByteArr 32) :
    Keeps (Disk.answer cut) (fun _ e => calm → Succeeds e) (fun d' => d'.privateKey = p)
      (fun r d' => (calm → r = .ok key) ∧
        ∀ key', r = .ok key' → key' = key ∧ d'.publicKey = some (utf8 (publicBody (X.verifyingKey key))))
      (do writeAgentPublicKeyFile X key; pure key) d := by
  refine writePub_keeps hd (fun r d' hcalm hd' => ?_) fun r d' hcalm hd' => ?_
  · cases hd'
    refine ⟨rfl, ?_⟩
    rintro e rfl
    exact ⟨fun h => (hcalm h).elim, nofun⟩
  · cases r with
    | error e =>
      cases hd'
      exact ⟨hd, fun h => (hcalm h).elim, nofun⟩
    | ok u =>
      cases hd'
      refine ⟨hd, fun _ => rfl, fun key' hkey => ?_⟩
      cases hkey
      exact ⟨rfl, rfl⟩

/-- **A private file that is there** is read, and stays as it is. -/
theorem found_keeps {b : Bytes} (hd : d.privateKey = some b) :
    Keeps (Disk.answer cut) (fun _ e => found? e ≠ some false ∧ (calm → Succeeds e)) (fun d' => d'.privateKey = some b)
      (fun r d' => (calm → ∃ s, b = utf8 s ∧ r = keyOfLines X (lines s)) ∧ ∀ key, r = .ok key →
        keyOfFile X b = some key ∧ d'.publicKey = some (utf8 (publicBody (X.verifyingKey key))))
      (loadOrCreateSigningKey X) d := by
  refine keeps_bind (keeps_perform hd fun found d' hfound hd' => ?_)
  cases found with
  | false => exact absurd rfl hfound.1
  | true =>
    simp only [Disk.answer, hd, reduceCtorEq, and_false, if_false, Option.some.injEq] at hd'
    subst hd'
    refine ⟨hd, keeps_bind (keeps_perform hd fun r d' hcalm hd' => ?_)⟩
    cases r with
    | error e =>
      cases hd'
      exact ⟨hd, fun h => (hcalm.2 h).elim, nofun⟩
    | ok s =>
      obtain ⟨hs, rfl⟩ := answer_read_utf8 hd'
      rw [hd, Option.some.injEq] at hs
      refine ⟨hd, keeps_bind (keeps_ret hd ?_)⟩
      cases hkey : keyOfLines X (lines s) with
      | error e => exact ⟨fun _ => ⟨s, hs, hkey.symm⟩, nofun⟩
      | ok key =>
        refine ((publish_keeps calm hd key).mono_guard fun _ _ h => h.2).mono (fun _ h => h) fun r d' _ hr => ?_
        refine ⟨fun h => ⟨s, hs, (hr.1 h).trans hkey.symm⟩, fun key' hkey' => ?_⟩
        obtain ⟨rfl, hpub⟩ := hr.2 key' hkey'
        exact ⟨by rw [hs, keyOfFile_utf8, hkey]; rfl, hpub⟩

/-- **Where there is none**, one is drawn, and its text is written, or a beginning of it. -/
theorem absent_keeps (hd : d.privateKey = none) : Keeps (Disk.answer cut) (fun _ e => calm → Succeeds e)
      (fun d' => d'.privateKey = none ∨ ∃ key n, d'.privateKey = some ((utf8 (privateBody key)).take n))
      (fun r d' => ∀ key, r = .ok key → d'.privateKey = some (utf8 (privateBody key)) ∧
        d'.publicKey = some (utf8 (publicBody (X.verifyingKey key))))
      (loadOrCreateSigningKey X) d := by
  refine keeps_bind (keeps_perform (Or.inl hd) fun found d' _ hd' => ?_)
  cases found with
  | true => simp [Disk.answer, hd] at hd'
  | false =>
    cases hd'
    refine ⟨Or.inl hd, keeps_bind (keeps_perform (Or.inl hd) fun r d' _ hd' => ?_)⟩
    cases hd'
    refine ⟨Or.inl hd, ?_⟩
    cases r with
    | error e => exact nofun
    | ok u =>
      refine keeps_bind (keeps_perform (Or.inl hd) fun key d' _ hd' => ?_)
      cases hd'
      refine ⟨Or.inl hd, keeps_bind (keeps_perform (Or.inl hd) fun r d' _ hd' => ?_)⟩
      cases r with
      | error e =>
        cases hd'
        refine ⟨?_, nofun⟩
        cases cut with
        | none => exact Or.inl hd
        | some n => exact Or.inr ⟨key, n, rfl⟩
      | ok u' =>
        cases hd'
        have hwhole : ∀ d' : Disk, d'.privateKey = some (utf8 (privateBody key)) → d'.privateKey = none ∨
            ∃ key n, d'.privateKey = some ((utf8 (privateBody key)).take n) := fun d' h =>
          Or.inr ⟨key, (utf8 (privateBody key)).length, by rw [h, List.take_length]⟩
        refine ⟨hwhole _ rfl, keeps_bind (keeps_ret (hwhole _ rfl) ?_)⟩
        refine (publish_keeps calm rfl key).mono hwhole fun r d' hpriv hr key' hkey' => ?_
        obtain ⟨rfl, hpub⟩ := hr.2 key' hkey'
        exact ⟨hpriv, hpub⟩

end Operations

/-- What is proved of the operations holds of a call, however far it gets. -/
theorem step_keeps {G : Disk → Event Op.Reply → Prop} {J : Disk → Prop}
    {Q : Except CoreError (ByteArr 32) → Disk → Prop} {a : Attempt} {d d' : Disk}
    (h : Keeps (Disk.answer a.cut) G J Q (loadOrCreateSigningKey X) d) (hG : ∀ e ∈ a.trace, ∀ d, G d e)
    (hstep : step X d a = some d') : J d' ∧ ∀ r, a.result X = some r → Q r d' := by
  unfold step at hstep
  split at hstep
  · rename_i hperforms
    obtain ⟨q, hq⟩ := Option.isSome_iff_exists.1 hperforms
    have hkeeps := keeps_after h (Lts.meets_of_forall hG) hq hstep
    refine ⟨hkeeps.inv, fun r hr => ?_⟩
    unfold Attempt.result at hr
    rw [hq] at hr
    cases q with
    | ret r' =>
      cases hr
      exact hkeeps.2
    | call op k => cases hr
  · cases hstep

variable {a : Attempt} {as : List Attempt} {d d' : Disk}

/-- **A careful call on a private file that is there.** -/
theorem step_found {b : Bytes} (hd : d.privateKey = some b) (hcareful : Careful d a) (hstep : step X d a = some d') :
    d'.privateKey = some b ∧ ∀ r, a.result X = some r →
      ((∀ e ∈ a.trace, Succeeds e) → ∃ s, b = utf8 s ∧ r = keyOfLines X (lines s)) ∧
        ∀ key, r = .ok key → keyOfFile X b = some key := by
  obtain ⟨hkept, hres⟩ := step_keeps (found_keeps (∀ e ∈ a.trace, Succeeds e) hd)
    (fun e he _ => ⟨fun hf => absurd (hcareful e he hf) (by simp [hd]), fun h => h e he⟩) hstep
  exact ⟨hkept, fun r hr => ⟨(hres r hr).1, fun key hkey => ((hres r hr).2 key hkey).1⟩⟩

/-- **So does every later call find it.** -/
theorem run_found {b : Bytes} (hd : d.privateKey = some b) (hcareful : Lts.Meets (step X) Careful d as)
    (hrun : Lts.run (step X) d as = some d') : d'.privateKey = some b ∧ ∀ a ∈ as, ∀ r, a.result X = some r →
      ((∀ e ∈ a.trace, Succeeds e) → ∃ s, b = utf8 s ∧ r = keyOfLines X (lines s)) ∧
        ∀ key, r = .ok key → keyOfFile X b = some key := by
  induction as generalizing d with
  | nil =>
    rw [Lts.run_nil, Option.some.injEq] at hrun
    exact ⟨hrun ▸ hd, nofun⟩
  | cons a as ih =>
    obtain ⟨m, hm, hrun⟩ := Lts.run_cons.1 hrun
    obtain ⟨hkept, hres⟩ := step_found hd hcareful.1 hm
    obtain ⟨hkept', hall⟩ := ih hkept (hcareful.2 m hm) hrun
    exact ⟨hkept', List.forall_mem_cons.2 ⟨hres, hall⟩⟩

/-- **The file comes into being once**: while calls go on, there is none, or it is what it is in the end. -/
theorem file_settles {bs : List Attempt} {m : Disk} (hcareful : Lts.Meets (step X) Careful d as)
    (hrun : Lts.run (step X) d as = some d') (hbs : bs <+: as) (hm : Lts.run (step X) d bs = some m) :
    m.privateKey = none ∨ m.privateKey = d'.privateKey := by
  obtain ⟨cs, rfl⟩ := hbs
  obtain ⟨m', hm', hrest⟩ := Lts.run_append.1 hrun
  rw [hm, Option.some.injEq] at hm'
  subst hm'
  cases hpriv : m.privateKey with
  | none => exact Or.inl rfl
  | some b => exact Or.inr (run_found hpriv (hcareful.suffix hm) hrest).1.symm

/-- No call has returned a key, or all that do return the same one, which the file holds. -/
theorem one_key (hX : X.Lawful) (hpad : Padded X) {pub : Option Bytes}
    (hcareful : Lts.Meets (step X) Careful ⟨none, pub⟩ as) (hrun : Lts.run (step X) ⟨none, pub⟩ as = some d) :
    d.privateKey = none ∧ (∀ a ∈ as, ∀ key, a.result X ≠ some (.ok key)) ∨
    ∃ key n, d.privateKey = some ((utf8 (privateBody key)).take n) ∧ ∀ a ∈ as, ∀ key',
      a.result X = some (.ok key') → key' = key ∧ keyOfFile X ((utf8 (privateBody key)).take n) = some key := by
  -- the calls up to the one that brings the file into being return no key
  induction as generalizing pub with
  | nil =>
    rw [Lts.run_nil, Option.some.injEq] at hrun
    exact Or.inl ⟨hrun ▸ rfl, nofun⟩
  | cons a as ih =>
    obtain ⟨m, hm, hrun⟩ := Lts.run_cons.1 hrun
    obtain ⟨hfile, hres⟩ := step_keeps (absent_keeps False rfl) (fun _ _ _ => False.elim) hm
    have hwhole : ∀ key, a.result X = some (.ok key) → m.privateKey = some (utf8 (privateBody key)) := fun key hkey =>
      (hres _ hkey key rfl).1
    cases hpriv : m.privateKey with
    | none =>
      have hnone : ∀ key, a.result X ≠ some (.ok key) := by
        intro key hkey
        have := hwhole key hkey
        rw [hpriv] at this
        cases this
      obtain ⟨p, q⟩ := m
      cases hpriv
      rcases ih (hcareful.2 _ hm) hrun with ⟨hd, hall⟩ | ⟨key, n, hd, hall⟩
      · exact Or.inl ⟨hd, List.forall_mem_cons.2 ⟨hnone, hall⟩⟩
      · exact Or.inr ⟨key, n, hd, List.forall_mem_cons.2 ⟨fun key' hkey' => absurd hkey' (hnone key'), hall⟩⟩
    | some b =>
      obtain ⟨hkept, hall⟩ := run_found hpriv (hcareful.2 m hm) hrun
      rw [hpriv] at hfile hwhole
      rcases hfile with hnone | ⟨key, n, hbody⟩
      · cases hnone
      · rw [Option.some.injEq] at hbody
        subst hbody
        have hcut := keyOfFile_cut hX hpad key n
        have hsame : ∀ key', keyOfFile X ((utf8 (privateBody key)).take n) = some key' →
            key' = key ∧ keyOfFile X ((utf8 (privateBody key)).take n) = some key := by
          intro key' hkey'
          rw [hcut] at hkey' ⊢
          split at hkey'
          · rename_i hn
            rw [if_pos hn]
            exact ⟨(Option.some.inj hkey').symm, rfl⟩
          · cases hkey'
        refine Or.inr ⟨key, n, hkept, List.forall_mem_cons.2 ⟨fun key' hkey' => ?_, fun a ha key' hkey' => ?_⟩⟩
        · refine hsame key' ?_
          rw [Option.some.inj (hwhole key' hkey'), keyOfFile_utf8, keyOfLines_privateBody hX]
          rfl
        · exact hsame key' ((hall a ha _ hkey').2 key' rfl)

/-- **One identity, whatever fails.** Calls one after the other, from no private file. As long as there is none, no
call has returned a key. The file that comes into being is the text of one key or a beginning of it, and stays as it
is; and whoever returns a key returns that one, which the file holds. -/
theorem one_identity (hX : X.Lawful) (hpad : Padded X) {pub : Option Bytes}
    (hcareful : Lts.Meets (step X) Careful ⟨none, pub⟩ as) (hrun : Lts.run (step X) ⟨none, pub⟩ as = some d) :
    (∀ bs m, bs <+: as → Lts.run (step X) ⟨none, pub⟩ bs = some m →
      m.privateKey = none ∨ m.privateKey = d.privateKey) ∧
    (d.privateKey = none ∧ (∀ a ∈ as, ∀ key, a.result X ≠ some (.ok key)) ∨
      ∃ key n, d.privateKey = some ((utf8 (privateBody key)).take n) ∧ ∀ a ∈ as, ∀ key',
        a.result X = some (.ok key') → key' = key ∧ keyOfFile X ((utf8 (privateBody key)).take n) = some key) :=
  ⟨fun _ _ hbs hm => file_settles hcareful hrun hbs hm, one_key hX hpad hcareful hrun⟩

/-! ### A full disk -/

theorem padded_sample : Padded Ext.sample := by
  intro t b h
  have h : Reference.base64Decode t = .ok b := h
  unfold Reference.base64Decode at h
  split at h
  · rename_i b' hdec
    cases h
    rw [Base64.length_decode hdec, Base64.length_encode]
  · cases h

theorem step_of_after {p : Interact (ByteArr 32)} (hp : (loadOrCreateSigningKey X).after a.trace = some p)
    (hrun : Lts.run (fun d e => Disk.answer a.cut e d) d a.trace = some d') : step X d a = some d' := by
  rw [step, if_pos (by rw [hp]; rfl)]
  exact hrun

theorem result_of_after {r : Except CoreError (ByteArr 32)}
    (h : (loadOrCreateSigningKey X).after a.trace = some (.ret r)) : a.result X = some r := by
  rw [Attempt.result, h]

namespace Cut

/-- There is no room for the text of the first key. -/
def full : Attempt where
  trace := (creates Ext.sample Sample.zeros).take 3 ++ [⟨.write (privateBody Sample.zeros), .error "No space left".toList⟩]
  cut := none

def creating : Attempt := ⟨creates Ext.sample Sample.secretKey, none⟩

def loading : Attempt := ⟨loads Ext.sample Sample.secretKey, none⟩

def written : Disk where
  privateKey := some (utf8 (privateBody Sample.secretKey))
  publicKey := some (utf8 (publicBody Sample.publicKey))

theorem step_full : step Ext.sample ⟨none, none⟩ full = some ⟨none, none⟩ := by
  have hafter : (loadOrCreateSigningKey Ext.sample).after full.trace = some (.ret (.error (.io "No space left".toList))) :=
    (after_call _ _ _ _).trans ((after_call _ _ _ _).trans ((after_call _ _ _ _).trans (after_call _ _ _ _)))
  exact step_of_after hafter rfl

theorem step_creating : step Ext.sample ⟨none, none⟩ creating = some written :=
  step_of_after (after_creates Sample.secretKey) rfl

theorem step_loading : step Ext.sample written loading = some written := by
  refine step_of_after (after_loads lawful_sample Sample.secretKey) ?_
  simp only [loading, loads, Lts.run, Disk.answer, written, reduceCtorEq, and_false, if_false, if_true]
  rfl

theorem run_sample : Lts.run (step Ext.sample) ⟨none, none⟩ [full, creating, loading] = some written :=
  Lts.run_cons.2 ⟨_, step_full, Lts.run_cons.2 ⟨_, step_creating, Lts.run_cons.2 ⟨_, step_loading, rfl⟩⟩⟩

theorem careful_sample : Lts.Meets (step Ext.sample) Careful ⟨none, none⟩ [full, creating, loading] := by
  refine ⟨fun _ _ _ => rfl, fun d hd => ?_⟩
  rw [step_full, Option.some.injEq] at hd
  subst hd
  refine ⟨fun _ _ _ => rfl, fun d _ => ⟨fun e he hf => ?_, fun _ _ => trivial⟩⟩
  simp only [loading, loads, List.mem_cons, List.not_mem_nil, or_false] at he
  rcases he with rfl | rfl | rfl | rfl <;> cases hf

end Cut

/-- The first call fails, the second creates a key, and the third returns it. -/
theorem one_identity_sample : ∃ d, Lts.run (step Ext.sample) ⟨none, none⟩ [Cut.full, Cut.creating, Cut.loading] = some d ∧
    Cut.loading.result Ext.sample = some (.ok Sample.secretKey) ∧
    ∃ n, d.privateKey = some ((utf8 (privateBody Sample.secretKey)).take n) := by
  have hres : Cut.loading.result Ext.sample = some (.ok Sample.secretKey) :=
    result_of_after (after_loads lawful_sample Sample.secretKey)
  refine ⟨Cut.written, Cut.run_sample, hres, ?_⟩
  rcases (one_identity lawful_sample padded_sample Cut.careful_sample Cut.run_sample).2 with ⟨hnone, -⟩ |
    ⟨key, n, hd, hall⟩
  · exact absurd hnone (Option.some_ne_none _)
  · obtain ⟨rfl, -⟩ := hall Cut.loading (by simp) _ hres
    exact ⟨n, hd⟩

/-- **What a cut leaves is final**: the private file stays as it is, and a call in which nothing fails returns the key
if no more than the last line break is missing, and otherwise an error. -/
theorem cut_is_final (hX : X.Lawful) (hpad : Padded X) {key : ByteArr 32} {n : Nat}
    (hd : d.privateKey = some ((utf8 (privateBody key)).take n)) (hcareful : Lts.Meets (step X) Careful d as)
    (hrun : Lts.run (step X) d as = some d') : d'.privateKey = d.privateKey ∧ ∀ a ∈ as, ∀ r, a.result X = some r →
      (∀ e ∈ a.trace, Succeeds e) →
        if (privateBody key).length ≤ n + 1 then r = .ok key else ∃ e, r = .error e := by
  obtain ⟨hkept, hall⟩ := run_found hd hcareful hrun
  refine ⟨hkept.trans hd.symm, fun a ha r hr hcalm => ?_⟩
  obtain ⟨s, hs, rfl⟩ := (hall a ha r hr).1 hcalm
  rw [take_utf8_ascii (isAscii_privateBody key)] at hs
  rw [← utf8_injective hs, length_privateBody]
  have hcut := keyOfLines_cut hX hpad key n
  by_cases hn : 67 ≤ n
  · rw [if_pos hn] at hcut
    rw [if_pos (by omega)]
    exact hcut
  · rw [if_neg hn] at hcut
    rw [if_neg (by omega)]
    exact hcut

namespace Cut

/-- Only the header of a private file has been written. -/
def header : Str := FILE_HEADER ++ ['\n']

def refused : Attempt := ⟨[⟨.pathExists, true⟩, ⟨.readToString, .ok header⟩], none⟩

theorem after_refused : (loadOrCreateSigningKey Ext.sample).after refused.trace =
    some (.ret (.error (.ed25519 "no key material in file".toList))) :=
  (after_call _ _ _ _).trans ((after_call _ _ _ _).trans rfl)

theorem step_refused : step Ext.sample ⟨some (utf8 header), none⟩ refused = some ⟨some (utf8 header), none⟩ := by
  refine step_of_after after_refused ?_
  simp only [refused, Lts.run, Disk.answer, reduceCtorEq, and_false, if_false, if_true]

end Cut

/-- It is never mended. -/
theorem cut_is_final_header : step Ext.sample ⟨some (utf8 Cut.header), none⟩ Cut.refused =
    some ⟨some (utf8 Cut.header), none⟩ ∧ ∃ e, Cut.refused.result Ext.sample = some (.error e) := by
  have hres : Cut.refused.result Ext.sample = some (.error (.ed25519 "no key material in file".toList)) :=
    result_of_after Cut.after_refused
  have hfile : some (utf8 Cut.header) = some ((utf8 (privateBody Sample.zeros)).take 23) := by
    rw [take_utf8_ascii (isAscii_privateBody _)]
    rfl
  have hcareful : Lts.Meets (step Ext.sample) Careful ⟨some (utf8 Cut.header), none⟩ [Cut.refused] := by
    refine ⟨fun e he hf => ?_, fun _ _ => trivial⟩
    simp only [Cut.refused, List.mem_cons, List.not_mem_nil, or_false] at he
    rcases he with rfl | rfl <;> cases hf
  have hrun : Lts.run (step Ext.sample) ⟨some (utf8 Cut.header), none⟩ [Cut.refused] =
      some ⟨some (utf8 Cut.header), none⟩ := Lts.run_cons.2 ⟨_, Cut.step_refused, rfl⟩
  obtain ⟨-, hall⟩ := cut_is_final lawful_sample padded_sample hfile hcareful hrun
  have hcalm : ∀ e ∈ Cut.refused.trace, Succeeds e := by
    intro e he
    simp only [Cut.refused, List.mem_cons, List.not_mem_nil, or_false] at he
    rcases he with rfl | rfl <;> trivial
  have hreturns := hall Cut.refused (by simp) _ hres hcalm
  rw [length_privateBody, if_neg (by decide)] at hreturns
  obtain ⟨e, he⟩ := hreturns
  exact ⟨Cut.step_refused, e, hres.trans (congrArg some he)⟩

end Sao.AgentKey
