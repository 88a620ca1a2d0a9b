import Sao.Core.Reference

/-!
# The keys an `authorized_keys` text grants

| here | there |
| --- | --- |
| `Grants`    | what pushes an `AuthorizedKey` |
| `Foreign`   | `key_type != KEY_TYPE_ED25519` |
| `Bare`      | a foreign line without a second token; the test for a key blob comes before the one for the type |

* `authorizedKeyLine_cases` — the ways a line ends.
* `loadAuthorizedKeys_ok_iff` — a text loads exactly if each line is inert or grants a key and some line
  grants one, and the keys are those of the lines, in their order.
* `authorized_set` — a lookup finds the key of the first line that grants one with the fingerprint.
* `sameKeys_iff` — two texts that differ in inert lines load as the same keys, unless only one of them has a
  bare line.
-/

namespace Sao

open Text

variable {X : Ext}

/-! ## One line -/

/-- The line is active and holds the key of the entry, whose comment are the tokens behind it. -/
def Grants (line : Str) (k : AuthorizedKey X) : Prop := ¬ Skipped line ∧ k.keyType = KEY_TYPE_ED25519 ∧
  ∃ b64 rest, splitWhitespace (trim line) = KEY_TYPE_ED25519 :: b64 :: rest ∧
    X.base64Decode b64 = .ok k.verifyingKey.bytes.1 ∧ k.comment = List.intercalate [' '] rest

/-- The first token of the line is another key type. -/
def Foreign (line : Str) : Prop := ¬ Skipped line ∧ ∃ ty ∈ (splitWhitespace (trim line)).head?, ty ≠ KEY_TYPE_ED25519

/-- The line is not for this program: blank, a comment, or of another key type. -/
def Inert (line : Str) : Prop := Skipped line ∨ Foreign line

/-- Of another key type, without a second token. -/
def Bare (line : Str) : Prop := Foreign line ∧ (splitWhitespace (trim line)).length = 1

instance (line : Str) : Decidable (Foreign line) := inferInstanceAs (Decidable (_ ∧ _))
instance (line : Str) : Decidable (Inert line) := inferInstanceAs (Decidable (_ ∨ _))
instance (line : Str) : Decidable (Bare line) := inferInstanceAs (Decidable (_ ∧ _))

/-- An entry is its key and its comment. -/
theorem AuthorizedKey.eq_of {k k' : AuthorizedKey X} (hty : k.keyType = k'.keyType)
    (hkey : k.verifyingKey.bytes = k'.verifyingKey.bytes) (hcomment : k.comment = k'.comment) : k = k' := by
  obtain ⟨ty, ⟨bytes, hvalid⟩, fp, comment, hfp⟩ := k
  obtain ⟨ty', ⟨bytes', hvalid'⟩, fp', comment', hfp'⟩ := k'
  simp only at hty hkey hcomment hfp hfp'
  subst hty hkey hcomment hfp hfp'
  rfl

theorem Grants.unique {line : Str} {k k' : AuthorizedKey X} (h : Grants line k) (h' : Grants line k') : k = k' := by
  obtain ⟨-, hty, b64, rest, hs, hb, hcomment⟩ := h
  obtain ⟨-, hty', b64', rest', hs', hb', hcomment'⟩ := h'
  rw [hs, List.cons.injEq, List.cons.injEq] at hs'
  obtain ⟨-, rfl, rfl⟩ := hs'
  rw [hb, Except.ok.injEq] at hb'
  exact AuthorizedKey.eq_of (hty.trans hty'.symm) (Subtype.ext hb') (hcomment.trans hcomment'.symm)

theorem Grants.not_inert {line : Str} {k : AuthorizedKey X} (h : Grants line k) : ¬ Inert line := by
  obtain ⟨hskip, -, b64, rest, hs, -⟩ := h
  rintro (hi | ⟨-, ty, hty, hne⟩)
  · exact hskip hi
  · rw [hs, List.head?_cons, Option.mem_def, Option.some.injEq] at hty
    exact hne hty.symm

/-- **How a line ends.** -/
theorem authorizedKeyLine_cases (X : Ext) (lineno : Nat) (line : Str) :
    (Inert line ∧ ¬ Bare line ∧ authorizedKeyLine X lineno line = .ok none) ∨
    (Bare line ∧ ∃ e, authorizedKeyLine X lineno line = .error e) ∨
    (∃ k, Grants line k ∧ authorizedKeyLine X lineno line = .ok (some k)) ∨
    (¬ Inert line ∧ (∀ k : AuthorizedKey X, ¬ Grants line k) ∧ ∃ e, authorizedKeyLine X lineno line = .error e) := by
  unfold authorizedKeyLine
  by_cases hskip : Skipped line
  · exact Or.inl ⟨Or.inl hskip, fun h => h.1.1 hskip, if_pos hskip⟩
  rw [if_neg (show ¬ (trim line = [] ∨ (trim line).head? = some '#') from hskip)]
  cases hs : splitWhitespace (trim line) with
  | nil =>
    refine Or.inr (Or.inr (Or.inr ⟨?_, ?_, _, rfl⟩))
    · rintro (h | ⟨-, ty, hty, -⟩)
      · exact hskip h
      · rw [hs] at hty
        cases hty
    · rintro k ⟨-, -, b64, rest, hs', -⟩
      rw [hs] at hs'
      cases hs'
  | cons ty ts =>
    have hforeign : Foreign line ↔ ty ≠ KEY_TYPE_ED25519 := by simp [Foreign, hskip, hs]
    cases ts with
    | nil =>
      by_cases hty : ty = KEY_TYPE_ED25519
      · refine Or.inr (Or.inr (Or.inr ⟨fun h => h.elim hskip fun hf => hforeign.1 hf hty, ?_, _, rfl⟩))
        rintro k ⟨-, -, b64, rest, hs', -⟩
        rw [hs] at hs'
        cases hs'
      · exact Or.inr (Or.inl ⟨⟨hforeign.2 hty, by rw [hs]; rfl⟩, _, rfl⟩)
    | cons b64 rest =>
      by_cases hty : ty = KEY_TYPE_ED25519
      · subst hty
        have hinert : ¬ Inert line := fun h => h.elim hskip fun hf => hforeign.1 hf rfl
        have hfail : ∀ e, (∀ k : AuthorizedKey X, X.base64Decode b64 ≠ .ok k.verifyingKey.bytes.1) →
            ¬ Inert line ∧ (∀ k : AuthorizedKey X, ¬ Grants line k) ∧
              ∃ e', (.error e : Except CoreError (Option (AuthorizedKey X))) = .error e' := by
          refine fun e hno => ⟨hinert, ?_, e, rfl⟩
          rintro k ⟨-, -, b64', rest', hs', hb, -⟩
          rw [hs, List.cons.injEq, List.cons.injEq] at hs'
          exact hno k (hs'.2.1 ▸ hb)
        simp only [ne_eq, not_true_eq_false, if_false]
        cases hb : X.base64Decode b64 with
        | error e => exact Or.inr (Or.inr (Or.inr (hfail _ fun k h => by rw [hb] at h; cases h)))
        | ok raw =>
          simp only [authorizedKeyOfBlob]
          split
          · rename_i hlen
            split
            · rename_i e he
              refine Or.inr (Or.inr (Or.inr (hfail _ fun k h => ?_)))
              rw [hb, Except.ok.injEq] at h
              have hk := k.verifyingKey.valid
              rw [show k.verifyingKey.bytes = ⟨raw, hlen⟩ from Subtype.ext h.symm, he] at hk
              cases hk
            · exact Or.inr (Or.inr (Or.inl ⟨_, ⟨hskip, rfl, b64, rest, hs, hb, rfl⟩, rfl⟩))
          · rename_i hlen
            refine Or.inr (Or.inr (Or.inr (hfail _ fun k h => ?_)))
            rw [hb, Except.ok.injEq] at h
            exact hlen (h ▸ k.verifyingKey.bytes.2)
      · refine Or.inl ⟨Or.inr (hforeign.2 hty), fun h => ?_, if_pos hty⟩
        have hlen := h.2
        rw [hs] at hlen
        simp at hlen

/-! ## The text -/

/-- The line is taken: it is inert and not bare, or grants a key. -/
def Taken (X : Ext) (line : Str) : Prop := (Inert line ∧ ¬ Bare line) ∨ ∃ k : AuthorizedKey X, Grants line k

/-- The key of a line. -/
def grantOf (X : Ext) (line : Str) : Option (AuthorizedKey X) :=
  match authorizedKeyLine X 0 line with
  | .ok k => k
  | .error _ => none

theorem grantOf_eq_some_iff {line : Str} {k : AuthorizedKey X} : grantOf X line = some k ↔ Grants line k := by
  unfold grantOf
  rcases authorizedKeyLine_cases X 0 line with
    ⟨hi, -, h⟩ | ⟨hb, e, h⟩ | ⟨k', hk', h⟩ | ⟨-, hno, e, h⟩
  · simp only [h, reduceCtorEq, false_iff]
    exact fun hg => hg.not_inert hi
  · simp only [h, reduceCtorEq, false_iff]
    exact fun hg => hg.not_inert (Or.inr hb.1)
  · simp only [h, Option.some.injEq]
    exact ⟨fun he => he ▸ hk', fun hk => hk'.unique hk⟩
  · simp only [h, reduceCtorEq, false_iff]
    exact hno k

/-- The line number is only in the error. -/
theorem authorizedKeyLine_ok_iff {lineno : Nat} {line : Str} {o : Option (AuthorizedKey X)} :
    authorizedKeyLine X lineno line = .ok o ↔ Taken X line ∧ o = grantOf X line := by
  have hgrant : ∀ k, Grants line k → grantOf X line = some k := fun k hk => grantOf_eq_some_iff.2 hk
  have hnone : (∀ k, ¬ Grants line k) → grantOf X line = none := fun hno =>
    Option.eq_none_iff_forall_ne_some.2 fun k hk => hno k (grantOf_eq_some_iff.1 hk)
  rcases authorizedKeyLine_cases X lineno line with ⟨hi, hb, h⟩ | ⟨hb, e, h⟩ | ⟨k, hk, h⟩ | ⟨hi, hno, e, h⟩
  · rw [h, hnone fun k hg => hg.not_inert hi, Except.ok.injEq]
    exact ⟨fun he => ⟨Or.inl ⟨hi, hb⟩, he.symm⟩, fun he => he.2.symm⟩
  · rw [h]
    refine ⟨fun he => (by cases he), ?_⟩
    rintro ⟨⟨-, hnb⟩ | ⟨k, hk⟩, -⟩
    · exact absurd hb hnb
    · exact absurd (Or.inr hb.1) hk.not_inert
  · rw [h, hgrant k hk, Except.ok.injEq]
    exact ⟨fun he => ⟨Or.inr ⟨k, hk⟩, he.symm⟩, fun he => he.2.symm⟩
  · rw [h]
    refine ⟨fun he => (by cases he), ?_⟩
    rintro ⟨⟨hi', -⟩ | ⟨k, hk⟩, -⟩
    · exact absurd hi' hi
    · exact absurd hk (hno k)

theorem authorizedKeyLines_ok_iff {ls : List Str} {lineno : Nat} {ks : List (AuthorizedKey X)} :
    authorizedKeyLines X lineno ls = .ok ks ↔ (∀ l ∈ ls, Taken X l) ∧ ks = ls.filterMap (grantOf X) := by
  induction ls generalizing lineno ks with
  | nil => simp [authorizedKeyLines, eq_comm]
  | cons l ls ih =>
    have hks : ∀ o : Option (AuthorizedKey X), o = grantOf X l →
        o.toList ++ ls.filterMap (grantOf X) = (l :: ls).filterMap (grantOf X) := by
      rintro o rfl
      cases hg : grantOf X l <;> simp [hg]
    rw [authorizedKeyLines, List.forall_mem_cons]
    cases hl : authorizedKeyLine X lineno l with
    | error e =>
      refine ⟨fun h => (by cases h), fun h => ?_⟩
      rw [authorizedKeyLine_ok_iff.2 ⟨h.1.1, rfl⟩] at hl
      cases hl
    | ok o =>
      obtain ⟨htaken, ho⟩ := authorizedKeyLine_ok_iff.1 hl
      cases hls : authorizedKeyLines X (lineno + 1) ls with
      | error e =>
        refine ⟨fun h => (by cases h), fun h => ?_⟩
        rw [ih.2 ⟨h.1.2, rfl⟩] at hls
        cases hls
      | ok ks' =>
        obtain ⟨hall, rfl⟩ := ih.1 hls
        simp only [Except.ok.injEq]
        rw [hks o ho]
        exact ⟨fun h => ⟨⟨htaken, hall⟩, h.symm⟩, fun h => h.2.symm⟩

/-- **What loads, and as what.** -/
theorem loadAuthorizedKeys_ok_iff {text : Str} {ks : List (AuthorizedKey X)} :
    loadAuthorizedKeys X (.ok text) = .ok ks ↔
      (∀ l ∈ lines text, Taken X l) ∧ ks = (lines text).filterMap (grantOf X) ∧ ks ≠ [] := by
  unfold loadAuthorizedKeys
  cases hls : authorizedKeyLines X 0 (lines text) with
  | error e =>
    simp only [hls, reduceCtorEq, false_iff]
    intro h
    rw [authorizedKeyLines_ok_iff.2 ⟨h.1, rfl⟩] at hls
    cases hls
  | ok ks' =>
    obtain ⟨hall, hks⟩ := authorizedKeyLines_ok_iff.1 hls
    rw [← hks]
    cases ks' with
    | nil => simp [hls]
    | cons k ks' =>
      simp only [hls, Except.ok.injEq]
      exact ⟨fun h => ⟨hall, h.symm, h ▸ List.cons_ne_nil _ _⟩, fun h => h.2.1.symm⟩

/-! ## Looking up a fingerprint -/

/-- The line grants a key with the fingerprint that `f` spells. -/
def GrantsTo (X : Ext) (f : Str) (line : Str) : Prop := ∃ k : AuthorizedKey X, Grants line k ∧
  ed25519FingerprintHex X k.verifyingKey.bytes = X.toLowercase (trim f)

theorem any_grantOf_iff {f line : Str} :
    ((grantOf X line).any fun k => decide (k.fingerprintHex = X.toLowercase (trim f))) = true ↔ GrantsTo X f line := by
  rw [Option.any_eq_true]
  constructor
  · rintro ⟨k, hk, hf⟩
    rw [decide_eq_true_eq, k.fingerprint_eq] at hf
    exact ⟨k, grantOf_eq_some_iff.1 hk, hf⟩
  · rintro ⟨k, hk, hf⟩
    exact ⟨k, grantOf_eq_some_iff.2 hk, by rw [decide_eq_true_eq, k.fingerprint_eq, hf]⟩

/-- The lookup stops at the first line that grants such a key. -/
theorem findKey_filterMap {ls : List Str} {f : Str} {k : AuthorizedKey X} :
    findKey X (ls.filterMap (grantOf X)) f = some k ↔ ∃ pre line post, ls = pre ++ line :: post ∧
      (∀ l ∈ pre, ¬ GrantsTo X f l) ∧ Grants line k ∧
      ed25519FingerprintHex X k.verifyingKey.bytes = X.toLowercase (trim f) := by
  rw [findKey, List.find?_filterMap, Option.bind_eq_some_iff]
  constructor
  · rintro ⟨line, hline, hk⟩
    obtain ⟨hany, pre, post, hls, hpre⟩ := List.find?_eq_some_iff_append.1 hline
    obtain ⟨k', hk', hf⟩ := any_grantOf_iff.1 hany
    have hgrants := grantOf_eq_some_iff.1 hk
    refine ⟨pre, line, post, hls, fun l hl hto => ?_, hgrants, hk'.unique hgrants ▸ hf⟩
    have hno := hpre l hl
    rw [any_grantOf_iff.2 hto] at hno
    cases hno
  · rintro ⟨pre, line, post, hls, hpre, hk, hf⟩
    refine ⟨line, List.find?_eq_some_iff_append.2 ⟨any_grantOf_iff.2 ⟨k, hk, hf⟩, pre, post, hls, fun l hl => ?_⟩,
      grantOf_eq_some_iff.2 hk⟩
    rw [Bool.not_eq_true', ← Bool.not_eq_true, any_grantOf_iff]
    exact hpre l hl

/-- **The authorized set is the active lines**: a lookup finds an entry exactly if some line grants a key with
that fingerprint, and then the entry of the first such line. A key that no line grants is never found. -/
theorem authorized_set {text : Str} {keys : List (AuthorizedKey X)} (h : loadAuthorizedKeys X (.ok text) = .ok keys)
    (f : Str) :
    ((∃ k, findKey X keys f = some k) ↔ ∃ line ∈ lines text, GrantsTo X f line) ∧
    (∀ k, findKey X keys f = some k ↔ ∃ pre line post, lines text = pre ++ line :: post ∧
      (∀ l ∈ pre, ¬ GrantsTo X f l) ∧ Grants line k ∧
      ed25519FingerprintHex X k.verifyingKey.bytes = X.toLowercase (trim f)) ∧
    (∀ k ∈ keys, k.fingerprintHex = ed25519FingerprintHex X k.verifyingKey.bytes) ∧
    ∀ pk : ByteArr 32, (∀ line ∈ lines text, ∀ k : AuthorizedKey X, Grants line k → k.verifyingKey.bytes ≠ pk) →
      ∀ k, findKey X keys f = some k → k.verifyingKey.bytes ≠ pk := by
  obtain ⟨-, rfl, -⟩ := loadAuthorizedKeys_ok_iff.1 h
  refine ⟨⟨?_, ?_⟩, fun k => findKey_filterMap, fun k _ => k.fingerprint_eq, fun pk hpk k hk => ?_⟩
  · rintro ⟨k, hk⟩
    obtain ⟨pre, line, post, hls, -, hg, hf⟩ := findKey_filterMap.1 hk
    exact ⟨line, by rw [hls]; simp, k, hg, hf⟩
  · rintro ⟨line, hline, k, hk, hf⟩
    cases hfind : findKey X ((lines text).filterMap (grantOf X)) f with
    | some k' => exact ⟨k', rfl⟩
    | none =>
      have hno := List.find?_eq_none.1 hfind k (List.mem_filterMap.2 ⟨line, hline, grantOf_eq_some_iff.2 hk⟩)
      rw [decide_eq_true_eq, k.fingerprint_eq] at hno
      exact absurd hf hno
  · obtain ⟨pre, line, post, hls, -, hg, -⟩ := findKey_filterMap.1 hk
    exact hpk line (by rw [hls]; simp) k hg

theorem grants_keyFile : Grants Sample.keyFile.dropLast Sample.entry :=
  grantOf_eq_some_iff.1 (authorizedKeyLine_ok_iff.1 (Sample.line_keyFile 0)).2.symm

/-- The fingerprint of the sample key in upper case, between spaces. -/
def upperFingerprint : Str := ' ' :: (hexEncode Sample.digest.1).map Char.toUpper ++ [' ']

/-- It is found by a fingerprint in upper case. -/
theorem authorized_set_upper : ∃ k, findKey Ext.sample [Sample.entry] upperFingerprint = some k := by
  refine (authorized_set Sample.load_keyFile upperFingerprint).1.2 ?_
  have hfp : ed25519FingerprintHex Ext.sample Sample.publicKey = asciiLower (trim upperFingerprint) := by decide
  exact ⟨Sample.keyFile.dropLast, by decide, Sample.entry, grants_keyFile, hfp⟩

/-! ## Inert lines -/

/-- The lines that are not inert. -/
def active (ls : List Str) : List Str := ls.filter fun l => ¬ Inert l

/-- There is a line, and each grants a key. -/
def KeysOnly (X : Ext) (ls : List Str) : Prop := ls ≠ [] ∧ ∀ l ∈ ls, ∃ k : AuthorizedKey X, Grants l k

theorem mem_active {ls : List Str} {l : Str} : l ∈ active ls ↔ l ∈ ls ∧ ¬ Inert l := by simp [active]

theorem grantOf_inert {line : Str} (h : Inert line) : grantOf X line = none :=
  Option.eq_none_iff_forall_ne_some.2 fun _ hk => (grantOf_eq_some_iff.1 hk).not_inert h

theorem filterMap_active (ls : List Str) : (active ls).filterMap (grantOf X) = ls.filterMap (grantOf X) := by
  induction ls with
  | nil => rfl
  | cons l ls ih =>
    by_cases hl : Inert l
    · rw [active, List.filter_cons_of_neg (by simpa using hl), List.filterMap_cons_none (grantOf_inert hl)]
      exact ih
    · rw [active, List.filter_cons_of_pos (by simpa using hl), List.filterMap_cons, List.filterMap_cons]
      cases grantOf X l with
      | none => exact ih
      | some k => exact congrArg _ ih

theorem taken_iff {ls : List Str} : (∀ l ∈ ls, Taken X l) ↔
    (¬ ∃ l ∈ ls, Bare l) ∧ ∀ l ∈ active ls, ∃ k : AuthorizedKey X, Grants l k := by
  constructor
  · intro h
    refine ⟨?_, fun l hl => ?_⟩
    · rintro ⟨l, hl, hb⟩
      rcases h l hl with ⟨-, hnb⟩ | ⟨k, hk⟩
      · exact hnb hb
      · exact hk.not_inert (Or.inr hb.1)
    · obtain ⟨hl, hi⟩ := mem_active.1 hl
      exact (h l hl).resolve_left fun ht => hi ht.1
  · rintro ⟨hbare, hgrants⟩ l hl
    by_cases hi : Inert l
    · exact Or.inl ⟨hi, fun hb => hbare ⟨l, hl, hb⟩⟩
    · exact Or.inr (hgrants l (mem_active.2 ⟨hl, hi⟩))

/-- Of the inert lines, only a bare one matters. -/
theorem load_active_iff {text : Str} {ks : List (AuthorizedKey X)} : loadAuthorizedKeys X (.ok text) = .ok ks ↔
    (¬ ∃ l ∈ lines text, Bare l) ∧ KeysOnly X (active (lines text)) ∧
      ks = (active (lines text)).filterMap (grantOf X) := by
  rw [loadAuthorizedKeys_ok_iff, taken_iff, filterMap_active]
  constructor
  · rintro ⟨⟨hbare, hgrants⟩, rfl, hne⟩
    refine ⟨hbare, ⟨fun h => hne ?_, hgrants⟩, rfl⟩
    rw [← filterMap_active, h]
    rfl
  · rintro ⟨hbare, ⟨hne, hgrants⟩, rfl⟩
    obtain ⟨l, hl⟩ := List.exists_mem_of_ne_nil _ hne
    obtain ⟨k, hk⟩ := hgrants l hl
    have hmem : k ∈ (lines text).filterMap (grantOf X) :=
      List.mem_filterMap.2 ⟨l, (mem_active.1 hl).1, grantOf_eq_some_iff.2 hk⟩
    exact ⟨⟨hbare, hgrants⟩, rfl, List.ne_nil_of_mem hmem⟩

/-- **Exactly when inert lines make no difference**: two texts with the same other lines load alike, and as the
same keys, unless the others are good and just one of the texts has a bare line. -/
theorem sameKeys_iff {text text' : Str} (h : active (lines text) = active (lines text')) :
    (∀ ks : List (AuthorizedKey X), loadAuthorizedKeys X (.ok text) = .ok ks ↔ loadAuthorizedKeys X (.ok text') = .ok ks) ↔
      ((∃ l ∈ lines text, Bare l) ↔ ∃ l ∈ lines text', Bare l) ∨ ¬ KeysOnly X (active (lines text)) := by
  simp only [load_active_iff, ← h]
  constructor
  · intro hall
    by_cases hk : KeysOnly X (active (lines text))
    · have := hall ((active (lines text)).filterMap (grantOf X))
      simp only [hk, and_true] at this
      exact Or.inl (not_iff_not.1 this)
    · exact Or.inr hk
  · rintro (hbare | hk) ks
    · rw [hbare]
    · simp only [hk, false_and, and_false]

/-- The sample file with a line behind it. -/
def keyFileWith (line : Str) : Str := Sample.keyFile ++ line ++ ['\n']

/-- A line of another key type makes no difference. -/
theorem sameKeys_foreign :
    loadAuthorizedKeys Ext.sample (.ok (keyFileWith "ssh-rsa AAAA".toList)) = .ok [Sample.entry] := by
  have hactive : active (lines Sample.keyFile) = active (lines (keyFileWith "ssh-rsa AAAA".toList)) := by decide
  exact ((sameKeys_iff hactive).2 (Or.inl (by decide)) _).1 Sample.load_keyFile

/-- A line of another key type that has no second token keeps the file from loading. -/
theorem bare_not_inert : ¬ ∀ text text', active (lines text) = active (lines text') →
    ∀ ks, loadAuthorizedKeys Ext.sample (.ok text) = .ok ks → loadAuthorizedKeys Ext.sample (.ok text') = .ok ks := by
  intro h
  have hload := h Sample.keyFile (keyFileWith "ssh-rsa".toList) (by decide) _ Sample.load_keyFile
  exact (load_active_iff.1 hload).1 ⟨"ssh-rsa".toList, by decide, by decide⟩

end Sao
