import Sao.Core.KnownHosts

/-!
# Which texts `parse_hex32` takes for a fingerprint

`parse_hex32` checks the length in bytes and gives each slice of two bytes to `u8::from_str_radix`.
That is more than 64 hexadecimal digits, in two ways: `from_str_radix` takes `+` and a digit for a
number, and a slice whose end is inside a character panics.

* `hexPairs_cases` — the three ways the loop ends.
* `acceptsExactly_iff` — on a given text the parser does what its error message promises, exactly
  when the trimmed and lowercased text has neither of the two.
-/

namespace Sao

open Text

variable {lower : Str → Str}

/-- A hexadecimal digit of either case. -/
def IsHexDigitAny (c : Char) : Prop := IsHexDigit c ∨ (65 ≤ c.toNat ∧ c.toNat ≤ 70)

/-- "expect 64 hex chars" -/
def IsHex64 (s : Str) : Prop := s.length = 64 ∧ ∀ c ∈ s, IsHexDigitAny c

/-- The parser accepts a text exactly if it is 64 digits between whitespace, and then returns the
bytes they denote; whatever it refuses is an `InvalidFingerprint`. -/
structure AcceptsExactly (lower : Str → Str) (s : Str) : Prop where
  ok_iff : (∃ b, parseHex32 lower s = .ok b) ↔ IsHex64 (trim s)
  value : ∀ b, parseHex32 lower s = .ok b → hexEncode b.1 = asciiLower (trim s)
  refused : ¬ IsHex64 (trim s) → ∃ t, parseHex32 lower s = .error (.err (.invalidFingerprint t))
  insert_ok_iff : ∀ k host port, (∃ k', KnownHosts.insertHex lower k host port s = .ok k') ↔ IsHex64 (trim s)
  insert_refused : ¬ IsHex64 (trim s) → ∀ k host port, ∃ t,
    KnownHosts.insertHex lower k host port s = .error (.err (.invalidFingerprint t))

/-- Pairs that `u8::from_str_radix` takes for a number: two digits, or `+` and a digit. -/
inductive Pairs : Str → Prop where
  | nil : Pairs []
  | cons {a b : Char} {s : Str} (ha : a = '+' ∨ IsHexDigitAny a) (hb : IsHexDigitAny b) (hs : Pairs s) :
    Pairs (a :: b :: s)

/-- The first slice of two bytes ends inside a character. -/
def CutsChar (s : Str) : Prop := s ≠ [] ∧ splitAtByte 2 s = none

/-- 64 bytes that begin with pairs, among them one with a sign if that is all, and else go on with a
character that a slice cuts. -/
def Misread (t : Str) : Prop :=
  byteLen t = 64 ∧ ∃ p r, t = p ++ r ∧ Pairs p ∧ ((r = [] ∧ '+' ∈ p) ∨ CutsChar r)

/-- What is relied on about `str::to_lowercase` here: an ASCII character becomes its ASCII lower
case, any other a text without hexadecimal digits that is not empty. -/
def HexLowercase (lower : Str → Str) : Prop := ∀ s, ∃ ps : List Str, lower s = ps.flatten ∧
  List.Forall₂ (fun c p => (c.toNat < 128 → p = [c.toLower]) ∧
    (128 ≤ c.toNat → p ≠ [] ∧ ∀ d ∈ p, ¬ IsHexDigitAny d)) s ps

/-! ## Digits -/

theorem isHexDigitAny_lt {c : Char} (h : IsHexDigitAny c) : c.toNat < 128 := by
  rcases h with (h | h) | h <;> omega

theorem toDigit_isSome_iff {c : Char} : (∃ d, toDigit 16 c = some d) ↔ IsHexDigitAny c := by
  simp only [toDigit, Option.filter_eq_some_iff, decide_eq_true_eq]
  unfold IsHexDigitAny IsHexDigit
  constructor
  · rintro ⟨d, hd, hlt⟩
    split at hd
    · left; left; assumption
    · split at hd
      · cases hd
        left; right; omega
      · split at hd
        · cases hd
          right; omega
        · cases hd
  · rintro ((h | h) | h)
    · exact ⟨c.toNat - 48, if_pos h, by omega⟩
    · refine ⟨c.toNat - 87, ?_, by omega⟩
      rw [if_neg (by omega), if_pos (by omega)]
    · refine ⟨c.toNat - 55, ?_, by omega⟩
      rw [if_neg (by omega), if_neg (by omega), if_pos (by omega)]

theorem toDigit_lt {c : Char} {d : Nat} (h : toDigit 16 c = some d) : d < 16 := by
  simp only [toDigit, Option.filter_eq_some_iff, decide_eq_true_eq] at h
  exact h.2

/-- A lower-case digit is the one its value is printed as. -/
theorem digitChar_toDigit {c : Char} {d : Nat} (hc : IsHexDigit c) (h : toDigit 16 c = some d) :
    Nat.digitChar d = c := by
  have key : ∀ n < 128, (48 ≤ n ∧ n ≤ 57) ∨ (97 ≤ n ∧ n ≤ 102) →
      (toDigit 16 (Char.ofNat n)).map Nat.digitChar = some (Char.ofNat n) := by decide +kernel
  have hn := key c.toNat (isHexDigitAny_lt (Or.inl hc)) hc
  rw [Char.ofNat_toNat, h] at hn
  exact Option.some.inj hn

/-! ## One pair -/

theorem Pairs.isAscii {p : Str} (h : Pairs p) : IsAscii p := by
  induction h with
  | nil => intro c hc; cases hc
  | cons ha hb _ ih =>
    intro c hc
    rcases List.mem_cons.1 hc with rfl | hc
    · rcases ha with rfl | ha
      · decide
      · exact isHexDigitAny_lt ha
    · rcases List.mem_cons.1 hc with rfl | hc
      · exact isHexDigitAny_lt hb
      · exact ih c hc

theorem Pairs.append {p q : Str} (hp : Pairs p) (hq : Pairs q) : Pairs (p ++ q) := by
  induction hp with
  | nil => exact hq
  | cons ha hb _ ih => exact .cons ha hb ih

theorem Pairs.cut_unique {p r : Str} (hp : Pairs p) (h : Pairs (p ++ r)) : Pairs r := by
  induction hp with
  | nil => exact h
  | cons _ _ _ ih =>
    cases h with
    | cons _ _ hs => exact ih hs

theorem fromStrRadix_sign (b : Char) : fromStrRadix 16 255 ['+', b] = toDigit 16 b := by
  have hr : fromStrRadix 16 255 ['+', b] = digitsValue 16 255 0 [b] := rfl
  rw [hr, digitsValue]
  cases hb : toDigit 16 b with
  | none => rfl
  | some d =>
    have hd := toDigit_lt hb
    simp only [digitsValue]
    rw [if_neg (by omega), Nat.zero_mul, Nat.zero_add]

theorem fromStrRadix_two {a : Char} (h : a ≠ '+') (b : Char) : fromStrRadix 16 255 [a, b] =
    (toDigit 16 a).bind fun d => (toDigit 16 b).map fun e => d * 16 + e := by
  have hr : fromStrRadix 16 255 [a, b] = digitsValue 16 255 0 [a, b] := by
    rw [fromStrRadix.eq_def]
    split <;> simp_all
  rw [hr, digitsValue]
  cases ha : toDigit 16 a with
  | none => rfl
  | some d =>
    have hd := toDigit_lt ha
    simp only [Option.bind_some]
    rw [if_neg (by omega), digitsValue]
    cases hb : toDigit 16 b with
    | none => rfl
    | some e =>
      have he := toDigit_lt hb
      simp only [digitsValue, Option.map_some]
      rw [if_neg (by omega), Nat.zero_mul, Nat.zero_add]

theorem hexByte_two {a b : Char} {d e : Nat} (ha : IsHexDigit a) (hb : IsHexDigit b) (hd : toDigit 16 a = some d)
    (he : toDigit 16 b = some e) : hexByte (UInt8.ofNat (d * 16 + e)) = [a, b] := by
  have hd16 := toDigit_lt hd
  have he16 := toDigit_lt he
  have hn : (UInt8.ofNat (d * 16 + e)).toNat = d * 16 + e := by
    rw [UInt8.toNat_ofNat', Nat.mod_eq_of_lt (by omega)]
  rw [hexByte, hn, show (d * 16 + e) / 16 = d by omega, show (d * 16 + e) % 16 = e by omega,
    digitChar_toDigit ha hd, digitChar_toDigit hb he]

/-- What `from_str_radix` makes of two characters. -/
theorem fromStrRadix_pair (a b : Char) :
    (((a = '+' ∨ IsHexDigitAny a) ∧ IsHexDigitAny b) ∧ ∃ v, fromStrRadix 16 255 [a, b] = some v ∧
      (IsHexDigit a → IsHexDigit b → hexByte (UInt8.ofNat v) = [a, b])) ∨
    (¬ ((a = '+' ∨ IsHexDigitAny a) ∧ IsHexDigitAny b) ∧ fromStrRadix 16 255 [a, b] = none) := by
  cases hb : toDigit 16 b with
  | none =>
    have hnb : ¬ IsHexDigitAny b := by
      rw [← toDigit_isSome_iff, hb]
      simp
    refine Or.inr ⟨fun h => hnb h.2, ?_⟩
    by_cases ha : a = '+'
    · rw [ha, fromStrRadix_sign, hb]
    · rw [fromStrRadix_two ha, hb]
      cases toDigit 16 a <;> rfl
  | some e =>
    have hbd : IsHexDigitAny b := toDigit_isSome_iff.1 ⟨e, hb⟩
    by_cases ha : a = '+'
    · subst ha
      refine Or.inl ⟨⟨Or.inl rfl, hbd⟩, e, by rw [fromStrRadix_sign, hb], fun h => ?_⟩
      exact absurd h (by unfold IsHexDigit; decide)
    · rw [fromStrRadix_two ha, hb]
      cases had : toDigit 16 a with
      | none =>
        have hna : ¬ IsHexDigitAny a := by
          rw [← toDigit_isSome_iff, had]
          simp
        exact Or.inr ⟨fun h => h.1.elim ha hna, rfl⟩
      | some d =>
        have hat : IsHexDigitAny a := toDigit_isSome_iff.1 ⟨d, had⟩
        exact Or.inl ⟨⟨Or.inr hat, hbd⟩, _, rfl, fun ha hb' => hexByte_two ha hb' had hb⟩

/-! ## The loop -/

theorem splitAtByte_append {p r : Str} (hp : IsAscii p) (n : Nat) :
    splitAtByte (p.length + n) (p ++ r) = (splitAtByte n r).map fun q => (p ++ q.1, q.2) := by
  induction p with
  | nil => simp
  | cons c p ih =>
    have ih := ih fun d hd => hp d (List.mem_cons_of_mem _ hd)
    have hn : (c :: p).length + n = p.length + n + 1 := by simp only [List.length_cons]; omega
    rw [hn, List.cons_append, splitAtByte, utf8Size_ascii (hp c List.mem_cons_self), if_pos (by omega),
      Nat.add_sub_cancel, ih, Option.map_map]
    rfl

/-- The slice behind ASCII text. -/
theorem sliceBytes_append {p r : Str} (hp : IsAscii p) (n : Nat) :
    sliceBytes (p ++ r) p.length (p.length + n) = (splitAtByte n r).map Prod.fst := by
  have h0 : splitAtByte p.length (p ++ r) = some (p, r) := by
    have := splitAtByte_append (r := r) hp 0
    simpa [splitAtByte] using this
  simp only [sliceBytes, bind, Option.bind, h0, Nat.add_sub_cancel_left]
  cases splitAtByte n r <;> rfl

/-- The first two bytes of a text that has them. -/
theorem splitAtByte_two {r : Str} (h : 2 ≤ byteLen r) : splitAtByte 2 r = none ∨
    (∃ a b s, r = a :: b :: s ∧ byteLen r = 2 + byteLen s ∧ splitAtByte 2 r = some ([a, b], s)) ∨
    ∃ c s, r = c :: s ∧ c.utf8Size = 2 ∧ splitAtByte 2 r = some ([c], s) := by
  cases r with
  | nil => simp [byteLen] at h
  | cons c s =>
    have hc := Char.utf8Size_pos c
    by_cases hc2 : c.utf8Size ≤ 2
    · rw [splitAtByte, if_pos hc2]
      by_cases hc1 : c.utf8Size = 1
      · rw [hc1]
        cases s with
        | nil => simp [byteLen, hc1] at h
        | cons b s =>
          have hb := Char.utf8Size_pos b
          by_cases hb1 : b.utf8Size = 1
          · right; left
            refine ⟨c, b, s, rfl, ?_, by simp [splitAtByte, hb1]⟩
            simp only [byteLen, List.map_cons, List.sum_cons, hc1, hb1]
            omega
          · left
            simp only [splitAtByte, Nat.add_one_sub_one]
            rw [if_neg (by omega)]
            rfl
      · right; right
        have hc2' : c.utf8Size = 2 := by omega
        exact ⟨c, s, rfl, hc2', by simp [hc2', splitAtByte]⟩
    · left
      rw [splitAtByte, if_neg hc2]

theorem not_cutsChar_pair {a b : Char} {s : Str} (ha : a = '+' ∨ IsHexDigitAny a) (hb : IsHexDigitAny b) :
    ¬ CutsChar (a :: b :: s) := by
  rintro ⟨-, hcut⟩
  have hs := splitAtByte_append (r := s) (Pairs.cons ha hb .nil).isAscii 0
  simp only [List.length_cons, List.length_nil, Nat.zero_add, Nat.add_zero, List.cons_append, List.nil_append] at hs
  rw [hs] at hcut
  simp [splitAtByte] at hcut

/-- A pair at the beginning of the text. -/
def BeginsWithPair (r : Str) : Prop :=
  ∃ a b s, r = a :: b :: s ∧ (a = '+' ∨ IsHexDigitAny a) ∧ IsHexDigitAny b

/-- One round of the loop. -/
theorem hexPair_cases {p r : Str} {i : Nat} (hp : IsAscii p) (hlen : p.length = i * 2) (h : 2 ≤ byteLen r) :
    (CutsChar r ∧ hexPair (p ++ r) i = .error .panic) ∨
    (∃ a b s v, r = a :: b :: s ∧ byteLen r = 2 + byteLen s ∧ ((a = '+' ∨ IsHexDigitAny a) ∧ IsHexDigitAny b) ∧
      hexPair (p ++ r) i = .ok v ∧ (IsHexDigit a → IsHexDigit b → hexByte v = [a, b])) ∨
    (¬ CutsChar r ∧ ¬ BeginsWithPair r ∧ hexPair (p ++ r) i = .error (.err (.invalidFingerprint (p ++ r)))) := by
  unfold hexPair
  rw [← hlen, sliceBytes_append hp]
  rcases splitAtByte_two h with hn | ⟨a, b, s, rfl, hs, heq⟩ | ⟨c, s, rfl, hc, heq⟩
  · refine Or.inl ⟨⟨?_, hn⟩, by rw [hn]; rfl⟩
    rintro rfl
    simp [byteLen] at h
  · simp only [heq, Option.map_some]
    rcases fromStrRadix_pair a b with ⟨hab, v, hv, hbyte⟩ | ⟨hab, hv⟩
    · exact Or.inr (Or.inl ⟨a, b, s, UInt8.ofNat v, rfl, hs, hab, by rw [hv], hbyte⟩)
    · refine Or.inr (Or.inr ⟨?_, ?_, by rw [hv]⟩)
      · rintro ⟨-, hcut⟩
        rw [heq] at hcut
        cases hcut
      · rintro ⟨a', b', s', hr, h'⟩
        simp only [List.cons.injEq] at hr
        obtain ⟨rfl, rfl, -⟩ := hr
        exact hab h'
  · have hc128 : 128 ≤ c.toNat := by
      by_contra hlt
      rw [utf8Size_ascii (by omega)] at hc
      omega
    have hd : toDigit 16 c = none := by
      cases hd : toDigit 16 c with
      | none => rfl
      | some d =>
        have := isHexDigitAny_lt (toDigit_isSome_iff.1 ⟨d, hd⟩)
        omega
    have hv : fromStrRadix 16 255 [c] = none := by
      rw [fromStrRadix_eq (by rintro rfl; revert hc128; decide) (by rintro rfl; revert hc128; decide), digitsValue, hd]
    simp only [heq, Option.map_some, hv]
    refine Or.inr (Or.inr ⟨?_, ?_, trivial⟩)
    · rintro ⟨-, hcut⟩
      rw [heq] at hcut
      cases hcut
    · rintro ⟨a', b', s', hr, ha', -⟩
      simp only [List.cons.injEq] at hr
      obtain ⟨rfl, -⟩ := hr
      rcases ha' with rfl | ha'
      · revert hc128; decide
      · have := isHexDigitAny_lt ha'
        omega

/-- Pairs, and then a character that a slice cuts. -/
def CutBehindPairs (r : Str) : Prop := ∃ q r', r = q ++ r' ∧ Pairs q ∧ CutsChar r'

theorem Pairs.not_cutBehindPairs {r : Str} (h : Pairs r) : ¬ CutBehindPairs r := by
  rintro ⟨q, r', rfl, hq, hcut⟩
  cases hq.cut_unique h with
  | nil => exact hcut.1 rfl
  | cons ha hb _ => exact not_cutsChar_pair ha hb hcut

/-- **How the loop ends**: with the bytes of as many pairs, in a panic, or with an error. -/
theorem hexPairs_cases {p r : Str} {n i : Nat} (hp : IsAscii p) (hlen : p.length = i * 2) (h : byteLen r = 2 * n) :
    (Pairs r ∧ ∃ bs, hexPairs (p ++ r) n i = .ok bs ∧ ((∀ c ∈ r, IsHexDigit c) → hexEncode bs.1 = r)) ∨
    (CutBehindPairs r ∧ hexPairs (p ++ r) n i = .error .panic) ∨
    (¬ Pairs r ∧ ¬ CutBehindPairs r ∧
      hexPairs (p ++ r) n i = .error (.err (.invalidFingerprint (p ++ r)))) := by
  induction n generalizing p r i with
  | zero =>
    have hr : r = [] := by
      cases r with
      | nil => rfl
      | cons c s =>
        have := Char.utf8Size_pos c
        simp only [byteLen, List.map_cons, List.sum_cons] at h
        omega
    subst hr
    exact Or.inl ⟨.nil, ⟨[], rfl⟩, rfl, fun _ => rfl⟩
  | succ n ih =>
    rcases hexPair_cases hp hlen (r := r) (by omega) with
      ⟨hcut, hpair⟩ | ⟨a, b, s, v, rfl, hs, hab, hpair, hbyte⟩ | ⟨hcut, hbeg, hpair⟩
    · exact Or.inr (Or.inl ⟨⟨[], r, rfl, .nil, hcut⟩, by rw [hexPairs, hpair]⟩)
    · have hp' : IsAscii (p ++ [a, b]) := by
        intro c hc
        rcases List.mem_append.1 hc with hc | hc
        · exact hp c hc
        · exact (Pairs.cons hab.1 hab.2 .nil).isAscii c hc
      have hsplit : p ++ a :: b :: s = p ++ [a, b] ++ s := by simp
      rw [hexPairs, hpair, hsplit]
      rcases ih (p := p ++ [a, b]) (r := s) (i := i + 1) hp' (by simp [hlen]; omega) (by omega) with
        ⟨hpairs, bs, hbs, hval⟩ | ⟨⟨q, r', rfl, hq, hcut⟩, herr⟩ | ⟨hnp, hnc, herr⟩
      · refine Or.inl ⟨.cons hab.1 hab.2 hpairs, ⟨v :: bs.1, by rw [List.length_cons, bs.2]⟩, by simp only [hbs], ?_⟩
        intro hhex
        have htail := hval fun c hc => hhex c (List.mem_cons_of_mem _ (List.mem_cons_of_mem _ hc))
        have hhead := hbyte (hhex a List.mem_cons_self) (hhex b (List.mem_cons_of_mem _ List.mem_cons_self))
        show hexByte v ++ hexEncode bs.1 = _
        rw [htail, hhead]
        rfl
      · exact Or.inr (Or.inl ⟨⟨a :: b :: q, r', rfl, .cons hab.1 hab.2 hq, hcut⟩, by simp only [herr]⟩)
      · refine Or.inr (Or.inr ⟨?_, ?_, by simp only [herr]⟩)
        · intro hpairs
          cases hpairs with
          | cons _ _ hs' => exact hnp hs'
        · rintro ⟨q, r', hr, hq, hcut⟩
          cases hq with
          | nil =>
            rw [List.nil_append] at hr
            exact not_cutsChar_pair hab.1 hab.2 (hr ▸ hcut)
          | cons ha' hb' hq' =>
            simp only [List.cons_append, List.cons.injEq] at hr
            exact hnc ⟨_, r', hr.2.2, hq', hcut⟩
    · refine Or.inr (Or.inr ⟨?_, ?_, by rw [hexPairs, hpair]⟩)
      · intro hpairs
        cases hpairs with
        | nil => simp [byteLen] at h
        | cons ha hb _ => exact hbeg ⟨_, _, _, rfl, ha, hb⟩
      · rintro ⟨q, r', rfl, hq, hcut'⟩
        cases hq with
        | nil => exact hcut hcut'
        | cons ha hb _ => exact hbeg ⟨_, _, _, rfl, ha, hb⟩

/-! ## The parser -/

theorem byteLen_hex64 {t : Str} (h : ∀ c ∈ t, IsHexDigitAny c) : byteLen t = t.length :=
  byteLen_ascii fun c hc => isHexDigitAny_lt (h c hc)

/-- **How the parser ends.** -/
theorem parseHex32_cases (lower : Str → Str) (s : Str) :
    (byteLen (lower (trim s)) = 64 ∧ Pairs (lower (trim s)) ∧ ∃ b, parseHex32 lower s = .ok b ∧
      ((∀ c ∈ lower (trim s), IsHexDigit c) → hexEncode b.1 = lower (trim s))) ∨
    (byteLen (lower (trim s)) = 64 ∧ CutBehindPairs (lower (trim s)) ∧ parseHex32 lower s = .error .panic) ∨
    (¬ (byteLen (lower (trim s)) = 64 ∧ (Pairs (lower (trim s)) ∨ CutBehindPairs (lower (trim s)))) ∧
      parseHex32 lower s = .error (.err (.invalidFingerprint (lower (trim s))))) := by
  by_cases hlen : byteLen (lower (trim s)) = 64
  · have hp : parseHex32 lower s = hexPairs (lower (trim s)) 32 0 := by
      unfold parseHex32
      simp only [hlen, ne_eq, not_true_eq_false, if_false]
    rw [hp]
    have hnil : IsAscii [] := fun c hc => by cases hc
    rcases hexPairs_cases (p := []) (r := lower (trim s)) (n := 32) (i := 0) hnil rfl hlen with
      ⟨h1, b, hb, hval⟩ | ⟨h1, herr⟩ | ⟨h1, h2, herr⟩
    · exact Or.inl ⟨hlen, h1, b, hb, hval⟩
    · exact Or.inr (Or.inl ⟨hlen, h1, herr⟩)
    · exact Or.inr (Or.inr ⟨fun h => h.2.elim h1 h2, herr⟩)
  · refine Or.inr (Or.inr ⟨fun h => hlen h.1, ?_⟩)
    unfold parseHex32
    simp only [ne_eq, hlen, not_false_eq_true, if_true]

theorem misread_iff {t : Str} :
    Misread t ↔ byteLen t = 64 ∧ ((Pairs t ∧ '+' ∈ t) ∨ CutBehindPairs t) := by
  unfold Misread CutBehindPairs
  constructor
  · rintro ⟨hlen, p, r, rfl, hp, ⟨rfl, hplus⟩ | hcut⟩
    · rw [List.append_nil] at hlen ⊢
      exact ⟨hlen, Or.inl ⟨hp, hplus⟩⟩
    · exact ⟨hlen, Or.inr ⟨p, r, rfl, hp, hcut⟩⟩
  · rintro ⟨hlen, ⟨hp, hplus⟩ | ⟨p, r, rfl, hp, hcut⟩⟩
    · exact ⟨hlen, t, [], by simp, hp, Or.inl ⟨rfl, hplus⟩⟩
    · exact ⟨hlen, p, r, rfl, hp, Or.inr hcut⟩

theorem Pairs.digits {t : Str} (h : Pairs t) (hplus : '+' ∉ t) : ∀ c ∈ t, IsHexDigitAny c := by
  induction h with
  | nil => intro c hc; cases hc
  | cons ha hb _ ih =>
    simp only [List.mem_cons, not_or] at hplus
    intro c hc
    rcases List.mem_cons.1 hc with rfl | hc
    · exact ha.resolve_left fun he => hplus.1 he.symm
    · rcases List.mem_cons.1 hc with rfl | hc
      · exact hb
      · exact ih hplus.2.2 c hc

theorem pairs_of_digits {n : Nat} {t : Str} (hlen : t.length = 2 * n) (h : ∀ c ∈ t, IsHexDigitAny c) : Pairs t := by
  induction n generalizing t with
  | zero =>
    rw [List.length_eq_zero_iff.1 hlen]
    exact .nil
  | succ n ih =>
    match t, hlen with
    | a :: b :: t, hlen =>
      refine .cons (Or.inr (h a (by simp))) (h b (by simp)) (ih ?_ fun c hc => h c (by simp [hc]))
      simp only [List.length_cons] at hlen
      omega

/-! ## Lowercasing digits -/

theorem toLower_digit {c : Char} (h : IsHexDigitAny c.toLower) : IsHexDigitAny c ∧ IsHexDigit c.toLower := by
  rcases toLower_cases c with he | ⟨h1, h2, h3⟩
  · have hc : ¬ (65 ≤ c.toNat ∧ c.toNat ≤ 70) := by
      rintro ⟨h1, h2⟩
      have key : ∀ n < 128, 65 ≤ n → n ≤ 70 → (Char.ofNat n).toLower ≠ Char.ofNat n := by decide
      exact key c.toNat (by omega) h1 h2 (by rw [Char.ofNat_toNat]; exact he)
    rw [he] at h ⊢
    exact ⟨h, h.resolve_right hc⟩
  · have hd : IsHexDigit c.toLower := by
      rcases h with h | h
      · exact h
      · omega
    refine ⟨Or.inr ?_, hd⟩
    rcases hd with hd | hd <;> omega

theorem isHexDigit_toLower {c : Char} (h : IsHexDigitAny c) : IsHexDigit c.toLower := by
  have key : ∀ n < 128, ((48 ≤ n ∧ n ≤ 57) ∨ (97 ≤ n ∧ n ≤ 102)) ∨ (65 ≤ n ∧ n ≤ 70) →
      (48 ≤ (Char.ofNat n).toLower.toNat ∧ (Char.ofNat n).toLower.toNat ≤ 57) ∨
      (97 ≤ (Char.ofNat n).toLower.toNat ∧ (Char.ofNat n).toLower.toNat ≤ 102) := by decide
  have hc := key c.toNat (isHexDigitAny_lt h) h
  rwa [Char.ofNat_toNat] at hc

section HexLowercase

variable (hl : HexLowercase lower)

include hl

/-- Only digits are lowercased to digits. -/
theorem digits_of_lower {s : Str} (h : ∀ c ∈ lower s, IsHexDigitAny c) :
    (∀ c ∈ s, IsHexDigitAny c) ∧ (∀ c ∈ lower s, IsHexDigit c) ∧ lower s = asciiLower s := by
  obtain ⟨ps, hs, hp⟩ := hl s
  rw [hs] at h ⊢
  clear hs
  induction hp with
  | nil => exact ⟨by simp, by simp, rfl⟩
  | @cons c p s ps hcp _ ih =>
    obtain ⟨ih1, ih2, ih3⟩ := ih fun d hd => h d (by rw [List.flatten_cons]; exact List.mem_append_right _ hd)
    have hascii : c.toNat < 128 := by
      by_contra hge
      obtain ⟨hne, hno⟩ := hcp.2 (by omega)
      obtain ⟨d, hd⟩ := List.exists_mem_of_ne_nil p hne
      exact hno d hd (h d (by rw [List.flatten_cons]; exact List.mem_append_left _ hd))
    have hpc := hcp.1 hascii
    have hlow := toLower_digit (h c.toLower (by simp [hpc]))
    refine ⟨?_, ?_, by rw [List.flatten_cons, ih3, hpc]; rfl⟩
    · intro d hd
      rcases List.mem_cons.1 hd with rfl | hd
      · exact hlow.1
      · exact ih1 d hd
    · intro d hd
      rw [List.flatten_cons, hpc, List.singleton_append] at hd
      rcases List.mem_cons.1 hd with rfl | hd
      · exact hlow.2
      · exact ih2 d hd

theorem lower_digits {s : Str} (h : ∀ c ∈ s, IsHexDigitAny c) : lower s = asciiLower s := by
  obtain ⟨ps, hs, hp⟩ := hl s
  rw [hs]
  clear hs
  induction hp with
  | nil => rfl
  | @cons c p s ps hcp _ ih =>
    have ih := ih fun d hd => h d (List.mem_cons_of_mem _ hd)
    rw [List.flatten_cons, ih, hcp.1 (isHexDigitAny_lt (h c List.mem_cons_self))]
    rfl

/-- 64 digits are read as 32 pairs of lower-case digits. -/
theorem isHex64_iff {s : Str} :
    IsHex64 s ↔ byteLen (lower s) = 64 ∧ Pairs (lower s) ∧ '+' ∉ lower s := by
  constructor
  · rintro ⟨hlen, hs⟩
    have hdig : ∀ c ∈ lower s, IsHexDigitAny c := by
      rw [lower_digits hl hs]
      intro c hc
      obtain ⟨d, hd, rfl⟩ := List.mem_map.1 hc
      exact Or.inl (isHexDigit_toLower (hs d hd))
    have hlen' : (lower s).length = 64 := by rw [lower_digits hl hs, asciiLower, List.length_map, hlen]
    refine ⟨by rw [byteLen_hex64 hdig, hlen'], pairs_of_digits (n := 32) hlen' hdig, fun hplus => ?_⟩
    exact absurd (hdig _ hplus) (by unfold IsHexDigitAny IsHexDigit; decide)
  · rintro ⟨hlen, hp, hplus⟩
    have hdig := hp.digits hplus
    obtain ⟨hs, -, heq⟩ := digits_of_lower hl hdig
    rw [byteLen_hex64 hdig, heq, asciiLower, List.length_map] at hlen
    exact ⟨hlen, hs⟩

/-- **Exactly which texts are read as promised**: those that do not become, trimmed and lowercased,
64 bytes with a sign among the pairs or with a character cut by a slice behind them. -/
theorem acceptsExactly_iff (s : Str) : AcceptsExactly lower s ↔ ¬ Misread (lower (trim s)) := by
  rw [misread_iff]
  rcases parseHex32_cases lower s with ⟨hlen, hp, b, hb, hval⟩ | ⟨hlen, hcut, herr⟩ | ⟨hno, herr⟩
  · constructor
    · rintro h ⟨-, ⟨-, hplus⟩ | hcut⟩
      · exact ((isHex64_iff hl).1 (h.ok_iff.1 ⟨b, hb⟩)).2.2 hplus
      · exact hp.not_cutBehindPairs hcut
    · intro h
      have hplus : '+' ∉ lower (trim s) := fun hplus => h ⟨hlen, Or.inl ⟨hp, hplus⟩⟩
      have h64 : IsHex64 (trim s) := (isHex64_iff hl).2 ⟨hlen, hp, hplus⟩
      obtain ⟨-, hdig, heq⟩ := digits_of_lower hl (hp.digits hplus)
      refine ⟨⟨fun _ => h64, fun _ => ⟨b, hb⟩⟩, ?_, fun hn => absurd h64 hn, ?_, fun hn => absurd h64 hn⟩
      · intro b' hb'
        rw [hb, Except.ok.injEq] at hb'
        rw [← hb', hval hdig, heq]
      · intro k host port
        refine ⟨fun _ => h64, fun _ => ⟨k.insert (normalizeHost lower host, port) b, ?_⟩⟩
        rw [KnownHosts.insertHex, hb]
  · constructor
    · intro h
      exfalso
      by_cases h64 : IsHex64 (trim s)
      · exact ((isHex64_iff hl).1 h64).2.1.not_cutBehindPairs hcut
      · obtain ⟨t, ht⟩ := h.refused h64
        rw [herr] at ht
        cases ht
    · intro h
      exact absurd ⟨hlen, Or.inr hcut⟩ h
  · have h64 : ¬ IsHex64 (trim s) := fun h64 =>
      hno ⟨((isHex64_iff hl).1 h64).1, Or.inl ((isHex64_iff hl).1 h64).2.1⟩
    constructor
    · rintro - ⟨hlen, ⟨hp, -⟩ | hcut⟩
      · exact hno ⟨hlen, Or.inl hp⟩
      · exact hno ⟨hlen, Or.inr hcut⟩
    · intro _
      refine ⟨⟨?_, fun h => absurd h h64⟩, ?_, fun _ => ⟨_, herr⟩, ?_, fun _ k host port => ⟨lower (trim s), ?_⟩⟩
      · rintro ⟨b, hb⟩
        rw [herr] at hb
        cases hb
      · intro b hb
        rw [herr] at hb
        cases hb
      · intro k host port
        refine ⟨?_, fun h => absurd h h64⟩
        rintro ⟨k', hk'⟩
        rw [KnownHosts.insertHex, herr] at hk'
        cases hk'
      · rw [KnownHosts.insertHex, herr]

end HexLowercase

theorem hexLowercase_asciiLower : HexLowercase asciiLower := by
  intro s
  refine ⟨s.map fun c => [c.toLower], by induction s <;> simp_all [asciiLower], ?_⟩
  rw [List.forall₂_map_right_iff]
  apply List.forall₂_same.2
  intro c _
  refine ⟨fun _ => rfl, fun hc => ⟨by simp, ?_⟩⟩
  intro d hd hdig
  rw [List.mem_singleton.1 hd] at hdig
  have := isHexDigitAny_lt (toLower_digit hdig).1
  omega

/-- The fingerprint of the test `parse_line_uppercase_hex`, in upper case. -/
theorem acceptsExactly_upper : AcceptsExactly asciiLower (List.replicate 64 'B') := by
  refine (acceptsExactly_iff hexLowercase_asciiLower _).2 fun h => ?_
  have ht : asciiLower (trim (List.replicate 64 'B')) = List.replicate 64 'b' := by decide
  have hdig : ∀ c ∈ List.replicate 64 'b', IsHexDigitAny c := by
    intro c hc
    rw [List.eq_of_mem_replicate hc]
    exact Or.inl (Or.inr (by decide))
  rw [ht, misread_iff] at h
  rcases h.2 with ⟨-, hplus⟩ | hcut
  · exact absurd hplus (by decide)
  · exact (pairs_of_digits (n := 32) (by simp) hdig).not_cutBehindPairs hcut

/-- `+1` 32 times. -/
def plusOnes : Str := (List.replicate 32 ['+', '1']).flatten

/-- 32 signed digits are accepted. -/
theorem plusOnes_accepted : ¬ ∀ s, AcceptsExactly asciiLower s := by
  intro h
  have hok : parseHex32 asciiLower plusOnes = .ok ⟨List.replicate 32 1, by simp⟩ := by decide
  have hd := ((h plusOnes).ok_iff.1 ⟨_, hok⟩).2 '+' (by decide)
  exact absurd hd (by unfold IsHexDigitAny IsHexDigit; decide)

/-- 64 bytes, the second and the third of them one character. -/
example : parseHex32 asciiLower ('a' :: 'é' :: List.replicate 61 '0') = .error .panic := by decide

end Sao
