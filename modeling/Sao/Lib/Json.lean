import Sao.Lib.Text

/-!
# Flat JSON objects

Objects whose members are scalars, printed without whitespace, and a reader of what is printed.

* `readChars_escapeChar` — a string literal is read back.
* `parse_print`, `fromSlice_toVec` — an object is read back, with its members in order.
* `length_toVec_le` — how long the text of an object of strings can get.
-/

namespace Json

open Text

inductive Scalar where
  | null
  | bool (b : Bool)
  | num (n : Int)
  | str (s : Str)
deriving DecidableEq, Repr

/-- The members in the order in which they are printed. -/
abbrev Obj := List (Str × Scalar)

/-! ## Printing -/

def escapeChar (c : Char) : Str :=
  if c.toNat = 34 then "\\\"".toList
  else if c.toNat = 92 then "\\\\".toList
  else if c.toNat = 8 then "\\b".toList
  else if c.toNat = 9 then "\\t".toList
  else if c.toNat = 10 then "\\n".toList
  else if c.toNat = 12 then "\\f".toList
  else if c.toNat = 13 then "\\r".toList
  else if c.toNat < 32 then "\\u00".toList ++ hexByte (UInt8.ofNat c.toNat)
  else [c]

/-- The contents of a string literal with its closing quote. -/
def printChars (s : Str) : Str := s.flatMap escapeChar ++ "\"".toList

def printNum (n : Int) : Str :=
  if n < 0 then "-".toList ++ decimal n.natAbs else decimal n.natAbs

def Scalar.print : Scalar → Str
  | .null => "null".toList
  | .bool true => "true".toList
  | .bool false => "false".toList
  | .num n => printNum n
  | .str s => "\"".toList ++ printChars s

/-- `"key":value` -/
def printMember (m : Str × Scalar) : Str := "\"".toList ++ (printChars m.1 ++ (":".toList ++ m.2.print))

/-- The members with the closing brace. -/
def printMembers : Obj → Str
  | [] => "\x7d".toList
  | [m] => printMember m ++ "\x7d".toList
  | m :: o => printMember m ++ (",".toList ++ printMembers o)

def print (o : Obj) : Str := "\x7b".toList ++ printMembers o

def toVec (o : Obj) : Bytes := Bytes.utf8 (print o)

/-! ## Reading -/

/-- The character of a short escape. -/
def unescape (c : Char) : Option Char :=
  if c.toNat = 34 ∨ c.toNat = 92 ∨ c.toNat = 47 then some c
  else if c = 'b' then some (Char.ofNat 8)
  else if c = 't' then some (Char.ofNat 9)
  else if c = 'n' then some (Char.ofNat 10)
  else if c = 'f' then some (Char.ofNat 12)
  else if c = 'r' then some (Char.ofNat 13)
  else none

/-- The character of a `\\u` escape; surrogates are not characters. -/
def unescapeHex (ds : Str) : Option Char :=
  match fromStrRadix 16 65535 ds with
  | some n => if 0xD800 ≤ n ∧ n < 0xE000 then none else some (Char.ofNat n)
  | none => none

/-- Read a string literal behind its opening quote. -/
def readChars : Str → Option (Str × Str)
  | [] => none
  | c :: r =>
    if c.toNat = 34 then some ([], r)
    else if c.toNat = 92 then
      match r with
      | 'u' :: x :: y :: z :: w :: r =>
        match unescapeHex [x, y, z, w], readChars r with
        | some d, some (s, t) => some (d :: s, t)
        | _, _ => none
      | e :: r =>
        match unescape e, readChars r with
        | some d, some (s, t) => some (d :: s, t)
        | _, _ => none
      | [] => none
    else if c.toNat < 32 then none
    else
      match readChars r with
      | some (s, t) => some (c :: s, t)
      | none => none

/-- Read the digits of a number. -/
def readNat (s : Str) : Option (Nat × Str) :=
  match s.takeWhile Char.isDigit with
  | [] => none
  | ds => some (Nat.ofDigitChars 10 ds 0, s.dropWhile Char.isDigit)

def readScalar : Str → Option (Scalar × Str)
  | 'n' :: 'u' :: 'l' :: 'l' :: r => some (.null, r)
  | 't' :: 'r' :: 'u' :: 'e' :: r => some (.bool true, r)
  | 'f' :: 'a' :: 'l' :: 's' :: 'e' :: r => some (.bool false, r)
  | '-' :: r => (readNat r).map fun p => (.num (-p.1), p.2)
  | c :: r =>
    if c.toNat = 34 then (readChars r).map fun p => (.str p.1, p.2)
    else (readNat (c :: r)).map fun p => (.num p.1, p.2)
  | [] => none

def readMember : Str → Option ((Str × Scalar) × Str)
  | c :: r =>
    if c.toNat = 34 then
      match readChars r with
      | some (key, ':' :: r) => (readScalar r).map fun p => ((key, p.1), p.2)
      | _ => none
    else none
  | [] => none

/-- Read at most `n` members up to the closing brace, which ends the text. -/
def readMembers : Nat → Str → Option Obj
  | 0, _ => none
  | n + 1, s =>
    match readMember s with
    | some (m, ',' :: r) => (readMembers n r).map (m :: ·)
    | some (m, c :: []) => if c.toNat = 125 then some [m] else none
    | _ => none

def parse : Str → Option Obj
  | c :: r =>
    if c.toNat = 123 then
      match r with
      | [d] => if d.toNat = 125 then some [] else none
      | r => readMembers r.length r
    else none
  | [] => none

def fromSlice (b : Bytes) : Option Obj := (Bytes.fromUtf8 b).bind parse

/-! ## What is printed is read back -/

theorem unescapeHex_hexByte {c : Char} (h : c.toNat < 32) :
    unescapeHex ('0' :: '0' :: hexByte (UInt8.ofNat c.toNat)) = some c := by
  have key : ∀ n : Fin 32, unescapeHex ('0' :: '0' :: hexByte (UInt8.ofNat n.1)) = some (Char.ofNat n.1) := by
    decide +kernel
  rw [key ⟨c.toNat, h⟩, Char.ofNat_toNat]

section ReadChars

variable {s t r : Str}

theorem readChars_quote (r : Str) : readChars (Char.ofNat 34 :: r) = some ([], r) := by
  rw [readChars.eq_def]
  rfl

theorem readChars_short {e d : Char} (he : unescape e = some d) (hu : e ≠ 'u') (ih : readChars t = some (s, r)) :
    readChars (Char.ofNat 92 :: e :: t) = some (d :: s, r) := by
  rw [readChars.eq_def]
  simp only [show (Char.ofNat 92).toNat = 92 from rfl]
  rw [if_neg (by decide), if_pos trivial]
  split
  · rename_i h
    cases h
    exact absurd rfl hu
  · rename_i h
    cases h
    simp only [he, ih]
  · rename_i h
    cases h

theorem readChars_hex {x y z w d : Char} (hd : unescapeHex [x, y, z, w] = some d)
    (ih : readChars t = some (s, r)) :
    readChars (Char.ofNat 92 :: 'u' :: x :: y :: z :: w :: t) = some (d :: s, r) := by
  rw [readChars.eq_def]
  simp only [show (Char.ofNat 92).toNat = 92 from rfl]
  rw [if_neg (by decide), if_pos trivial]
  simp only [hd, ih]

theorem readChars_plain {c : Char} (h1 : c.toNat ≠ 34) (h2 : c.toNat ≠ 92) (h3 : ¬ c.toNat < 32)
    (ih : readChars t = some (s, r)) : readChars (c :: t) = some (c :: s, r) := by
  rw [readChars.eq_def]
  simp only [h1, h2, h3, if_false, ih]

/-- One character is read back. -/
theorem readChars_escapeChar (c : Char) (ih : readChars t = some (s, r)) :
    readChars (escapeChar c ++ t) = some (c :: s, r) := by
  -- the characters with a short escape, one by one
  have hshort : ∀ (n : Nat) (e : Char), c.toNat = n → unescape e = some (Char.ofNat n) → e ≠ 'u' →
      readChars (Char.ofNat 92 :: e :: t) = some (c :: s, r) := by
    rintro n e rfl he hu
    rw [Char.ofNat_toNat] at he
    exact readChars_short he hu ih
  unfold escapeChar
  split
  · rename_i h; exact hshort 34 _ h rfl (by decide)
  split
  · rename_i h; exact hshort 92 _ h rfl (by decide)
  split
  · rename_i h; exact hshort 8 _ h rfl (by decide)
  split
  · rename_i h; exact hshort 9 _ h rfl (by decide)
  split
  · rename_i h; exact hshort 10 _ h rfl (by decide)
  split
  · rename_i h; exact hshort 12 _ h rfl (by decide)
  split
  · rename_i h; exact hshort 13 _ h rfl (by decide)
  split
  · rename_i h
    exact readChars_hex (unescapeHex_hexByte h) ih
  · rename_i h1 h2 _ _ _ _ _ h3
    exact readChars_plain h1 h2 h3 ih

end ReadChars

theorem readChars_printChars (s r : Str) : readChars (printChars s ++ r) = some (s, r) := by
  induction s with
  | nil => exact readChars_quote r
  | cons c s ih =>
    have hs : printChars (c :: s) ++ r = escapeChar c ++ (printChars s ++ r) := by
      simp [printChars]
    rw [hs]
    exact readChars_escapeChar c ih

/-- What follows a scalar does not extend a number. -/
def EndsNumber (r : Str) : Prop := ∀ c, r.head? = some c → c.isDigit = false

theorem readNat_decimal (n : Nat) {r : Str} (hr : EndsNumber r) : readNat (decimal n ++ r) = some (n, r) := by
  have hd : ∀ c ∈ decimal n, c.isDigit = true := fun c hc => Nat.isDigit_of_mem_toDigits (by omega) (by omega) hc
  have htake : r.takeWhile Char.isDigit = [] ∧ r.dropWhile Char.isDigit = r := by
    cases r with
    | nil => exact ⟨rfl, rfl⟩
    | cons c r =>
      have hc := hr c rfl
      exact ⟨by rw [List.takeWhile_cons_of_neg (by simp [hc])], by rw [List.dropWhile_cons_of_neg (by simp [hc])]⟩
  have h1 : (decimal n ++ r).takeWhile Char.isDigit = decimal n := by
    rw [List.takeWhile_append_of_pos hd, htake.1, List.append_nil]
  have h2 : (decimal n ++ r).dropWhile Char.isDigit = r := by
    rw [List.dropWhile_append_of_pos hd, htake.2]
  unfold readNat
  rw [h1, h2]
  cases hdec : decimal n with
  | nil => exact absurd hdec Nat.toDigits_ne_nil
  | cons c s =>
    have hv : Nat.ofDigitChars 10 (decimal n) 0 = n := Nat.ofDigitChars_ten_toDigits
    rw [hdec] at hv
    simp only [hv]

/-- A number is none of the other scalars. -/
theorem readScalar_digit {c : Char} {s : Str} (hc : c.isDigit = true) :
    readScalar (c :: s) = (readNat (c :: s)).map fun p => (.num p.1, p.2) := by
  have hne : ∀ d : Char, d.isDigit = false → c ≠ d := by
    rintro d hd rfl
    rw [hc] at hd
    cases hd
  have hq : c.toNat ≠ 34 := by
    intro h
    have : c = Char.ofNat 34 := by rw [← h, Char.ofNat_toNat]
    exact hne _ (by decide) this
  rw [readScalar.eq_def]
  split
  · rename_i h; cases h; exact absurd rfl (hne 'n' (by decide))
  · rename_i h; cases h; exact absurd rfl (hne 't' (by decide))
  · rename_i h; cases h; exact absurd rfl (hne 'f' (by decide))
  · rename_i h; cases h; exact absurd rfl (hne '-' (by decide))
  · rename_i h; cases h; rw [if_neg hq]
  · rename_i h; cases h

theorem readScalar_print (v : Scalar) {r : Str} (hr : EndsNumber r) : readScalar (v.print ++ r) = some (v, r) := by
  cases v with
  | null => rfl
  | bool b => cases b <;> rfl
  | str s =>
    have h := readChars_printChars s r
    simp [Scalar.print, readScalar, h]
  | num n =>
    have hn := readNat_decimal n.natAbs hr
    simp only [Scalar.print, printNum]
    split
    · rename_i hneg
      have hint : -(n.natAbs : Int) = n := by omega
      have hd : "-".toList ++ decimal n.natAbs ++ r = '-' :: (decimal n.natAbs ++ r) := rfl
      rw [hd, readScalar, hn, Option.map_some, hint]
    · rename_i hneg
      have hint : (n.natAbs : Int) = n := by omega
      cases hdec : decimal n.natAbs with
      | nil => exact absurd hdec Nat.toDigits_ne_nil
      | cons c s =>
        have hc : c.isDigit = true :=
          Nat.isDigit_of_mem_toDigits (by omega) (by omega) (hdec ▸ List.mem_cons_self : c ∈ decimal n.natAbs)
        rw [List.cons_append, readScalar_digit hc, ← List.cons_append, ← hdec, hn,
          Option.map_some, hint]

theorem readMember_print (m : Str × Scalar) {r : Str} (hr : EndsNumber r) :
    readMember (printMember m ++ r) = some (m, r) := by
  have h1 := readChars_printChars m.1 (':' :: (m.2.print ++ r))
  have h2 := readScalar_print m.2 hr
  simp [printMember, readMember, h1, h2]

theorem readMembers_print {o : Obj} (ho : o ≠ []) {n : Nat} (hn : o.length ≤ n) :
    readMembers n (printMembers o) = some o := by
  induction o generalizing n with
  | nil => exact absurd rfl ho
  | cons m o ih =>
    obtain ⟨n, rfl⟩ : ∃ k, n = k + 1 := ⟨n - 1, by simp only [List.length_cons] at hn; omega⟩
    cases o with
    | nil =>
      have hr : EndsNumber "\x7d".toList := by
        rintro c h
        simp at h
        subst h
        decide
      simp only [printMembers, readMembers, readMember_print m hr]
      rfl
    | cons m' o =>
      have hr : EndsNumber (",".toList ++ printMembers (m' :: o)) := by
        rintro c h
        simp at h
        subst h
        decide
      have ih := ih (by simp) (by simpa using hn)
      simp only [printMembers, readMembers, readMember_print m hr]
      simp [ih]

theorem length_le_printMembers (o : Obj) : o.length ≤ (printMembers o).length := by
  induction o with
  | nil => simp
  | cons m o ih =>
    cases o with
    | nil => simp [printMembers]
    | cons m' o =>
      simp only [printMembers, List.length_append, List.length_cons] at ih ⊢
      simp
      omega

theorem parse_print (o : Obj) : parse (print o) = some o := by
  cases o with
  | nil => decide
  | cons m o =>
    have h := readMembers_print (show m :: o ≠ [] by simp) (length_le_printMembers (m :: o))
    have hlen : 2 ≤ (printMembers (m :: o)).length := by
      cases o <;> simp [printMembers, printMember, printChars] <;> omega
    have hp : parse (print (m :: o)) = readMembers (printMembers (m :: o)).length (printMembers (m :: o)) := by
      cases hr : printMembers (m :: o) with
      | nil => rw [hr] at hlen; simp at hlen
      | cons x r =>
        cases r with
        | nil => rw [hr] at hlen; simp at hlen
        | cons y r => rw [print, hr]; rfl
    rw [hp, h]

/-- **Round trip.** -/
theorem fromSlice_toVec (o : Obj) : fromSlice (toVec o) = some o := by
  rw [fromSlice, toVec, Bytes.fromUtf8_utf8, Option.bind_some, parse_print]

/-! ## Lengths -/

theorem length_utf8_escapeChar_le (c : Char) : (Bytes.utf8 (escapeChar c)).length ≤ 6 := by
  have hplain : (Bytes.utf8 [c]).length ≤ 4 := by
    rw [Bytes.utf8_cons, Bytes.utf8_nil, List.append_nil, String.length_utf8EncodeChar]
    exact Char.utf8Size_le_four c
  have hhex : ∀ n : Nat, n < 32 → (Bytes.utf8 ("\\u00".toList ++ hexByte (UInt8.ofNat n))).length = 6 := by
    decide +kernel
  unfold escapeChar
  iterate 7
    split
    · decide
  split
  · rename_i h
    exact (hhex _ h).le
  · omega

theorem length_utf8_printChars_le (s : Str) : (Bytes.utf8 (printChars s)).length ≤ 6 * s.length + 1 := by
  have key : (Bytes.utf8 (s.flatMap escapeChar)).length ≤ 6 * s.length := by
    induction s with
    | nil => simp
    | cons c s ih =>
      have := length_utf8_escapeChar_le c
      rw [List.flatMap_cons, Bytes.utf8_append, List.length_append, List.length_cons]
      omega
  rw [printChars, Bytes.utf8_append, List.length_append]
  exact Nat.add_le_add key (by decide)

theorem length_utf8_printMember_le {m : Str × Scalar} {n : Nat} (hk : m.1.length ≤ n) {s : Str} (hm : m.2 = .str s)
    (hs : s.length ≤ n) : (Bytes.utf8 (printMember m)).length ≤ 12 * n + 5 := by
  have h1 := length_utf8_printChars_le m.1
  have h2 := length_utf8_printChars_le s
  have hq : (Bytes.utf8 "\"".toList).length = 1 := by decide
  have hc : (Bytes.utf8 ":".toList).length = 1 := by decide
  simp only [printMember, hm, Scalar.print, Bytes.utf8_append, List.length_append, hq, hc]
  omega

/-- An object of strings is not long when its keys and strings are not. -/
theorem length_toVec_le {o : Obj} {n : Nat} (h : ∀ m ∈ o, m.1.length ≤ n ∧ ∃ s, m.2 = .str s ∧ s.length ≤ n) :
    (toVec o).length ≤ 2 + o.length * (12 * n + 6) := by
  have hb : (Bytes.utf8 "\x7d".toList).length = 1 := by decide
  have ho : (Bytes.utf8 "\x7b".toList).length = 1 := by decide
  have hc : (Bytes.utf8 ",".toList).length = 1 := by decide
  have key : (Bytes.utf8 (printMembers o)).length ≤ 1 + o.length * (12 * n + 6) := by
    induction o using printMembers.induct with
    | case1 =>
      rw [printMembers, hb]
      omega
    | case2 m =>
      obtain ⟨hk, s, hm, hs⟩ := h m List.mem_cons_self
      have := length_utf8_printMember_le hk hm hs
      rw [printMembers, Bytes.utf8_append, List.length_append, hb, List.length_singleton]
      omega
    | case3 m o hne ih =>
      obtain ⟨hk, s, hm, hs⟩ := h m List.mem_cons_self
      have := length_utf8_printMember_le hk hm hs
      have := ih fun m' hm' => h m' (List.mem_cons_of_mem _ hm')
      rw [printMembers, Bytes.utf8_append, Bytes.utf8_append, List.length_append, List.length_append, hc,
        List.length_cons, Nat.succ_mul]
      · omega
      · exact hne
  rw [toVec, print, Bytes.utf8_append, List.length_append, ho]
  omega

end Json
