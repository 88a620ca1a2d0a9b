import Mathlib.Data.List.DropRight
import Mathlib.Data.List.Forall2
import Mathlib.Tactic.IntervalCases
import Sao.Lib.Bytes

/-!
# Text functions of the Rust standard library

`str` is a list of scalar values; byte offsets are offsets in its UTF-8 encoding.

| here | there |
| --- | --- |
| `isWhitespace`               | `char::is_whitespace` (the Unicode `White_Space` property) |
| `trimMatches`, `trim`        | `str::trim_matches`, `str::trim` |
| `splitWhitespace`            | `str::split_whitespace`: the non-empty pieces between whitespace |
| `lines`                      | `str::lines`: split after `\n`, drop the `\n` or `\r\n` |
| `Skipped`                    | `line.is_empty() \|\| line.starts_with('#')` of the trimmed line |
| `splitFirst`                 | `s.find(pat)` with the slices before and behind the match |
| `sliceBytes`                 | `&s[a..b]`; `none` where the slice panics |
| `fromStrRadix`               | `u8::from_str_radix` and the like: a `+`, then digits, no overflow |
| `hexEncode`                  | `hex::encode` |
| `Lowercase`                  | what is relied on about `str::to_lowercase`, which needs Unicode tables |
-/

namespace Text

def isWhitespace (c : Char) : Bool :=
  let n := c.toNat
  (9 ≤ n && n ≤ 13) || n == 0x20 || n == 0x85 || n == 0xA0 || n == 0x1680 || (0x2000 ≤ n && n ≤ 0x200A) ||
    n == 0x2028 || n == 0x2029 || n == 0x202F || n == 0x205F || n == 0x3000

def trimMatches (p : Char → Bool) (s : Str) : Str := (s.dropWhile p).rdropWhile p

def trim (s : Str) : Str := trimMatches isWhitespace s

def splitWhitespace (s : Str) : List Str := (s.splitOnP isWhitespace).filter (· ≠ [])

/-- Split behind every `\n` (`split_inclusive`). -/
def splitInclusive : Str → List Str
  | [] => []
  | c :: cs =>
    if c = '\n' then [c] :: splitInclusive cs
    else match splitInclusive cs with
      | [] => [[c]]
      | l :: ls => (c :: l) :: ls

/-- Drop a final `\n`, and then a final `\r`. -/
def stripEol (l : Str) : Str :=
  if l.getLast? = some '\n' then
    if l.dropLast.getLast? = some '\r' then l.dropLast.dropLast else l.dropLast
  else l

def lines (s : Str) : List Str := (splitInclusive s).map stripEol

/-- The text before the first occurrence of `pat`, and the text behind it. -/
def splitFirst (pat : Str) : Str → Option (Str × Str)
  | [] => if pat = [] then some ([], []) else none
  | c :: s =>
    if pat.isPrefixOf (c :: s) then some ([], (c :: s).drop pat.length)
    else (splitFirst pat s).map fun p => (c :: p.1, p.2)

/-- The text before the last `c`, and the text behind it (`rsplit_once`). -/
def rsplitOnce (c : Char) : Str → Option (Str × Str)
  | [] => none
  | d :: s =>
    match rsplitOnce c s with
    | some p => some (d :: p.1, p.2)
    | none => if d = c then some ([], s) else none

/-- Split at a byte offset; `none` unless it is a character boundary. -/
def splitAtByte : Nat → Str → Option (Str × Str)
  | 0, s => some ([], s)
  | _ + 1, [] => none
  | n + 1, c :: s =>
    if c.utf8Size ≤ n + 1 then (splitAtByte (n + 1 - c.utf8Size) s).map fun p => (c :: p.1, p.2) else none

def sliceBytes (s : Str) (a b : Nat) : Option Str := do
  let (_, t) ← splitAtByte a s
  let (u, _) ← splitAtByte (b - a) t
  return u

/-- `str::len` -/
def byteLen (s : Str) : Nat := (s.map Char.utf8Size).sum

/-- `char::to_digit` -/
def toDigit (radix : Nat) (c : Char) : Option Nat :=
  let n := c.toNat
  let d := if 48 ≤ n ∧ n ≤ 57 then some (n - 48)
    else if 97 ≤ n ∧ n ≤ 122 then some (n - 87)
    else if 65 ≤ n ∧ n ≤ 90 then some (n - 55)
    else none
  d.filter (· < radix)

/-- The digit loop with its checked multiplication and addition. -/
def digitsValue (radix max : Nat) : Nat → Str → Option Nat
  | acc, [] => some acc
  | acc, c :: cs =>
    match toDigit radix c with
    | none => none
    | some d => if acc * radix + d > max then none else digitsValue radix max (acc * radix + d) cs

/-- `from_str_radix` of an unsigned type with maximum `max`. -/
def fromStrRadix (radix max : Nat) : Str → Option Nat
  | [] => none
  | ['+'] => none
  | ['-'] => none
  | '+' :: ds => digitsValue radix max 0 ds
  | ds => digitsValue radix max 0 ds

/-- `str::parse::<u16>` -/
def parseU16 (s : Str) : Option UInt16 := (fromStrRadix 10 65535 s).map UInt16.ofNat

/-- `{:02x}` of a byte. -/
def hexByte (b : UInt8) : Str := [Nat.digitChar (b.toNat / 16), Nat.digitChar (b.toNat % 16)]

def hexEncode (b : Bytes) : Str := b.flatMap hexByte

/-- `{}` of an unsigned number. -/
def decimal (n : Nat) : Str := Nat.toDigits 10 n

/-- A line that a reader of lines with `#` comments skips: trimmed it is empty, or a comment. -/
def Skipped (line : Str) : Prop := trim line = [] ∨ (trim line).head? = some '#'

instance (line : Str) : Decidable (Skipped line) := inferInstanceAs (Decidable (_ ∨ _))

/-! ## Trimming -/

theorem trimMatches_eq_self {p : Char → Bool} {s : Str} (h1 : ∀ c, s.head? = some c → p c = false)
    (h2 : ∀ c, s.getLast? = some c → p c = false) : trimMatches p s = s := by
  unfold trimMatches
  have hd : s.dropWhile p = s := by
    cases s with
    | nil => rfl
    | cons c s => simp [h1 c rfl]
  rw [hd, List.rdropWhile_eq_self_iff]
  intro hne
  rw [h2 _ (List.getLast?_eq_some_getLast hne)]
  simp

theorem trimMatches_head {p : Char → Bool} {s : Str} {c : Char}
    (h : (trimMatches p s).head? = some c) : p c = false := by
  unfold trimMatches at h
  obtain ⟨t, ht⟩ := List.rdropWhile_prefix p (s.dropWhile p)
  have hd : (s.dropWhile p).head? = some c := by rw [← ht, List.head?_append, h]; rfl
  have := List.head?_dropWhile_not p s
  rwa [hd] at this

theorem trimMatches_last {p : Char → Bool} {s : Str} {c : Char}
    (h : (trimMatches p s).getLast? = some c) : p c = false := by
  unfold trimMatches at h
  have hne : (s.dropWhile p).rdropWhile p ≠ [] := by intro h0; rw [h0] at h; simp at h
  have := List.rdropWhile_last_not p (s.dropWhile p) hne
  rw [List.getLast?_eq_some_getLast hne, Option.some.injEq] at h
  rw [h] at this
  simpa using this

theorem trimMatches_sublist (p : Char → Bool) (s : Str) : (trimMatches p s).Sublist s :=
  (List.rdropWhile_prefix p _).sublist.trans (List.dropWhile_sublist p)

theorem trim_of_noWhitespace {s : Str} (h : ∀ c ∈ s, isWhitespace c = false) : trim s = s :=
  trimMatches_eq_self (fun c hc => h c (List.mem_of_mem_head? hc)) (fun c hc => h c (List.mem_of_getLast? hc))

/-- The computable form, for closed texts. -/
theorem noWhitespace_of_all {s : Str} (h : s.all (fun c => !isWhitespace c) = true) : ∀ c ∈ s, isWhitespace c = false :=
  fun c hc => by simpa using List.all_eq_true.1 h c hc

/-! ## Tokens -/

theorem mem_splitOnP {p : Char → Bool} {s t : Str} (h : t ∈ s.splitOnP p) : ∀ c ∈ t, p c = false := by
  induction s generalizing t with
  | nil => simp only [List.splitOnP_nil, List.mem_singleton] at h; simp [h]
  | cons c s ih =>
    rw [List.splitOnP_cons_eq_if_modifyHead] at h
    split at h
    · rcases List.mem_cons.1 h with rfl | h
      · simp
      · exact ih h
    · rename_i hc
      cases hs : s.splitOnP p with
      | nil => exact absurd hs (List.splitOnP_ne_nil p s)
      | cons u us =>
        rw [hs] at h
        simp only [List.modifyHead_cons, List.mem_cons] at h
        rcases h with rfl | h
        · intro d hd
          rcases List.mem_cons.1 hd with rfl | hd
          · simpa using hc
          · exact ih (by rw [hs]; exact List.mem_cons_self) d hd
        · exact ih (by rw [hs]; exact List.mem_cons_of_mem _ h)

/-- A token is not empty and has no whitespace. -/
theorem mem_splitWhitespace {s t : Str} (h : t ∈ splitWhitespace s) : t ≠ [] ∧ ∀ c ∈ t, isWhitespace c = false := by
  simp only [splitWhitespace, ne_eq, decide_not, List.mem_filter, Bool.not_eq_eq_eq_not, Bool.not_true,
    decide_eq_false_iff_not] at h
  exact ⟨h.2, mem_splitOnP h.1⟩

theorem splitWhitespace_single {t : Str} (hne : t ≠ []) (h : ∀ c ∈ t, isWhitespace c = false) :
    splitWhitespace t = [t] := by
  simp [splitWhitespace, List.splitOnP_eq_singleton h, hne]

theorem splitWhitespace_cons {t s : Str} (hne : t ≠ []) (h : ∀ c ∈ t, isWhitespace c = false) :
    splitWhitespace (t ++ ' ' :: s) = t :: splitWhitespace s := by
  simp [splitWhitespace, List.splitOnP_append_cons_of_forall_mem h ' ' rfl, hne]

theorem splitWhitespace_append (s t : Str) {w : Char} (hw : isWhitespace w = true) :
    splitWhitespace (s ++ w :: t) = splitWhitespace s ++ splitWhitespace t := by
  simp [splitWhitespace, List.splitOnP_append_cons s t hw]

/-- Trimming takes no token away. -/
theorem splitWhitespace_trim (s : Str) : splitWhitespace (trim s) = splitWhitespace s := by
  have hleft : splitWhitespace (s.dropWhile isWhitespace) = splitWhitespace s := by
    induction s with
    | nil => rfl
    | cons c s ih =>
      rw [List.dropWhile_cons]
      split
      · rename_i hc
        rw [ih]
        exact (splitWhitespace_append [] s hc).symm
      · rfl
  have hright : ∀ t : Str, splitWhitespace (t.rdropWhile isWhitespace) = splitWhitespace t := by
    intro t
    induction t using List.reverseRecOn with
    | nil => rfl
    | append_singleton t c ih =>
      rw [List.rdropWhile_concat]
      split
      · rename_i hc
        rw [ih, splitWhitespace_append t [] hc]
        simp [splitWhitespace]
      · rfl
  rw [trim, trimMatches, hright, hleft]

/-- Trimming leaves a first character that is no whitespace. -/
theorem trim_cons {c : Char} (hc : isWhitespace c = false) (s : Str) : ∃ t, trim (c :: s) = c :: t := by
  have hd : (c :: s).dropWhile isWhitespace = c :: s := by simp [hc]
  have hp := List.rdropWhile_prefix isWhitespace (c :: s)
  cases hr : (c :: s).rdropWhile isWhitespace with
  | nil =>
    have := List.rdropWhile_eq_nil_iff.1 hr c List.mem_cons_self
    rw [hc] at this
    cases this
  | cons d t =>
    rw [hr] at hp
    obtain ⟨u, hu⟩ := hp
    rw [List.cons_append, List.cons.injEq] at hu
    exact ⟨t, by rw [trim, trimMatches, hd, hr, hu.1]⟩

/-! ## Lines -/

theorem splitInclusive_line {l : Str} (h : '\n' ∉ l) (s : Str) :
    splitInclusive (l ++ '\n' :: s) = (l ++ ['\n']) :: splitInclusive s := by
  induction l with
  | nil => simp [splitInclusive]
  | cons c l ih =>
    have hc : c ≠ '\n' := fun e => h (by simp [e])
    simp [splitInclusive, hc, ih fun hm => h (List.mem_cons_of_mem _ hm)]

theorem stripEol_line {l : Str} (h : l.getLast? ≠ some '\r') : stripEol (l ++ ['\n']) = l := by
  simp [stripEol, h]

/-- A line that ends in `\n`, and what `lines` makes of the rest. -/
theorem lines_cons {l : Str} (h : '\n' ∉ l) (hr : l.getLast? ≠ some '\r') (s : Str) :
    lines (l ++ '\n' :: s) = l :: lines s := by
  simp [lines, splitInclusive_line h, stripEol_line hr]

/-- Whole lines in front of a text. -/
theorem lines_flatMap_append {ls : List Str} (h : ∀ l ∈ ls, '\n' ∉ l ∧ l.getLast? ≠ some '\r') (s : Str) :
    lines (ls.flatMap (fun m => m ++ ['\n']) ++ s) = ls ++ lines s := by
  induction ls with
  | nil => rfl
  | cons l ls ih =>
    obtain ⟨h1, h2⟩ := h l List.mem_cons_self
    rw [List.flatMap_cons, List.append_assoc, List.append_assoc, List.singleton_append, lines_cons h1 h2,
      ih fun m hm => h m (List.mem_cons_of_mem _ hm), List.cons_append]

theorem flatten_splitInclusive (s : Str) : (splitInclusive s).flatten = s := by
  induction s with
  | nil => rfl
  | cons c s ih =>
    simp only [splitInclusive]
    by_cases hc : c = '\n'
    · rw [if_pos hc, List.flatten_cons, ih, hc]
      rfl
    · rw [if_neg hc]
      cases hs : splitInclusive s with
      | nil => rw [hs] at ih; simp [← ih]
      | cons l ls =>
        rw [hs] at ih
        simp only [List.flatten_cons] at ih ⊢
        rw [List.cons_append, ih]

/-- A line is a part of its text. -/
theorem infix_of_mem_lines {s l : Str} (h : l ∈ lines s) : l <:+: s := by
  obtain ⟨m, hm, rfl⟩ := List.mem_map.1 h
  have hstrip : stripEol m <+: m := by
    unfold stripEol
    split
    · split
      · exact (List.dropLast_prefix _).trans (List.dropLast_prefix _)
      · exact List.dropLast_prefix _
    · exact List.prefix_refl _
  have hm' : m <:+: (splitInclusive s).flatten := List.infix_of_mem_flatten hm
  rw [flatten_splitInclusive] at hm'
  exact hstrip.isInfix.trans hm'

/-- A text without a line break is one line, or none. -/
theorem lines_single {l : Str} (hne : l ≠ []) (h : '\n' ∉ l) : lines l = [l] := by
  have hs : splitInclusive l = [l] := by
    induction l with
    | nil => exact absurd rfl hne
    | cons c l ih =>
      have hc : c ≠ '\n' := fun e => h (by simp [e])
      by_cases hl : l = []
      · subst hl
        simp [splitInclusive, hc]
      · simp [splitInclusive, hc, ih hl fun hm => h (List.mem_cons_of_mem _ hm)]
  have hlast : l.getLast? ≠ some '\n' := fun e => h (List.mem_of_getLast? e)
  simp [lines, hs, stripEol, hlast]

/-- A first line, and what ends it. -/
theorem lines_eq_cons {s l : Str} {ls : List Str} (h : lines s = l :: ls) :
    (s = l ∧ ls = []) ∨ ∃ eol t, (eol = ['\n'] ∨ eol = ['\r', '\n']) ∧ s = l ++ eol ++ t ∧ lines t = ls ∧
      ∀ t', lines (l ++ eol ++ t') = l :: lines t' := by
  by_cases hn : '\n' ∈ s
  · obtain ⟨m, t, rfl, hm⟩ := List.eq_append_cons_of_mem hn
    rw [lines, splitInclusive_line hm, List.map_cons, List.cons.injEq] at h
    obtain ⟨hl, ht⟩ := h
    by_cases hr : m.getLast? = some '\r'
    · obtain ⟨m', rfl⟩ := List.getLast?_eq_some_iff.1 hr
      have hstrip : ∀ t', lines (m' ++ ['\r', '\n'] ++ t') = m' :: lines t' := by
        intro t'
        rw [show m' ++ ['\r', '\n'] ++ t' = (m' ++ ['\r']) ++ '\n' :: t' by simp, lines, splitInclusive_line hm]
        simp [stripEol, lines]
      have hl' : m' = l := by
        rw [← hl]
        simp [stripEol]
      subst hl'
      exact Or.inr ⟨['\r', '\n'], t, Or.inr rfl, by simp, ht, hstrip⟩
    · rw [stripEol_line hr] at hl
      subst hl
      refine Or.inr ⟨['\n'], t, Or.inl rfl, by simp, ht, fun t' => ?_⟩
      rw [List.append_assoc]
      exact lines_cons hm hr t'
  · cases s with
    | nil => cases h
    | cons c s =>
      rw [lines_single (List.cons_ne_nil _ _) hn, List.cons.injEq] at h
      exact Or.inl ⟨h.1, h.2.symm⟩

/-! ## Finding a text -/

/-- The first occurrence is where none begins before. -/
theorem splitFirst_append {pat a : Str} (hpat : pat ≠ [])
    (h : ∀ p c t, a = p ++ c :: t → ∀ r, ¬ pat <+: c :: t ++ pat ++ r) (r : Str) :
    splitFirst pat (a ++ pat ++ r) = some (a, r) := by
  induction a with
  | nil =>
    cases hp : pat with
    | nil => exact absurd hp hpat
    | cons d pat' =>
      have hd : (d :: pat').isPrefixOf (d :: (pat' ++ r)) = true :=
        List.isPrefixOf_iff_prefix.2 ⟨r, rfl⟩
      rw [List.nil_append, List.cons_append, splitFirst, if_pos hd, ← List.cons_append, List.drop_left]
  | cons c a ih =>
    have hno : pat.isPrefixOf (c :: (a ++ pat ++ r)) ≠ true := fun hp =>
      h [] c a rfl r (List.isPrefixOf_iff_prefix.1 hp)
    rw [List.cons_append, List.cons_append, splitFirst, if_neg hno,
      ih fun p d t ha => h (c :: p) d t (by rw [ha, List.cons_append])]
    rfl

theorem splitFirst_of_start {pat : Str} (hpat : pat ≠ []) (r : Str) : splitFirst pat (pat ++ r) = some ([], r) := by
  have h := splitFirst_append (a := []) hpat (fun p c t ha => by simp at ha) r
  rwa [List.nil_append] at h

/-- What is found lies behind a text in which no occurrence begins. -/
theorem splitFirst_skip {pat a r : Str} (h : ∀ p c t, a = p ++ c :: t → ¬ pat <+: c :: t ++ r) :
    splitFirst pat (a ++ r) = (splitFirst pat r).map fun p => (a ++ p.1, p.2) := by
  induction a with
  | nil => simp
  | cons c a ih =>
    have hno : pat.isPrefixOf (c :: (a ++ r)) ≠ true := fun hp => h [] c a rfl (List.isPrefixOf_iff_prefix.1 hp)
    rw [List.cons_append, splitFirst, if_neg hno, ih fun p d t ha => h (c :: p) d t (by rw [ha, List.cons_append]),
      Option.map_map]
    rfl

/-- An occurrence in front of characters that it does not have. -/
theorem infix_of_infix_append {pat l e : Str} (hpat : pat ≠ []) (he : ∀ c ∈ e, c ∉ pat) (h : pat <:+: l ++ e) :
    pat <:+: l := by
  obtain ⟨p, q, hpq⟩ := h
  rcases List.append_eq_append_iff.1 hpq with ⟨x, rfl, -⟩ | ⟨x, hx, rfl⟩
  · exact ⟨p, x, rfl⟩
  · rcases x.eq_nil_or_concat with rfl | ⟨x, c, rfl⟩
    · rw [List.append_nil] at hx
      exact ⟨p, [], by rw [List.append_nil, hx]⟩
    · have hlast := congrArg List.getLast? hx
      rw [List.getLast?_append_of_ne_nil _ hpat, List.concat_eq_append, ← List.append_assoc, List.getLast?_concat] at hlast
      exact absurd (List.mem_of_getLast? hlast) (he c (by simp))

/-- A line of the text, with no line in front of it that has an occurrence. -/
theorem splitFirst_line {pat s : Str} {before after : List Str} (hpat : pat ≠ []) (hn : '\n' ∉ pat) (hr : '\r' ∉ pat)
    (h : lines s = before ++ pat :: after) (hbefore : ∀ l ∈ before, ¬ pat <:+: l) :
    ∃ a r, splitFirst pat s = some (a, r) ∧ lines a = before ∧ (after ≠ [] → lines r = [] :: after) := by
  induction before generalizing s with
  | nil =>
    rcases lines_eq_cons h with ⟨rfl, rfl⟩ | ⟨eol, t, heol, rfl, ht, -⟩
    · refine ⟨[], [], ?_, rfl, fun h => absurd rfl h⟩
      have h := splitFirst_of_start hpat []
      rwa [List.append_nil] at h
    · refine ⟨[], eol ++ t, ?_, rfl, fun _ => ?_⟩
      · rw [List.append_assoc]
        exact splitFirst_of_start hpat (eol ++ t)
      · rw [← ht]
        rcases heol with rfl | rfl
        · exact lines_cons (l := []) (by simp) (by simp) t
        · exact congrArg (List.map stripEol) (splitInclusive_line (l := ['\r']) (by decide) t)
  | cons l before ih =>
    rcases lines_eq_cons h with ⟨-, hnil⟩ | ⟨eol, t, heol, rfl, ht, hlines⟩
    · simp at hnil
    · obtain ⟨a, r, ha, rfl, hrest⟩ := ih ht fun m hm => hbefore m (List.mem_cons_of_mem _ hm)
      refine ⟨l ++ eol ++ a, r, ?_, hlines a, hrest⟩
      have heol' : ∀ d ∈ eol, d ∉ pat := by
        rcases heol with rfl | rfl
        · simpa using hn
        · simpa using ⟨hr, hn⟩
      -- An occurrence that began in the line would reach its end, which it has not.
      have hskip : ∀ p c u, l ++ eol = p ++ c :: u → ¬ pat <+: c :: u ++ t := by
        intro p c u hsplit hp
        obtain ⟨e, d, he⟩ : ∃ e d, eol = e ++ [d] := by
          rcases heol with rfl | rfl
          · exact ⟨[], '\n', rfl⟩
          · exact ⟨['\r'], '\n', rfl⟩
        rcases List.prefix_or_prefix_of_prefix hp (List.prefix_append (c :: u) t) with hin | hover
        · have hinfix : pat <:+: l ++ eol := hsplit ▸ hin.isInfix.trans (List.suffix_append p (c :: u)).isInfix
          exact hbefore l List.mem_cons_self (infix_of_infix_append hpat heol' hinfix)
        · have hlast := congrArg List.getLast? hsplit
          rw [he, ← List.append_assoc, List.getLast?_concat, List.getLast?_append_of_ne_nil _ (by simp)] at hlast
          exact heol' d (by simp [he]) (hover.subset (List.mem_of_getLast? hlast.symm))
      rw [splitFirst_skip hskip, ha]
      rfl

/-- `pat` stands in `s` between `a` and `r`, and begins nowhere in `a`. -/
def FirstOccurs (pat s a r : Str) : Prop :=
  s = a ++ pat ++ r ∧ ∀ p c t, a = p ++ c :: t → ¬ pat <+: c :: t ++ pat ++ r

/-- What is found is the first occurrence. -/
theorem splitFirst_some {pat s a r : Str} (h : splitFirst pat s = some (a, r)) : FirstOccurs pat s a r := by
  induction s generalizing a with
  | nil =>
    rw [splitFirst] at h
    split at h
    · rename_i hpat
      cases h
      exact ⟨by rw [hpat]; rfl, fun p c t ha => by simp at ha⟩
    · cases h
  | cons d s ih =>
    rw [splitFirst] at h
    split at h
    · rename_i hpre
      cases h
      obtain ⟨r, hr⟩ := List.isPrefixOf_iff_prefix.1 hpre
      exact ⟨by rw [List.nil_append, ← hr, List.drop_left], fun p c t ha => by simp at ha⟩
    · rename_i hpre
      obtain ⟨⟨a', r'⟩, hs, heq⟩ := Option.map_eq_some_iff.1 h
      cases heq
      obtain ⟨rfl, hfirst⟩ := ih hs
      refine ⟨rfl, fun p c t ha hp => ?_⟩
      cases p with
      | nil =>
        cases ha
        exact hpre (List.isPrefixOf_iff_prefix.2 hp)
      | cons e p =>
        rw [List.cons_append, List.cons.injEq] at ha
        exact hfirst p c t ha.2 hp

theorem splitFirst_eq_some {pat s a r : Str} (hpat : pat ≠ []) :
    splitFirst pat s = some (a, r) ↔ FirstOccurs pat s a r := by
  refine ⟨splitFirst_some, ?_⟩
  rintro ⟨rfl, hfirst⟩
  rw [List.append_assoc, splitFirst_skip fun p c t ha => by rw [← List.append_assoc]; exact hfirst p c t ha,
    splitFirst_of_start hpat]
  simp

theorem rsplitOnce_eq_none {c : Char} {s : Str} : rsplitOnce c s = none ↔ c ∉ s := by
  induction s with
  | nil => simp [rsplitOnce]
  | cons d s ih =>
    rw [rsplitOnce, List.mem_cons, not_or, ← ih]
    cases rsplitOnce c s with
    | some p => simp
    | none => simp [eq_comm]

/-- **Splitting at the last `c`.** -/
theorem rsplitOnce_eq_some {c : Char} {s a b : Str} : rsplitOnce c s = some (a, b) ↔ s = a ++ c :: b ∧ c ∉ b := by
  constructor
  · intro h
    induction s generalizing a with
    | nil => cases h
    | cons d s ih =>
      rw [rsplitOnce] at h
      split at h
      · rename_i p hp
        cases h
        obtain ⟨rfl, hb⟩ := ih hp
        exact ⟨rfl, hb⟩
      · rename_i hnone
        split at h
        · rename_i hd
          cases h
          exact ⟨by rw [hd]; rfl, rsplitOnce_eq_none.1 hnone⟩
        · cases h
  · rintro ⟨rfl, hb⟩
    induction a with
    | nil =>
      rw [List.nil_append, rsplitOnce, rsplitOnce_eq_none.2 hb]
      exact if_pos rfl
    | cons d a ih => rw [List.cons_append, rsplitOnce, ih]

/-! ## Numbers -/

theorem toDigit_digitChar {radix d : Nat} (hr : radix ≤ 16) (hd : d < radix) :
    toDigit radix (Nat.digitChar d) = some d := by
  have h16 : d < 16 := by omega
  interval_cases d <;> simp [toDigit, Nat.digitChar] <;> omega

/-- A digit below ten is neither sign. -/
theorem digitChar_ne_sign {d : Nat} (hd : d < 16) : Nat.digitChar d ≠ '+' ∧ Nat.digitChar d ≠ '-' := by
  interval_cases d <;> decide

theorem digitsValue_append (radix max acc : Nat) (s t : Str) :
    digitsValue radix max acc (s ++ t) = (digitsValue radix max acc s).bind fun v => digitsValue radix max v t := by
  induction s generalizing acc with
  | nil => rfl
  | cons c s ih =>
    simp only [List.cons_append, digitsValue]
    cases toDigit radix c with
    | none => rfl
    | some d =>
      simp only
      split
      · rfl
      · exact ih _

theorem digitsValue_toDigits {max : Nat} (n : Nat) (h : n ≤ max) :
    digitsValue 10 max 0 (Nat.toDigits 10 n) = some n := by
  induction n using Nat.strongRecOn with
  | _ n ih =>
  rw [Nat.toDigits_eq_if (by omega)]
  split
  · rename_i hn
    simp only [digitsValue, toDigit_digitChar (show 10 ≤ 16 by omega) hn]
    rw [if_neg (by omega)]
    simp
  · have hq : n / 10 < n := by omega
    have hd : n % 10 < 10 := by omega
    rw [digitsValue_append, ih (n / 10) hq (by omega)]
    simp only [Option.bind_some, digitsValue, toDigit_digitChar (show 10 ≤ 16 by omega) hd]
    rw [if_neg (by omega)]
    congr 1
    omega

/-- Without a sign, `from_str_radix` is the digit loop. -/
theorem fromStrRadix_eq {radix max : Nat} {c : Char} {s : Str} (hp : c ≠ '+') (hm : c ≠ '-') :
    fromStrRadix radix max (c :: s) = digitsValue radix max 0 (c :: s) := by
  rw [fromStrRadix.eq_def]
  split <;> simp_all

/-- **A printed port parses back.** -/
theorem parseU16_decimal (p : UInt16) : parseU16 (decimal p.toNat) = some p := by
  have hp : p.toNat < 65536 := p.toNat_lt
  have hv : digitsValue 10 65535 0 (Nat.toDigits 10 p.toNat) = some p.toNat :=
    digitsValue_toDigits p.toNat (by omega)
  have hr : fromStrRadix 10 65535 (Nat.toDigits 10 p.toNat) = some p.toNat := by
    cases hd : Nat.toDigits 10 p.toNat with
    | nil => exact absurd hd Nat.toDigits_ne_nil
    | cons c s =>
      have hc : c.isDigit = true :=
        Nat.isDigit_of_mem_toDigits (b := 10) (by omega) (by omega) (by rw [hd]; exact List.mem_cons_self)
      rw [fromStrRadix_eq (by rintro rfl; exact absurd hc (by decide)) (by rintro rfl; exact absurd hc (by decide)),
        ← hd, hv]
  rw [parseU16, decimal, hr]
  simp

/-- A text that parses as a number has digits only, but for a sign in front. -/
theorem digitsValue_digits {radix max acc v : Nat} {s : Str} (h : digitsValue radix max acc s = some v) :
    ∀ c ∈ s, toDigit radix c ≠ none := by
  induction s generalizing acc with
  | nil => nofun
  | cons c s ih =>
    rw [digitsValue] at h
    split at h
    · cases h
    · rename_i d hd
      split at h
      · cases h
      · exact List.forall_mem_cons.2 ⟨by rw [hd]; exact Option.some_ne_none d, ih h⟩

theorem fromStrRadix_digits {radix max v : Nat} {s : Str} (h : fromStrRadix radix max s = some v) :
    ∀ c ∈ s, c = '+' ∨ toDigit radix c ≠ none := by
  intro c hc
  rw [fromStrRadix.eq_def] at h
  split at h
  · cases h
  · cases h
  · cases h
  · rcases List.mem_cons.1 hc with hc | hc
    · exact Or.inl hc
    · exact Or.inr (digitsValue_digits h c hc)
  · exact Or.inr (digitsValue_digits h c hc)

theorem decimal_digit {n : Nat} {c : Char} (h : c ∈ decimal n) : 48 ≤ c.toNat ∧ c.toNat ≤ 57 := by
  have hc : c.isDigit = true := Nat.isDigit_of_mem_toDigits (b := 10) (by omega) (by omega) h
  simp only [Char.isDigit, Bool.and_eq_true, decide_eq_true_eq, UInt32.le_iff_toNat_le] at hc
  exact hc

/-! ## Hexadecimal -/

/-- **Two hex digits parse back to their byte.** -/
theorem fromStrRadix_hexByte (b : UInt8) : fromStrRadix 16 255 (hexByte b) = some b.toNat := by
  have hb := b.toNat_lt
  have hh : b.toNat / 16 < 16 := by omega
  have hl : b.toNat % 16 < 16 := by omega
  have hs := digitChar_ne_sign hh
  rw [hexByte, fromStrRadix_eq hs.1 hs.2]
  simp only [digitsValue, toDigit_digitChar (Nat.le_refl 16) hh, toDigit_digitChar (Nat.le_refl 16) hl]
  rw [if_neg (by omega), if_neg (by omega)]
  congr 1
  omega

/-- A lower-case hexadecimal digit. -/
def IsHexDigit (c : Char) : Prop := (48 ≤ c.toNat ∧ c.toNat ≤ 57) ∨ (97 ≤ c.toNat ∧ c.toNat ≤ 102)

theorem isHexDigit_digitChar {d : Nat} (hd : d < 16) : IsHexDigit (Nat.digitChar d) := by
  unfold IsHexDigit
  interval_cases d <;> decide

theorem mem_hexEncode {b : Bytes} {c : Char} (h : c ∈ hexEncode b) : IsHexDigit c := by
  simp only [hexEncode, List.mem_flatMap, hexByte, List.mem_cons, List.not_mem_nil, or_false] at h
  obtain ⟨x, -, rfl | rfl⟩ := h
  · exact isHexDigit_digitChar (by have := x.toNat_lt; omega)
  · exact isHexDigit_digitChar (by omega)

theorem length_hexEncode (b : Bytes) : (hexEncode b).length = 2 * b.length := by
  induction b with
  | nil => rfl
  | cons x b ih =>
    have : hexEncode (x :: b) = hexByte x ++ hexEncode b := rfl
    rw [this, List.length_append, ih, hexByte, List.length_cons, List.length_cons, List.length_cons, List.length_nil]
    omega

/-- The `i`-th pair of digits. -/
theorem hexEncode_pair (b : Bytes) {i : Nat} (hi : i < b.length) :
    ((hexEncode b).drop (2 * i)).take 2 = hexByte b[i] := by
  induction b generalizing i with
  | nil => simp at hi
  | cons x b ih =>
    have hx : hexEncode (x :: b) = hexByte x ++ hexEncode b := rfl
    cases i with
    | zero => rw [hx]; rfl
    | succ i =>
      have h2 : 2 * (i + 1) = 2 * i + 2 := by omega
      rw [hx, h2, hexByte]
      simpa using ih (by simpa using hi)

theorem not_isWhitespace_of_hex {c : Char} (h : IsHexDigit c) : isWhitespace c = false := by
  simp only [isWhitespace, Bool.or_eq_false_iff, Bool.and_eq_false_iff, decide_eq_false_iff_not,
    beq_eq_false_iff_ne]
  rcases h with h | h <;> omega

theorem not_isWhitespace_of_decimal {n : Nat} {c : Char} (h : c ∈ decimal n) : isWhitespace c = false :=
  not_isWhitespace_of_hex (Or.inl (decimal_digit h))

theorem hexByte_injective : Function.Injective hexByte := by
  intro a b h
  have ha := fromStrRadix_hexByte a
  rw [h, fromStrRadix_hexByte b, Option.some.injEq] at ha
  exact UInt8.toNat_inj.1 ha.symm

theorem hexEncode_injective {a b : Bytes} (h : hexEncode a = hexEncode b) : a = b := by
  induction a generalizing b with
  | nil =>
    cases b with
    | nil => rfl
    | cons y b => cases h
  | cons x a ih =>
    cases b with
    | nil => cases h
    | cons y b =>
      have hxy := List.append_inj (show hexByte x ++ hexEncode a = hexByte y ++ hexEncode b from h) rfl
      rw [hexByte_injective hxy.1, ih hxy.2]

/-! ## Byte offsets in ASCII text -/

def IsAscii (s : Str) : Prop := ∀ c ∈ s, c.toNat < 128

theorem utf8Size_ascii {c : Char} (h : c.toNat < 128) : c.utf8Size = 1 := by
  have hv : c.val ≤ 0x7F := UInt32.le_iff_toNat_le.2 (show c.toNat ≤ 127 by omega)
  simp [Char.utf8Size, hv]

theorem byteLen_ascii {s : Str} (h : IsAscii s) : byteLen s = s.length := by
  induction s with
  | nil => rfl
  | cons c s ih =>
    have ih := ih fun d hd => h d (List.mem_cons_of_mem _ hd)
    simp only [byteLen, List.map_cons, List.sum_cons, List.length_cons] at ih ⊢
    rw [utf8Size_ascii (h c List.mem_cons_self), ih, Nat.add_comm]

theorem splitAtByte_ascii {s : Str} (h : IsAscii s) {n : Nat} (hn : n ≤ s.length) :
    splitAtByte n s = some (s.take n, s.drop n) := by
  induction s generalizing n with
  | nil =>
    have h0 : n = 0 := by simpa using hn
    subst h0
    rfl
  | cons c s ih =>
    cases n with
    | zero => rfl
    | succ n =>
      simp only [splitAtByte, utf8Size_ascii (h c List.mem_cons_self)]
      rw [if_pos (by omega), show n + 1 - 1 = n by omega,
        ih (fun d hd => h d (List.mem_cons_of_mem _ hd)) (by simpa using hn)]
      rfl

theorem sliceBytes_ascii {s : Str} (h : IsAscii s) {a n : Nat} (hn : a + n ≤ s.length) :
    sliceBytes s a (a + n) = some ((s.drop a).take n) := by
  have hd : IsAscii (s.drop a) := fun c hc => h c (List.mem_of_mem_drop hc)
  have h1 := splitAtByte_ascii h (show a ≤ s.length by omega)
  have h2 := splitAtByte_ascii hd (show n ≤ (s.drop a).length by rw [List.length_drop]; omega)
  simp only [sliceBytes, bind, Option.bind, h1, show a + n - a = n by omega, h2, pure]

theorem isAscii_hexEncode (b : Bytes) : IsAscii (hexEncode b) := by
  intro c hc
  rcases mem_hexEncode hc with h | h <;> omega

/-! ## `str::to_lowercase` -/

/-- Characters lowercasing leaves alone and never introduces: whitespace, `#` and the brackets. -/
def isMark (c : Char) : Bool := isWhitespace c || c == '#' || c == '[' || c == ']'

/-- What is relied on about `str::to_lowercase`. Each character becomes a non-empty string, and
those that have no lower-case mapping become themselves: the marks, which no other character
maps to, digits, and letters that are lower case. -/
structure Lowercase (lower : Str → Str) : Prop where
  idem : ∀ s, lower (lower s) = lower s
  pieces : ∀ s, ∃ ps : List Str, lower s = ps.flatten ∧
    List.Forall₂ (fun c p => p ≠ [] ∧ (∀ d ∈ p, isMark d = true → c = d ∧ p = [d]) ∧
      (isMark c = true ∨ IsHexDigit c → p = [c])) s ps

/-- Lowercasing of ASCII text. -/
def asciiLower (s : Str) : Str := s.map Char.toLower

section Lowercase

variable {lower : Str → Str}

theorem Lowercase.mark_mem (hl : Lowercase lower) {s : Str} {d : Char} (h : d ∈ lower s)
    (hd : isMark d = true) : d ∈ s := by
  obtain ⟨ps, hs, hp⟩ := hl.pieces s
  rw [hs, List.mem_flatten] at h
  obtain ⟨p, hps, hdp⟩ := h
  clear hs
  induction hp with
  | nil => simp at hps
  | cons hcp _ ih =>
    rcases List.mem_cons.1 hps with rfl | hps
    · rw [(hcp.2.1 d hdp hd).1]; exact List.mem_cons_self
    · exact List.mem_cons_of_mem _ (ih hps)

theorem Lowercase.head_mark (hl : Lowercase lower) {s : Str} {d : Char} (h : (lower s).head? = some d)
    (hd : isMark d = true) : s.head? = some d := by
  obtain ⟨ps, hs, hp⟩ := hl.pieces s
  cases hp with
  | nil => rw [hs] at h; simp at h
  | @cons c p s ps hcp htl =>
    obtain ⟨hne, hm, -⟩ := hcp
    cases p with
    | nil => exact absurd rfl hne
    | cons x p =>
      rw [hs, List.flatten_cons] at h
      simp only [List.cons_append, List.head?_cons, Option.some.injEq] at h
      subst h
      rw [List.head?_cons, (hm x List.mem_cons_self hd).1]

theorem Lowercase.last_mark (hl : Lowercase lower) {s : Str} {d : Char} (h : (lower s).getLast? = some d)
    (hd : isMark d = true) : s.getLast? = some d := by
  obtain ⟨ps, hs, hp⟩ := hl.pieces s
  rw [hs] at h
  clear hs
  induction hp with
  | nil => simp at h
  | @cons c p s ps hcp htl ih =>
    cases htl with
    | nil =>
      have hdp : d ∈ p := List.mem_of_getLast? (by simpa using h)
      rw [(hcp.2.1 d hdp hd).1]
      rfl
    | @cons c' p' s' ps' hcp' htl' =>
      have hne : (p' :: ps').flatten ≠ [] := by
        have := hcp'.1
        simp [this]
      rw [List.flatten_cons, List.getLast?_append_of_ne_nil _ hne] at h
      rw [List.getLast?_cons_cons]
      exact ih h

/-- Text of lower-case hex digits is left alone. -/
theorem Lowercase.hex (hl : Lowercase lower) {s : Str} (h : ∀ c ∈ s, IsHexDigit c) : lower s = s := by
  obtain ⟨ps, hs, hp⟩ := hl.pieces s
  rw [hs]
  clear hs
  induction hp with
  | nil => rfl
  | cons hcp _ ih =>
    rw [List.flatten_cons, hcp.2.2 (Or.inr (h _ List.mem_cons_self)),
      ih fun c hc => h c (List.mem_cons_of_mem _ hc)]
    rfl

end Lowercase

theorem toLower_cases (c : Char) : c.toLower = c ∨ (65 ≤ c.toNat ∧ c.toNat ≤ 90 ∧ c.toLower.toNat = c.toNat + 32) := by
  unfold Char.toLower
  split
  · rename_i h
    right
    simp only [ge_iff_le, UInt32.le_iff_toNat_le] at h
    refine ⟨h.1, h.2, ?_⟩
    have h1 : c.val.toNat = c.toNat := rfl
    have h65 : ('A'.val).toNat = 65 := rfl
    have h90 : ('Z'.val).toNat = 90 := rfl
    show (c.val + 32).toNat = c.toNat + 32
    rw [UInt32.toNat_add, h1]
    have : (32 : UInt32).toNat = 32 := rfl
    omega
  · left; rfl

theorem isMark_lt {c : Char} (h1 : 97 ≤ c.toNat) (h2 : c.toNat ≤ 122) : isMark c = false := by
  have hne : ∀ d : Char, d.toNat < 97 → (c == d) = false := by
    intro d hd
    simp only [beq_eq_false_iff_ne, ne_eq]
    rintro rfl
    omega
  simp only [isMark, isWhitespace, hne '#' (by decide), hne '[' (by decide), hne ']' (by decide), Bool.or_false]
  simp only [Bool.or_eq_false_iff, Bool.and_eq_false_iff, decide_eq_false_iff_not, beq_eq_false_iff_ne]
  omega

theorem lowercase_asciiLower : Lowercase asciiLower where
  idem s := by
    simp only [asciiLower, List.map_map]
    apply List.map_congr_left
    intro c _
    rcases toLower_cases c with h | ⟨h1, h2, h3⟩
    · simp [h]
    · rcases toLower_cases c.toLower with h' | ⟨h4, h5, h6⟩
      · exact h'
      · omega
  pieces s := by
    refine ⟨s.map fun c => [c.toLower], by induction s <;> simp_all [asciiLower], ?_⟩
    rw [List.forall₂_map_right_iff]
    apply List.forall₂_same.2
    intro c _
    refine ⟨by simp, ?_, ?_⟩
    · intro d hd hm
      simp only [List.mem_singleton] at hd
      subst hd
      rcases toLower_cases c with h | ⟨h1, h2, h3⟩
      · exact ⟨h.symm, rfl⟩
      · rw [isMark_lt (by omega) (by omega)] at hm
        cases hm
    · intro hc
      rcases toLower_cases c with h | ⟨h1, h2, h3⟩
      · rw [h]
      · exfalso
        rcases hc with hm | h | h
        · have hr : isMark c = false := by
            have hne : ∀ d : Char, (d.toNat < 65 ∨ 90 < d.toNat) → (c == d) = false := by
              intro d hd
              simp only [beq_eq_false_iff_ne, ne_eq]
              rintro rfl
              omega
            simp only [isMark, isWhitespace, hne '#' (by decide), hne '[' (by decide), hne ']' (by decide),
              Bool.or_false]
            simp only [Bool.or_eq_false_iff, Bool.and_eq_false_iff, decide_eq_false_iff_not, beq_eq_false_iff_ne]
            omega
          rw [hr] at hm
          cases hm
        · omega
        · omega

end Text
