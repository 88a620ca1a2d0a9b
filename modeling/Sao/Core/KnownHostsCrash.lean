import Sao.Core.KnownHostsFile

/-!
# What an interrupted `save` leaves behind

`save` ends in `fs::write`, which truncates the file and then writes the new text. A stop in between
leaves the first bytes of that text.

* `loadCut` — what a reload makes of a file of entries cut after some bytes: the entries whose lines
  are whole, or an error if the cut is inside a line.
* `save_stopped` — before the write the old map is there. Behind the truncation the new one is, if
  at most the last byte is missing; otherwise the reload fails, or silently misses the last entries.
-/

namespace Sao

open Text Bytes

variable {lower : Str → Str}

namespace KnownHosts

/-- Where a call of `save` stops. -/
inductive SaveStop where
  /-- Before `fs::write`, or with its `File::create` failed. -/
  | before
  /-- The file is truncated and `n` bytes are written. -/
  | written (n : Nat)

def saveStopped (k : KnownHosts) (file : Option Bytes) : SaveStop → Option Bytes
  | .before => file
  | .written n => some ((utf8 k.saveText).take n)

/-- `load` on the bytes of the file. -/
def loadFile (lower : Str → Str) : Option Bytes → Res KnownHosts
  | none => load lower none
  | some b =>
    match fromUtf8 b with
    | none => .error (.err (.io "stream did not contain valid UTF-8".toList))
    | some text => load lower (some text)

/-- The entries whose lines are whole, the line break apart, when their text is cut after `n` bytes;
and whether the cut is inside the line behind them. -/
def cutEntries : Nat → List (HostPort × Pin) → List (HostPort × Pin) × Bool
  | _, [] => ([], false)
  | n, e :: es =>
    if (utf8 (entryLine e)).length ≤ n then
      (e :: (cutEntries (n - ((utf8 (entryLine e)).length + 1)) es).1,
        (cutEntries (n - ((utf8 (entryLine e)).length + 1)) es).2)
    else ([], decide (0 < n))

/-- The entries of the new map that a stop behind `n` bytes leaves. -/
def savedCut (k : KnownHosts) (n : Nat) : List (HostPort × Pin) × Bool :=
  cutEntries (n - ((utf8 fileHeader).length + 1)) k.savedEntries

/-! ## A cut inside a line -/

theorem loadLine_few {k : KnownHosts} {n : Nat} {c : Char} {s : Str} (hc : isWhitespace c = false) (hh : c ≠ '#')
    (hfew : (splitWhitespace (c :: s)).length < 3) : ∃ e, loadLine lower k n (c :: s) = .error e := by
  obtain ⟨t, ht⟩ := trim_cons hc s
  rw [← splitWhitespace_trim, ht] at hfew
  unfold loadLine
  simp only [ht]
  rw [if_neg (by simp [hh])]
  split
  · rename_i hs
    rw [hs] at hfew
    simp only [List.length_cons] at hfew
    omega
  · exact ⟨_, rfl⟩

theorem parseHex32_short (hl : Lowercase lower) {x : Str} (hx : ∀ c ∈ x, IsHexDigit c) (hlen : x.length ≠ 64) :
    ∃ e, parseHex32 lower x = .error e := by
  have hlow : lower (trim x) = x := by
    rw [trim_of_noWhitespace fun c hc => not_isWhitespace_of_hex (hx c hc)]
    exact hl.hex hx
  have hascii : IsAscii x := by
    intro c hc
    rcases hx c hc with h | h <;> omega
  unfold parseHex32
  simp only [hlow, byteLen_ascii hascii, ne_eq, hlen, not_false_eq_true, if_true]
  exact ⟨_, rfl⟩

theorem splitWhitespace_length_le {s : Str} (h : ∀ c ∈ s, isWhitespace c = false) : (splitWhitespace s).length ≤ 1 := by
  by_cases hs : s = []
  · subst hs
    simp [splitWhitespace]
  · rw [splitWhitespace_single hs h, List.length_singleton]

/-- A text that is cut off ends before the separator, or behind it. -/
theorem cut_at_separator {s t a b : Str} {d : Char} (h : s ++ t = a ++ d :: b) :
    (∃ r, a = s ++ r) ∨ ∃ r, s = a ++ d :: r ∧ r ++ t = b := by
  rcases List.append_eq_append_iff.1 h with ⟨r, ha, -⟩ | ⟨r, hs, hr⟩
  · exact Or.inl ⟨r, ha⟩
  · cases r with
    | nil => exact Or.inl ⟨[], by rw [hs]; simp⟩
    | cons x r =>
      rw [List.cons_append, List.cons.injEq] at hr
      exact Or.inr ⟨r, by rw [hs, hr.1], hr.2.symm⟩

/-- A beginning of a word is a word or nothing. -/
theorem splitWhitespace_beginning {s r w : Str} (hw : ∀ c ∈ w, isWhitespace c = false) (h : w = s ++ r) :
    (splitWhitespace s).length ≤ 1 :=
  splitWhitespace_length_le fun c hc => hw c (by rw [h]; exact List.mem_append_left _ hc)

/-- The beginning of an entry that stops before the end of its pin is refused. -/
theorem loadLine_cut (hl : Lowercase lower) {h : Str} {p : UInt16} {fp : Pin} (hp : Plain h) {s t : Str}
    (hs : s ≠ []) (ht : t ≠ []) (heq : s ++ t = entryLine ((h, p), fp)) (k : KnownHosts) (n : Nat) :
    ∃ e, loadLine lower k n s = .error e := by
  obtain ⟨hne, hws, hhash⟩ := hp
  -- the first character is the host's
  obtain ⟨c, u, rfl⟩ := List.exists_cons_of_ne_nil hs
  obtain ⟨c', h', rfl⟩ := List.exists_cons_of_ne_nil hne
  have hcc : c = c' := by
    simp only [entryLine, List.cons_append, List.cons.injEq] at heq
    exact heq.1
  subst hcc
  have hc := hws c List.mem_cons_self
  have hh : c ≠ '#' := by simpa using hhash
  have hd : ∀ x ∈ decimal p.toNat, isWhitespace x = false := fun x hx => not_isWhitespace_of_decimal hx
  have hdne : decimal p.toNat ≠ [] := Nat.toDigits_ne_nil
  have hsp : isWhitespace ' ' = true := by decide
  have hone := splitWhitespace_length_le hws
  -- whether the text stops in the host, in the port or in the pin
  have heq' : c :: u ++ t = c :: h' ++ ' ' :: (decimal p.toNat ++ ' ' :: hexEncode fp.1) := heq
  rcases cut_at_separator heq' with ⟨r, hr⟩ | ⟨r, hr, hrest⟩
  · refine loadLine_few hc hh ?_
    have := splitWhitespace_beginning hws hr
    omega
  rcases cut_at_separator hrest with ⟨q, hq⟩ | ⟨q, hq, hpin⟩
  · refine loadLine_few hc hh ?_
    have := splitWhitespace_beginning hd hq
    rw [hr, splitWhitespace_append _ _ hsp, List.length_append]
    omega
  have htok : splitWhitespace (c :: u) = [c :: h', decimal p.toNat] ++ splitWhitespace q := by
    rw [hr, hq, splitWhitespace_append _ _ hsp, splitWhitespace_append _ _ hsp,
      splitWhitespace_single (by simp) hws, splitWhitespace_single hdne hd]
    rfl
  by_cases hq0 : q = []
  · refine loadLine_few hc hh ?_
    rw [htok, hq0]
    simp [splitWhitespace]
  have hqhex : ∀ x ∈ q, IsHexDigit x := fun x hx => mem_hexEncode (by rw [← hpin]; exact List.mem_append_left _ hx)
  have hqlen : q.length ≠ 64 := by
    have h64 := length_hexEncode fp.1
    have htpos := List.length_pos_iff.2 ht
    rw [← hpin, fp.2, List.length_append] at h64
    omega
  obtain ⟨e, herr⟩ := parseHex32_short hl hqhex hqlen
  obtain ⟨v, hv⟩ := trim_cons hc u
  rw [splitWhitespace_single hq0 fun x hx => not_isWhitespace_of_hex (hqhex x hx), ← splitWhitespace_trim] at htok
  unfold loadLine
  simp only [htok, List.cons_append, List.nil_append, parseU16_decimal, herr]
  rw [hv, if_neg (by simp [hh])]
  exact ⟨e, rfl⟩

/-! ## A cut anywhere -/

/-- The lines of entries. -/
def entryText (es : List (HostPort × Pin)) : Str := es.flatMap fun e => entryLine e ++ ['\n']

theorem saveText_eq (k : KnownHosts) : k.saveText = fileHeader ++ '\n' :: entryText k.savedEntries := by
  rw [saveText, intercalate_newline, List.append_nil, List.flatMap_cons, List.flatMap_map, List.append_assoc]
  rfl

theorem fromUtf8_append (s : Str) (b : Bytes) : fromUtf8 (utf8 s ++ b) = (fromUtf8 b).map (s ++ ·) := by
  cases hb : fromUtf8 b with
  | some t => rw [← fromUtf8_some hb, ← utf8_append, fromUtf8_utf8]; rfl
  | none =>
    cases hsb : fromUtf8 (utf8 s ++ b) with
    | none => rfl
    | some u =>
      -- the text begins with `s`, and what follows would be a text
      have hu := fromUtf8_some hsb
      obtain ⟨v, hv⟩ := utf8_prefix (s := s) (t := u) (by rw [hu]; exact List.prefix_append _ _)
      rw [← hv, utf8_append, List.append_cancel_left_eq] at hu
      rw [← hu, fromUtf8_utf8] at hb
      cases hb

theorem entryLine_last_ne (e : HostPort × Pin) : (entryLine e).getLast? ≠ some '\r' := by
  obtain ⟨c, hc, hx⟩ := getLast?_entryLine e.1.1 e.1.2 e.2
  rw [show entryLine e = entryLine ((e.1.1, e.1.2), e.2) from rfl, hc]
  intro h
  rw [Option.some.injEq] at h
  subst h
  exact absurd hx (by unfold IsHexDigit; decide)

/-- What a reload makes of a text whose lines are cut as `c` says. -/
def ReadsCut (lower : Str → Str) (k : KnownHosts) (lineno : Nat) (b : Bytes) (c : List (HostPort × Pin) × Bool) : Prop :=
  (fromUtf8 b = none → c.2 = true) ∧ ∀ s, fromUtf8 b = some s →
    (c.2 = true → ∃ e, loadLines lower k lineno (lines s) = .error e) ∧
    (c.2 = false → loadLines lower k lineno (lines s) = .ok (k.insertAll c.1))

theorem readsCut_nil (lower : Str → Str) (k : KnownHosts) (lineno : Nat) : ReadsCut lower k lineno [] ([], false) := by
  have h0 : fromUtf8 [] = some [] := fromUtf8_utf8 []
  constructor
  · intro h
    rw [h0] at h
    cases h
  · intro s hs
    rw [h0, Option.some.injEq] at hs
    subst hs
    exact ⟨fun h => (by cases h), fun _ => rfl⟩

section Entry

variable (hl : Lowercase lower) {h : Str} {p : UInt16} {fp : Pin} (hn : normalizeHost lower h = h) (hp : Plain h)

include hl hn hp

theorem loadLine_entry (k : KnownHosts) (lineno : Nat) :
    loadLine lower k lineno (entryLine ((h, p), fp)) = .ok (k.insert (h, p) fp) := by
  rw [loadLine_plain hl hp, hn]

/-- A whole line, with its line break. -/
theorem ReadsCut.cons {k : KnownHosts} {lineno : Nat} {b : Bytes} {c : List (HostPort × Pin) × Bool}
    (hc : ReadsCut lower (k.insert (h, p) fp) (lineno + 1) b c) :
    ReadsCut lower k lineno (utf8 (entryLine ((h, p), fp) ++ ['\n']) ++ b) (((h, p), fp) :: c.1, c.2) := by
  constructor
  · intro hnone
    rw [fromUtf8_append, Option.map_eq_none_iff] at hnone
    exact hc.1 hnone
  · intro s hs
    rw [fromUtf8_append, Option.map_eq_some_iff] at hs
    obtain ⟨t, ht, rfl⟩ := hs
    rw [List.append_assoc, List.singleton_append, lines_cons (entryLine_noNewline hp.2.1) (entryLine_last_ne _),
      loadLines, loadLine_entry hl hn hp]
    exact hc.2 t ht

/-- A whole line without its line break. -/
theorem readsCut_line (k : KnownHosts) (lineno : Nat) :
    ReadsCut lower k lineno (utf8 (entryLine ((h, p), fp))) ([((h, p), fp)], false) := by
  constructor
  · intro hnone
    rw [fromUtf8_utf8] at hnone
    cases hnone
  · intro s hs
    rw [fromUtf8_utf8, Option.some.injEq] at hs
    subst hs
    refine ⟨fun h => (by cases h), fun _ => ?_⟩
    rw [lines_single (by simp [entryLine]) (entryLine_noNewline hp.2.1), loadLines, loadLine_entry hl hn hp]
    rfl

omit hn in
/-- A part of a line. -/
theorem readsCut_inside (k : KnownHosts) (lineno : Nat) {n : Nat} (h0 : 0 < n)
    (hlt : n < (utf8 (entryLine ((h, p), fp))).length) :
    ReadsCut lower k lineno ((utf8 (entryLine ((h, p), fp))).take n) ([], true) := by
  refine ⟨fun _ => rfl, fun s hs => ⟨fun _ => ?_, fun h => (by cases h)⟩⟩
  have hutf := fromUtf8_some hs
  have hlen := congrArg List.length hutf
  rw [List.length_take, Nat.min_eq_left (by omega)] at hlen
  obtain ⟨t, ht⟩ := utf8_prefix (s := s) (t := entryLine ((h, p), fp)) (by rw [hutf]; exact List.take_prefix _ _)
  have hs0 : s ≠ [] := by
    rintro rfl
    rw [utf8_nil, List.length_nil] at hlen
    omega
  have ht0 : t ≠ [] := by
    rintro rfl
    rw [List.append_nil] at ht
    rw [ht] at hlen
    omega
  have hsnl : '\n' ∉ s := fun hm => entryLine_noNewline hp.2.1 (by rw [← ht]; exact List.mem_append_left _ hm)
  obtain ⟨e, he⟩ := loadLine_cut hl hp hs0 ht0 ht k lineno
  exact ⟨e, by rw [lines_single hs0 hsnl, loadLines, he]⟩

end Entry

theorem length_entryLine_pos (e : HostPort × Pin) : 0 < (utf8 (entryLine e)).length := by
  apply List.length_pos_iff.2
  intro h0
  have := utf8_injective (h0.trans utf8_nil.symm)
  simp [entryLine] at this

@[simp] theorem cutEntries_zero (es : List (HostPort × Pin)) : cutEntries 0 es = ([], false) := by
  cases es with
  | nil => rfl
  | cons e es =>
    have := length_entryLine_pos e
    rw [cutEntries, if_neg (by omega)]
    rfl

theorem entryText_cons (e : HostPort × Pin) (es : List (HostPort × Pin)) :
    entryText (e :: es) = entryLine e ++ '\n' :: entryText es := by
  simp [entryText]

/-- **A text of entries that is cut anywhere.** -/
theorem loadCut (hl : Lowercase lower) {es : List (HostPort × Pin)}
    (hn : ∀ e ∈ es, normalizeHost lower e.1.1 = e.1.1) (hp : ∀ e ∈ es, Plain e.1.1) (k : KnownHosts) (lineno n : Nat) :
    ReadsCut lower k lineno ((utf8 (entryText es)).take n) (cutEntries n es) := by
  induction es generalizing k lineno n with
  | nil => rw [show (utf8 (entryText [])).take n = [] by simp [entryText]]; exact readsCut_nil lower k lineno
  | cons e es ih =>
    obtain ⟨⟨h, p⟩, fp⟩ := e
    have hne := hn _ List.mem_cons_self
    have hpe := hp _ List.mem_cons_self
    have ih := ih (fun x hx => hn x (List.mem_cons_of_mem _ hx)) (fun x hx => hp x (List.mem_cons_of_mem _ hx))
    rw [entryText_cons, utf8_append, cutEntries]
    generalize hL : utf8 (entryLine ((h, p), fp)) = L
    split
    · rename_i hle
      by_cases hlast : n = L.length
      · -- only the line break is missing
        rw [hlast, List.take_left, Nat.sub_eq_zero_of_le (by omega), cutEntries_zero, ← hL]
        exact readsCut_line hl hne hpe k lineno
      · have hn1 : n = (L ++ [0x0A]).length + (n - (L.length + 1)) := by
          rw [List.length_append, List.length_singleton]
          omega
        have htake : (L ++ utf8 ('\n' :: entryText es)).take n =
            utf8 (entryLine ((h, p), fp) ++ ['\n']) ++ (utf8 (entryText es)).take (n - (L.length + 1)) := by
          rw [utf8_append, hL]
          have hbreak : utf8 ('\n' :: entryText es) = [0x0A] ++ utf8 (entryText es) := rfl
          have hone : utf8 ['\n'] = [0x0A] := rfl
          rw [hbreak, hone, ← List.append_assoc]
          nth_rewrite 1 [hn1]
          rw [List.take_length_add_append]
        rw [htake]
        exact (ih (k.insert (h, p) fp) (lineno + 1) (n - (L.length + 1))).cons hl hne hpe
    · rename_i hlt
      rw [List.take_append_of_le_length (by omega)]
      by_cases hn0 : n = 0
      · subst hn0
        exact readsCut_nil lower k lineno
      · rw [decide_eq_true (Nat.pos_of_ne_zero hn0), ← hL]
        exact readsCut_inside hl hpe k lineno (Nat.pos_of_ne_zero hn0) (by rw [hL]; omega)

/-! ## A cut of the file -/

theorem cutEntries_prefix (n : Nat) (es : List (HostPort × Pin)) : (cutEntries n es).1 <+: es := by
  induction es generalizing n with
  | nil => exact List.prefix_refl []
  | cons e es ih =>
    rw [cutEntries]
    split
    · exact (List.prefix_cons_inj e).2 (ih _)
    · exact List.nil_prefix

theorem length_entryText_cons (e : HostPort × Pin) (es : List (HostPort × Pin)) :
    (utf8 (entryText (e :: es))).length = (utf8 (entryLine e)).length + 1 + (utf8 (entryText es)).length := by
  have hbreak : utf8 ('\n' :: entryText es) = 0x0A :: utf8 (entryText es) := rfl
  rw [entryText_cons, utf8_append, hbreak, List.length_append, List.length_cons]
  omega

theorem length_entryText_pos {es : List (HostPort × Pin)} (h : es ≠ []) : 1 < (utf8 (entryText es)).length := by
  obtain ⟨e, es, rfl⟩ := List.exists_cons_of_ne_nil h
  have := length_entryLine_pos e
  rw [length_entryText_cons]
  omega

/-- All entries are there exactly if at most the last line break is missing. -/
theorem cutEntries_all_iff (n : Nat) (es : List (HostPort × Pin)) :
    cutEntries n es = (es, false) ↔ es = [] ∨ (utf8 (entryText es)).length ≤ n + 1 := by
  induction es generalizing n with
  | nil => simp [cutEntries]
  | cons e es ih =>
    have hL := length_entryLine_pos e
    rw [cutEntries, length_entryText_cons]
    split
    · rename_i hle
      rw [Prod.mk.injEq, List.cons.injEq, eq_self, true_and]
      have hpair : ((cutEntries (n - ((utf8 (entryLine e)).length + 1)) es).1 = es ∧
          (cutEntries (n - ((utf8 (entryLine e)).length + 1)) es).2 = false) ↔
          cutEntries (n - ((utf8 (entryLine e)).length + 1)) es = (es, false) := by rw [Prod.ext_iff]
      rw [hpair, ih]
      by_cases hes : es = []
      · subst hes
        simp [entryText]
        omega
      · have := length_entryText_pos hes
        simp only [hes, false_or, reduceCtorEq]
        omega
    · rename_i hgt
      constructor
      · intro h
        cases h
      · rintro (h | h)
        · cases h
        · omega

theorem ReadsCut.loadFile {b : Bytes} {c : List (HostPort × Pin) × Bool} (h : ReadsCut lower default 0 b c) :
    (c.2 = true → ∃ e, loadFile lower (some b) = .error e) ∧
    (c.2 = false → KnownHosts.loadFile lower (some b) = .ok (default.insertAll c.1)) := by
  obtain ⟨h1, h2⟩ := h
  cases hb : fromUtf8 b with
  | none =>
    simp only [KnownHosts.loadFile, hb]
    refine ⟨fun _ => ⟨_, rfl⟩, fun hc => ?_⟩
    rw [h1 hb] at hc
    cases hc
  | some s =>
    simp only [KnownHosts.loadFile, hb]
    exact h2 s hb

/-- The header is ASCII and is read as a comment, cut or not. -/
theorem readsCut_header (lower : Str → Str) {n : Nat} (hn : n ≤ fileHeader.length) :
    ReadsCut lower default 0 (utf8 (fileHeader.take n)) ([], false) := by
  constructor
  · intro hnone
    rw [fromUtf8_utf8] at hnone
    cases hnone
  · intro s hs
    rw [fromUtf8_utf8, Option.some.injEq] at hs
    subst hs
    refine ⟨fun h => (by cases h), fun _ => ?_⟩
    by_cases hn0 : n = 0
    · subst hn0
      rfl
    · have hhash : fileHeader.take n = '#' :: (fileHeader.drop 1).take (n - 1) := by
        obtain ⟨m, rfl⟩ := Nat.exists_eq_succ_of_ne_zero hn0
        rfl
      have hnl : '\n' ∉ fileHeader.take n := fun hm => absurd (List.mem_of_mem_take hm) (by decide)
      obtain ⟨t, ht⟩ := trim_cons (c := '#') (by decide) ((fileHeader.drop 1).take (n - 1))
      rw [lines_single (by rw [hhash]; simp) hnl, loadLines, loadLine, hhash, ht]
      rfl

theorem isAscii_fileHeader : IsAscii fileHeader := by
  have h : fileHeader.all (fun c => c.toNat < 128) = true := by decide
  intro c hc
  simpa using List.all_eq_true.1 h c hc

/-- What a reload makes of the text of a store that is cut anywhere. -/
theorem readsCut_saveText (hl : Lowercase lower) {k : KnownHosts}
    (hn : ∀ e ∈ k.savedEntries, normalizeHost lower e.1.1 = e.1.1) (hp : ∀ e ∈ k.savedEntries, Plain e.1.1) (n : Nat) :
    ReadsCut lower default 0 ((utf8 k.saveText).take n) (k.savedCut n) := by
  have hlen : (utf8 fileHeader).length = fileHeader.length := length_utf8_ascii isAscii_fileHeader
  rw [saveText_eq, utf8_append, savedCut]
  by_cases hle : n ≤ fileHeader.length
  · rw [List.take_append_of_le_length (by omega), take_utf8_ascii isAscii_fileHeader, hlen,
      Nat.sub_eq_zero_of_le (by omega), cutEntries_zero]
    exact readsCut_header lower hle
  · have htake : (utf8 fileHeader ++ utf8 ('\n' :: entryText k.savedEntries)).take n =
        utf8 (fileHeader ++ ['\n']) ++ (utf8 (entryText k.savedEntries)).take (n - ((utf8 fileHeader).length + 1)) := by
      have hn1 : n = (utf8 (fileHeader ++ ['\n'])).length + (n - ((utf8 fileHeader).length + 1)) := by
        have hone : utf8 ['\n'] = [0x0A] := rfl
        rw [utf8_append, List.length_append, hone, List.length_singleton]
        omega
      have hjoin : utf8 fileHeader ++ utf8 ('\n' :: entryText k.savedEntries) =
          utf8 (fileHeader ++ ['\n']) ++ utf8 (entryText k.savedEntries) := by simp
      rw [hjoin]
      nth_rewrite 1 [hn1]
      rw [List.take_length_add_append]
    rw [htake]
    have hcut := loadCut hl hn hp default 1 (n - ((utf8 fileHeader).length + 1))
    constructor
    · intro hnone
      rw [fromUtf8_append, Option.map_eq_none_iff] at hnone
      exact hcut.1 hnone
    · intro s hs
      rw [fromUtf8_append, Option.map_eq_some_iff] at hs
      obtain ⟨t, ht, rfl⟩ := hs
      rw [List.append_assoc, List.singleton_append, lines_cons (by decide) (by decide), loadLines, loadLine_header]
      exact hcut.2 t ht

/-- The reload holds exactly the entries that are left. -/
theorem lookup_insertAll_prefix {k : KnownHosts} {es : List (HostPort × Pin)} (h : es <+: k.savedEntries)
    (key : HostPort) (fp : Pin) : (default.insertAll es).lookup key = some fp ↔ (key, fp) ∈ es := by
  have hnd : (es.map Prod.fst).Nodup := (h.sublist.map Prod.fst).nodup k.savedEntries_keys_nodup
  constructor
  · intro hlook
    by_cases hm : key ∈ es.map Prod.fst
    · obtain ⟨e, he, rfl⟩ := List.mem_map.1 hm
      rw [lookup_insertAll_of_mem hnd he, Option.some.injEq] at hlook
      rw [← hlook]
      exact he
    · rw [lookup_insertAll_of_notMem hm, lookup_default] at hlook
      cases hlook
  · intro he
    exact lookup_insertAll_of_mem hnd he default

/-- A prefix of the entries that has all of them is all of them. -/
theorem prefix_savedEntries_eq {k : KnownHosts} {es : List (HostPort × Pin)} (h : es <+: k.savedEntries)
    (hall : ∀ e ∈ k.savedEntries, (e.1, e.2) ∈ es) : es = k.savedEntries := by
  have hnd : k.savedEntries.Nodup := k.savedEntries_keys_nodup.of_map
  obtain ⟨t, ht⟩ := h
  cases t with
  | nil => rw [← ht, List.append_nil]
  | cons e t =>
    have he : e ∈ es := hall e (by rw [← ht]; simp)
    rw [← ht] at hnd
    exact absurd List.mem_cons_self ((List.nodup_append.1 hnd).2.2 e he e · rfl)

/-- All entries are left if none are lost, or nothing but the last line break. -/
theorem savedCut_all_iff (new : KnownHosts) (n : Nat) : new.savedCut n = (new.savedEntries, false) ↔
    new.savedEntries = [] ∨ (utf8 new.saveText).length ≤ n + 1 := by
  have hlen : (utf8 new.saveText).length = (utf8 fileHeader).length + 1 + (utf8 (entryText new.savedEntries)).length := by
    have hbreak : utf8 ('\n' :: entryText new.savedEntries) = 0x0A :: utf8 (entryText new.savedEntries) := rfl
    rw [saveText_eq, utf8_append, hbreak, List.length_append, List.length_cons]
    omega
  rw [savedCut, cutEntries_all_iff, hlen]
  by_cases hnil : new.savedEntries = []
  · simp [hnil]
  · have := length_entryText_pos hnil
    simp only [hnil, false_or]
    omega

/-- **What a stopped `save` leaves**, for maps that survive a `save` that is not stopped. Before the
write it is the old map. Behind `n` bytes of the new text a reload fails if the cut is inside the
line of an entry, and else returns the entries whose lines are whole, the first ones of the new
map; this is the new map exactly if that has no pin, or at most the last byte is missing. -/
theorem save_stopped (hl : Lowercase lower) {old new : KnownHosts} (hold : RoundTrips lower old)
    (hnew : Reachable lower new) (hrnew : RoundTrips lower new) :
    (∃ k, loadFile lower (saveStopped new (some (utf8 old.saveText)) .before) = .ok k ∧
      ∀ key, k.lookup key = old.lookup key) ∧
    ∀ n, (new.savedCut n).1 <+: new.savedEntries ∧
      ((new.savedCut n).2 = true →
        ∃ e, loadFile lower (saveStopped new (some (utf8 old.saveText)) (.written n)) = .error e) ∧
      ((new.savedCut n).2 = false →
        ∃ k, loadFile lower (saveStopped new (some (utf8 old.saveText)) (.written n)) = .ok k ∧
          ∀ key fp, k.lookup key = some fp ↔ (key, fp) ∈ (new.savedCut n).1) ∧
      ((∃ k, loadFile lower (saveStopped new (some (utf8 old.saveText)) (.written n)) = .ok k ∧
          ∀ key, k.lookup key = new.lookup key) ↔
        new.savedEntries = [] ∨ (utf8 new.saveText).length ≤ n + 1) := by
  constructor
  · obtain ⟨k, hload, hk⟩ := hold
    exact ⟨k, by rw [saveStopped, loadFile, fromUtf8_utf8]; exact hload, hk⟩
  intro n
  have hpre : (new.savedCut n).1 <+: new.savedEntries := cutEntries_prefix _ _
  have hcut := (readsCut_saveText hl (k := new) (fun e he => hnew.normalized hl _ _ (mem_savedEntries.1 he))
    (fun e he => plain_of_roundTrips hl hnew hrnew (mem_savedEntries.1 he)) n).loadFile
  have hlook := lookup_insertAll_prefix hpre
  refine ⟨hpre, hcut.1, fun hin => ⟨_, hcut.2 hin, hlook⟩, ?_⟩
  rw [← savedCut_all_iff]
  constructor
  · rintro ⟨k, hload, hk⟩
    cases hin : (new.savedCut n).2 with
    | true =>
      obtain ⟨e, he⟩ := hcut.1 hin
      have := he.symm.trans hload
      cases this
    | false =>
      have hload' := (hcut.2 hin).symm.trans hload
      rw [Except.ok.injEq] at hload'
      subst hload'
      -- the entries left are all, for each pin of the new map is among them
      refine Prod.ext (prefix_savedEntries_eq hpre fun e he => ?_) hin
      rw [← hlook, hk]
      exact mem_savedEntries.1 he
  · intro heq
    refine ⟨_, hcut.2 (by rw [heq]), fun key => ?_⟩
    cases hkey : new.lookup key with
    | some fp => rw [hlook, heq, mem_savedEntries, hkey]
    | none =>
      cases hd : (default.insertAll (new.savedCut n).1).lookup key with
      | none => rfl
      | some fp =>
        rw [hlook, heq, mem_savedEntries, hkey] at hd
        cases hd

/-- One pin, as the test `roundtrip_save_load` stores it. -/
def localhost : KnownHosts := default.insert (normalizeHost asciiLower "127.0.0.1".toList, 8443) pinAA

theorem plain_normalized : Plain (normalizeHost asciiLower "127.0.0.1".toList) := by
  rw [normalizeHost_localhost]
  exact plain_localhost

theorem plainRun_localhost : PlainRun asciiLower localhost :=
  .insertHex .absent plain_normalized (insertHex_repeat_a "127.0.0.1".toList 8443)

theorem PlainRun.roundTrips {k : KnownHosts} (h : PlainRun asciiLower k) : RoundTrips asciiLower k :=
  roundTrips_of_plain lowercase_asciiLower h.reachable h.plain

/-- The same host at a second port. -/
def twoPorts : KnownHosts := localhost.insert (normalizeHost asciiLower "127.0.0.1".toList, 22) pinAA

theorem plainRun_twoPorts : PlainRun asciiLower twoPorts :=
  .insertHex plainRun_localhost plain_normalized (insertHex_repeat_a "127.0.0.1".toList 22)

theorem savedEntries_twoPorts : twoPorts.savedEntries =
    [(("127.0.0.1".toList, 22), pinAA), (("127.0.0.1".toList, 8443), pinAA)] := by
  have hkeys : twoPorts.pins.keys = [("127.0.0.1".toList, 22), ("127.0.0.1".toList, 8443)] := by decide
  rw [savedEntries, sortedKeys, hkeys, List.mergeSort_of_pairwise (by decide +kernel)]
  decide

/-- A second pin is saved. A stop between the lines of the two leaves the new one alone, and loses the old; a stop
inside the second line leaves a file that does not load. -/
theorem save_stopped_localhost :
    (∃ k, loadFile asciiLower (saveStopped twoPorts (some (utf8 localhost.saveText)) (.written 123)) = .ok k ∧
      ∀ key fp, k.lookup key = some fp ↔ (key, fp) ∈ [(("127.0.0.1".toList, (22 : UInt16)), pinAA)]) ∧
    ∃ e, loadFile asciiLower (saveStopped twoPorts (some (utf8 localhost.saveText)) (.written 143)) = .error e := by
  have hbetween : twoPorts.savedCut 123 = ([(("127.0.0.1".toList, 22), pinAA)], false) := by
    rw [savedCut, savedEntries_twoPorts]
    decide +kernel
  have hinside : (twoPorts.savedCut 143).2 = true := by
    rw [savedCut, savedEntries_twoPorts]
    decide +kernel
  obtain ⟨-, hcut⟩ := save_stopped lowercase_asciiLower plainRun_localhost.roundTrips plainRun_twoPorts.reachable
    plainRun_twoPorts.roundTrips
  obtain ⟨k, hload, hk⟩ := (hcut 123).2.2.1 (by rw [hbetween])
  rw [hbetween] at hk
  exact ⟨⟨k, hload, hk⟩, (hcut 143).2.1 hinside⟩

/-- A stop right behind the truncation: the pin is gone, and the file loads. -/
theorem save_not_atomic : ¬ ∀ (old new : KnownHosts) (stop : SaveStop), RoundTrips asciiLower old →
    Reachable asciiLower new → RoundTrips asciiLower new →
    ∃ k, loadFile asciiLower (saveStopped new (some (utf8 old.saveText)) stop) = .ok k ∧
      ((∀ key, k.lookup key = old.lookup key) ∨ ∀ key, k.lookup key = new.lookup key) := by
  intro h
  obtain ⟨k, hload, hk⟩ := h localhost localhost (.written 0) plainRun_localhost.roundTrips
    plainRun_localhost.reachable plainRun_localhost.roundTrips
  have hempty : loadFile asciiLower (saveStopped localhost (some (utf8 localhost.saveText)) (.written 0)) =
      .ok default := rfl
  rw [hempty, Except.ok.injEq] at hload
  subst hload
  have hpin := hk.elim (fun h => h (normalizeHost asciiLower "127.0.0.1".toList, 8443))
    (fun h => h (normalizeHost asciiLower "127.0.0.1".toList, 8443))
  rw [lookup_default, localhost, lookup_insert_self] at hpin
  cases hpin

end KnownHosts

end Sao
