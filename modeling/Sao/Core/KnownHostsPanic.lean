import Sao.Core.Fingerprint

/-!
# When reading pins panics

`parse_hex32` slices a text of 64 bytes every two bytes, and a slice that ends inside a character
panics. `load` and `insert_hex` hand the panic on.

* `slicesInside_iff` — every slice the loop takes is on character boundaries, exactly if no character
  behind pairs is cut.
* `loadLines_panic_iff` — the file panics at the first line that is not read, if that line is cut.
* `panicFree_iff` — both together, for every text and every fingerprint.
-/

namespace Sao

open Text

variable {lower : Str → Str}

/-- 64 bytes that begin with pairs and go on with a character that the next slice cuts. -/
def Cut (t : Str) : Prop := byteLen t = 64 ∧ CutBehindPairs t

/-- Each slice that the loop of `parse_hex32` gets to is in range and on character boundaries. -/
def SlicesInside (t : Str) : Prop := byteLen t = 64 →
  ∀ i < 32, (∀ j < i, ∃ b, hexPair t j = .ok b) → ∃ u, sliceBytes t (i * 2) (i * 2 + 2) = some u

/-! ## One fingerprint -/

theorem parseHex32_panic_iff {s : Str} : parseHex32 lower s = .error .panic ↔ Cut (lower (trim s)) := by
  rcases parseHex32_cases lower s with ⟨-, hp, b, hb, -⟩ | ⟨hlen, hcut, herr⟩ | ⟨hno, herr⟩
  · refine ⟨fun h => ?_, fun h => absurd h.2 hp.not_cutBehindPairs⟩
    rw [hb] at h
    cases h
  · exact ⟨fun _ => ⟨hlen, hcut⟩, fun _ => herr⟩
  · refine ⟨fun h => ?_, fun h => absurd ⟨h.1, Or.inr h.2⟩ hno⟩
    rw [herr] at h
    cases h

theorem parseHex32_ok_iff {s : Str} :
    (∃ b, parseHex32 lower s = .ok b) ↔ byteLen (lower (trim s)) = 64 ∧ Pairs (lower (trim s)) := by
  rcases parseHex32_cases lower s with ⟨hlen, hp, b, hb, -⟩ | ⟨-, hcut, herr⟩ | ⟨hno, herr⟩
  · exact ⟨fun _ => ⟨hlen, hp⟩, fun _ => ⟨b, hb⟩⟩
  · refine ⟨fun ⟨b, hb⟩ => ?_, fun h => absurd hcut h.2.not_cutBehindPairs⟩
    rw [herr] at hb
    cases hb
  · refine ⟨fun ⟨b, hb⟩ => ?_, fun h => absurd ⟨h.1, Or.inl h.2⟩ hno⟩
    rw [herr] at hb
    cases hb

theorem insertHex_panic_iff {k : KnownHosts} {host : Str} {port : UInt16} {hexFp : Str} :
    KnownHosts.insertHex lower k host port hexFp = .error .panic ↔ Cut (lower (trim hexFp)) := by
  rw [← parseHex32_panic_iff, KnownHosts.insertHex]
  cases parseHex32 lower hexFp with
  | error e => simp
  | ok b => simp

theorem hexPair_panic_iff {t : Str} {i : Nat} :
    hexPair t i = .error .panic ↔ sliceBytes t (i * 2) (i * 2 + 2) = none := by
  unfold hexPair
  cases sliceBytes t (i * 2) (i * 2 + 2) with
  | none => simp
  | some u =>
    cases hu : fromStrRadix 16 255 u with
    | none => simp [hu]
    | some b => simp [hu]

/-- One round, and the rest of the loop. -/
theorem hexPairs_succ_panic {t : Str} {n i : Nat} : hexPairs t (n + 1) i = .error .panic ↔
    hexPair t i = .error .panic ∨ ((∃ b, hexPair t i = .ok b) ∧ hexPairs t n (i + 1) = .error .panic) := by
  rw [hexPairs]
  cases hexPair t i with
  | error e => simp
  | ok b =>
    cases hexPairs t n (i + 1) with
    | error e => simp
    | ok bs => simp

/-- The loop panics in the round that panics, behind rounds that go well. -/
theorem hexPairs_panic_iff {t : Str} {n i : Nat} : hexPairs t n i = .error .panic ↔
    ∃ m < n, (∀ j < m, ∃ b, hexPair t (i + j) = .ok b) ∧ hexPair t (i + m) = .error .panic := by
  induction n generalizing i with
  | zero => simp [hexPairs]
  | succ n ih =>
    rw [hexPairs_succ_panic, ih]
    have hshift : ∀ j, i + 1 + j = i + (j + 1) := fun j => by omega
    simp only [hshift]
    constructor
    · rintro (herr | ⟨hfirst, m, hm, hok, herr⟩)
      · exact ⟨0, by omega, fun j hj => absurd hj (by omega), herr⟩
      · refine ⟨m + 1, by omega, fun j hj => ?_, herr⟩
        cases j with
        | zero => exact hfirst
        | succ j => exact hok j (by omega)
    · rintro ⟨m, hm, hok, herr⟩
      cases m with
      | zero => exact Or.inl herr
      | succ m => exact Or.inr ⟨hok 0 (by omega), m, by omega, fun j hj => hok (j + 1) (by omega), herr⟩

/-- **The slices of one text.** -/
theorem slicesInside_iff {t : Str} : SlicesInside t ↔ ¬ Cut t := by
  by_cases hlen : byteLen t = 64
  · have hcut : Cut t ↔ hexPairs t 32 0 = .error .panic := by
      rcases hexPairs_cases (p := []) (r := t) (n := 32) (i := 0) (fun c hc => by cases hc) rfl hlen with
        ⟨hp, b, hb, -⟩ | ⟨hc, herr⟩ | ⟨-, hno, herr⟩
      · rw [List.nil_append] at hb
        simp [Cut, hp.not_cutBehindPairs, hb]
      · rw [List.nil_append] at herr
        simp [Cut, hlen, hc, herr]
      · rw [List.nil_append] at herr
        simp [Cut, hno, herr]
    rw [hcut, hexPairs_panic_iff]
    simp only [SlicesInside, hlen, Nat.zero_add, hexPair_panic_iff, not_exists, not_and, forall_const]
    refine forall_congr' fun i => forall_congr' fun _ => forall_congr' fun _ => ?_
    rw [← ne_eq, Option.ne_none_iff_exists']
  · exact ⟨fun _ h => hlen h.1, fun _ h => absurd h hlen⟩

namespace KnownHosts

/-! ## One line, and the file -/

/-- The line is an entry with a port, and its fingerprint becomes `t`. -/
def EntryOf (lower : Str → Str) (l t : Str) : Prop := ¬ Skipped l ∧ ∃ host port fp rest,
  splitWhitespace (trim l) = host :: port :: fp :: rest ∧ (parseU16 port).isSome ∧ t = lower (trim fp)

/-- The line can be read: it is skipped, or an entry whose fingerprint is 32 pairs. -/
def Readable (lower : Str → Str) (l : Str) : Prop := Skipped l ∨ ∃ t, EntryOf lower l t ∧ byteLen t = 64 ∧ Pairs t

/-- The line is an entry whose fingerprint is cut. -/
def CutLine (lower : Str → Str) (l : Str) : Prop := ∃ t, EntryOf lower l t ∧ Cut t

/-- The first line that is not read is cut. -/
def CutFirst (lower : Str → Str) (ls : List Str) : Prop :=
  ∃ pre l post, ls = pre ++ l :: post ∧ (∀ m ∈ pre, Readable lower m) ∧ CutLine lower l

theorem EntryOf.unique {l t u : Str} (ht : EntryOf lower l t) (hu : EntryOf lower l u) : t = u := by
  obtain ⟨-, host, port, fp, rest, hs, -, rfl⟩ := ht
  obtain ⟨-, host', port', fp', rest', hs', -, rfl⟩ := hu
  rw [hs, List.cons.injEq, List.cons.injEq, List.cons.injEq] at hs'
  rw [hs'.2.2.1]

/-- A line that is read is not cut. -/
theorem Readable.not_cutLine {l : Str} (h : Readable lower l) : ¬ CutLine lower l := by
  rintro ⟨t, he, -, hcut⟩
  rcases h with h | ⟨u, hu, -, hp⟩
  · exact he.1 h
  · exact (he.unique hu ▸ hp).not_cutBehindPairs hcut

theorem cutFirst_nil : ¬ CutFirst lower [] := by
  rintro ⟨pre, l, post, h, -⟩
  simp at h

theorem cutFirst_cons {l : Str} {ls : List Str} :
    CutFirst lower (l :: ls) ↔ CutLine lower l ∨ (Readable lower l ∧ CutFirst lower ls) := by
  constructor
  · rintro ⟨pre, m, post, h, hpre, hm⟩
    cases pre with
    | nil =>
      rw [List.nil_append, List.cons.injEq] at h
      exact Or.inl (h.1 ▸ hm)
    | cons p pre =>
      rw [List.cons_append, List.cons.injEq] at h
      obtain ⟨rfl, rfl⟩ := h
      exact Or.inr ⟨hpre l List.mem_cons_self, pre, m, post, rfl, fun x hx => hpre x (List.mem_cons_of_mem _ hx), hm⟩
  · rintro (h | ⟨hl, pre, m, post, rfl, hpre, hm⟩)
    · exact ⟨[], l, ls, rfl, fun m hm => (by cases hm), h⟩
    · refine ⟨l :: pre, m, post, rfl, fun x hx => ?_, hm⟩
      rcases List.mem_cons.1 hx with rfl | hx
      · exact hl
      · exact hpre x hx

/-- **How a line ends**: it is read, it panics, or it is refused. -/
theorem loadLine_cases (k : KnownHosts) (n : Nat) (l : Str) :
    (Readable lower l ∧ ∃ k', loadLine lower k n l = .ok k') ∨
    (CutLine lower l ∧ loadLine lower k n l = .error .panic) ∨
    (¬ Readable lower l ∧ ¬ CutLine lower l ∧ ∃ e, loadLine lower k n l = .error (.err e)) := by
  unfold loadLine
  by_cases hskip : Skipped l
  · exact Or.inl ⟨Or.inl hskip, k, if_pos hskip⟩
  -- what decides about an entry is what its fingerprint becomes
  have hentry : ∀ {P : Str → Prop}, (∃ t, EntryOf lower l t ∧ P t) → ∃ host port fp rest,
      splitWhitespace (trim l) = host :: port :: fp :: rest ∧ (parseU16 port).isSome ∧ P (lower (trim fp)) := by
    rintro P ⟨t, ⟨-, host, port, fp, rest, hs, hport, rfl⟩, hP⟩
    exact ⟨host, port, fp, rest, hs, hport, hP⟩
  simp only
  rw [if_neg (show ¬ (trim l = [] ∨ (trim l).head? = some '#') from hskip)]
  split
  · rename_i host port fp rest hs
    cases hport : parseU16 port with
    | none =>
      have hno : ∀ P : Str → Prop, ¬ ∃ t, EntryOf lower l t ∧ P t := by
        intro P h
        obtain ⟨_, _, _, _, hs', hport', -⟩ := hentry h
        rw [hs, List.cons.injEq, List.cons.injEq] at hs'
        rw [← hs'.2.1, hport] at hport'
        cases hport'
      exact Or.inr (Or.inr ⟨fun h => h.elim hskip (hno _), hno _, _, rfl⟩)
    | some p =>
      have he : EntryOf lower l (lower (trim fp)) := ⟨hskip, host, port, fp, rest, hs, by rw [hport]; rfl, rfl⟩
      cases hfp : parseHex32 lower fp with
      | ok b => exact Or.inl ⟨Or.inr ⟨_, he, parseHex32_ok_iff.1 ⟨b, hfp⟩⟩, _, rfl⟩
      | error e =>
        have hread : ¬ Readable lower l := by
          rintro (h | ⟨t, ht, hpairs⟩)
          · exact hskip h
          · obtain ⟨b, hb⟩ := parseHex32_ok_iff.2 (ht.unique he ▸ hpairs)
            rw [hfp] at hb
            cases hb
        cases e with
        | panic => exact Or.inr (Or.inl ⟨⟨_, he, parseHex32_panic_iff.1 hfp⟩, rfl⟩)
        | err e =>
          refine Or.inr (Or.inr ⟨hread, ?_, e, rfl⟩)
          rintro ⟨t, ht, hcut⟩
          have hpanic := parseHex32_panic_iff.2 (ht.unique he ▸ hcut)
          rw [hfp] at hpanic
          cases hpanic
  · rename_i hno
    have hno : ∀ P : Str → Prop, ¬ ∃ t, EntryOf lower l t ∧ P t := by
      intro P h
      obtain ⟨host, port, fp, rest, hs, -⟩ := hentry h
      exact hno host port fp rest hs
    exact Or.inr (Or.inr ⟨fun h => h.elim hskip (hno _), hno _, _, rfl⟩)

/-- **The lines of a file**: the first that is not read decides. -/
theorem loadLines_panic_iff {ls : List Str} {k : KnownHosts} {n : Nat} :
    loadLines lower k n ls = .error .panic ↔ CutFirst lower ls := by
  induction ls generalizing k n with
  | nil => simp [loadLines, cutFirst_nil]
  | cons l ls ih =>
    rw [loadLines, cutFirst_cons]
    rcases loadLine_cases k n l with ⟨hread, k', hk'⟩ | ⟨hcut, herr⟩ | ⟨hread, hcut, e, herr⟩
    · rw [hk']
      simp only [ih, hread, hread.not_cutLine, true_and, false_or]
    · simp [herr, hcut]
    · simp [herr, hread, hcut]

end KnownHosts

/-! ## The two calls -/

/-- Reading pins returns: `load` of the file, and `insert_hex` of the fingerprint, which also takes no
slice off a character boundary. -/
structure PanicFree (lower : Str → Str) (file : Option Str) (hexFp : Str) : Prop where
  load : KnownHosts.load lower file ≠ .error .panic
  insertHex : ∀ k host port, KnownHosts.insertHex lower k host port hexFp ≠ .error .panic
  slices : SlicesInside (lower (trim hexFp))

/-- **Exactly when reading pins returns**: no fingerprint is cut, neither the one given nor that of the
first line of the file that is not read. -/
theorem panicFree_iff (lower : Str → Str) (file : Option Str) (hexFp : Str) : PanicFree lower file hexFp ↔
    (∀ text, file = some text → ¬ KnownHosts.CutFirst lower (lines text)) ∧ ¬ Cut (lower (trim hexFp)) := by
  have hload : KnownHosts.load lower file = .error .panic ↔
      ∃ text, file = some text ∧ KnownHosts.CutFirst lower (lines text) := by
    cases file with
    | none => simp [KnownHosts.load]
    | some text => simp [KnownHosts.load, KnownHosts.loadLines_panic_iff]
  constructor
  · intro h
    exact ⟨fun text htext hcut => h.load (hload.2 ⟨text, htext, hcut⟩), slicesInside_iff.1 h.slices⟩
  · rintro ⟨htext, hcut⟩
    refine ⟨fun h => ?_, fun k host port h => hcut (insertHex_panic_iff.1 h), slicesInside_iff.2 hcut⟩
    obtain ⟨text, hfile, hfirst⟩ := hload.1 h
    exact htext text hfile hfirst

/-- A character of two bytes across the end of the first slice. -/
def cutFingerprint : Str := 'a' :: 'é' :: List.replicate 61 '0'

/-- An entry with such a fingerprint, and the fingerprint itself. -/
theorem cutFingerprint_panics :
    ¬ ((∀ text, KnownHosts.load asciiLower (some text) ≠ .error .panic) ∨
      ∀ k host port hexFp, KnownHosts.insertHex asciiLower k host port hexFp ≠ .error .panic) := by
  rintro (h | h)
  · exact h ("h 1 ".toList ++ cutFingerprint) (by decide)
  · exact h .default [] 0 cutFingerprint (by decide)

end Sao
