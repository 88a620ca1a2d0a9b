import Sao.Core.KnownHosts

/-!
# Saving and reloading `known_hosts`

* `parseHex32_hexEncode` — a printed pin parses back.
* `load_saveText` — what a reload makes of a saved store whose hosts contain no whitespace and are
  not empty: exactly the pins whose host does not start with `#`.
* `saveText_roundTrip_iff` — a store that some sequence of `load` and `insert_hex` produced survives
  save and reload exactly when every host it holds is a token that is not taken for a comment.
  `insert_hex` and `load` accept others: a host with whitespace makes the whole file
  unreadable, an empty one too, and one that starts with `#` is dropped.
-/

namespace Sao

open Text

variable {lower : Str → Str}

/-! ## Normalized hosts -/

theorem normalizeHost_eq (lower : Str → Str) (h : Str) : normalizeHost lower h = lower (trimMatches isBracket h) := by
  simp only [normalizeHost]
  split <;> rfl

theorem isMark_of_isBracket {c : Char} (h : isBracket c = true) : isMark c = true := by
  simp only [isBracket, Bool.or_eq_true] at h
  rcases h with h | h <;> simp [isMark, h]

/-- Lowercasing leaves no bracket at either end of a trimmed host. -/
theorem normalizeHost_idem (hl : Lowercase lower) (h : Str) :
    normalizeHost lower (normalizeHost lower h) = normalizeHost lower h := by
  have key : trimMatches isBracket (lower (trimMatches isBracket h)) = lower (trimMatches isBracket h) := by
    apply trimMatches_eq_self
    · intro c hc
      cases hb : isBracket c with
      | false => rfl
      | true => exact (trimMatches_head (hl.head_mark hc (isMark_of_isBracket hb))).symm.trans hb |>.symm
    · intro c hc
      cases hb : isBracket c with
      | false => rfl
      | true => exact (trimMatches_last (hl.last_mark hc (isMark_of_isBracket hb))).symm.trans hb |>.symm
  rw [normalizeHost_eq, normalizeHost_eq, key, hl.idem]

theorem normalizeHost_noWhitespace (hl : Lowercase lower) {h : Str} (hws : ∀ c ∈ h, isWhitespace c = false) :
    ∀ c ∈ normalizeHost lower h, isWhitespace c = false := by
  intro c hc
  cases hw : isWhitespace c with
  | false => rfl
  | true =>
    rw [normalizeHost_eq] at hc
    have hm := hl.mark_mem hc (by simp [isMark, hw])
    rw [← hw, hws c ((trimMatches_sublist _ _).subset hm)]

/-! ## A printed pin parses back -/

theorem hexPair_hexEncode (b : Bytes) {i : Nat} (hi : i < b.length) : hexPair (hexEncode b) i = .ok b[i] := by
  have hlen : i * 2 + 2 ≤ (hexEncode b).length := by rw [length_hexEncode]; omega
  have hpair : ((hexEncode b).drop (i * 2)).take 2 = hexByte b[i] := by
    rw [Nat.mul_comm]; exact hexEncode_pair b hi
  unfold hexPair
  rw [sliceBytes_ascii (isAscii_hexEncode b) hlen, hpair]
  simp only [fromStrRadix_hexByte, UInt8.ofNat_toNat]

theorem hexPairs_hexEncode (b : Bytes) : ∀ (n i : Nat) (h : i + n = b.length),
    hexPairs (hexEncode b) n i = .ok ⟨b.drop i, by rw [List.length_drop]; omega⟩
  | 0, i, h => by
    have : b.drop i = [] := List.drop_of_length_le (by omega)
    simp [hexPairs, this]
  | n + 1, i, h => by
    have hi : i < b.length := by omega
    have ih := hexPairs_hexEncode b n (i + 1) (by omega)
    simp only [hexPairs, hexPair_hexEncode b hi, ih]
    congr 2
    exact (List.drop_eq_getElem_cons hi).symm

theorem parseHex32_hexEncode (hl : Lowercase lower) (fp : Pin) : parseHex32 lower (hexEncode fp.1) = .ok fp := by
  have hh : lower (trim (hexEncode fp.1)) = hexEncode fp.1 := by
    rw [trim_of_noWhitespace fun c hc => not_isWhitespace_of_hex (mem_hexEncode hc)]
    exact hl.hex fun c hc => mem_hexEncode hc
  have hlen : byteLen (hexEncode fp.1) = 64 := by
    rw [byteLen_ascii (isAscii_hexEncode _), length_hexEncode, fp.2]
  have hp := hexPairs_hexEncode fp.1 32 0 (by rw [fp.2])
  unfold parseHex32
  simp only [hh, hlen, ne_eq, not_true_eq_false, if_false, hp, List.drop_zero]

namespace KnownHosts

/-! ## One line -/

/-- A host that the reader takes for the first token of an entry. -/
def Plain (h : Str) : Prop := h ≠ [] ∧ (∀ c ∈ h, isWhitespace c = false) ∧ h.head? ≠ some '#'

instance (h : Str) : Decidable (Plain h) :=
  -- the test runs over the list, never over all characters
  have : Decidable (∀ c ∈ h, isWhitespace c = false) := List.decidableBAll _ h
  inferInstanceAs (Decidable (_ ∧ _ ∧ _))

section Line

variable {h : Str} {p : UInt16} {fp : Pin}

theorem getLast?_entryLine (h : Str) (p : UInt16) (fp : Pin) :
    ∃ c, (entryLine ((h, p), fp)).getLast? = some c ∧ IsHexDigit c := by
  have hne : hexEncode fp.1 ≠ [] := by
    intro h0
    have := length_hexEncode fp.1
    rw [h0, fp.2] at this
    simp at this
  refine ⟨(hexEncode fp.1).getLast hne, ?_, mem_hexEncode (List.getLast_mem hne)⟩
  rw [entryLine, List.getLast?_append_of_ne_nil _ (by simp), List.getLast?_cons_of_ne_nil (by simp),
    List.getLast?_append_of_ne_nil _ (by simp), List.getLast?_cons_of_ne_nil hne,
    List.getLast?_eq_some_getLast hne]

theorem entryLine_noNewline (hws : ∀ c ∈ h, isWhitespace c = false) : '\n' ∉ entryLine ((h, p), fp) := by
  intro hm
  simp only [entryLine, List.mem_append, List.mem_cons] at hm
  rcases hm with hm | hm | hm | hm | hm
  · exact absurd (hws _ hm) (by decide)
  · exact absurd hm (by decide)
  · exact absurd (not_isWhitespace_of_decimal hm) (by decide)
  · exact absurd hm (by decide)
  · exact absurd (not_isWhitespace_of_hex (mem_hexEncode hm)) (by decide)

theorem trim_entryLine (hne : h ≠ []) (hws : ∀ c ∈ h, isWhitespace c = false) :
    trim (entryLine ((h, p), fp)) = entryLine ((h, p), fp) := by
  apply trimMatches_eq_self
  · intro c hc
    cases h with
    | nil => exact absurd rfl hne
    | cons x h =>
      simp only [entryLine, List.cons_append, List.head?_cons, Option.some.injEq] at hc
      exact hc ▸ hws x List.mem_cons_self
  · intro c hc
    obtain ⟨d, hd, hx⟩ := getLast?_entryLine h p fp
    rw [hd, Option.some.injEq] at hc
    exact hc ▸ not_isWhitespace_of_hex hx

theorem splitWhitespace_port (p : UInt16) (fp : Pin) :
    splitWhitespace (decimal p.toNat ++ ' ' :: hexEncode fp.1) = [decimal p.toNat, hexEncode fp.1] := by
  have hne : hexEncode fp.1 ≠ [] := by
    intro h0
    have := length_hexEncode fp.1
    rw [h0, fp.2] at this
    simp at this
  have hd : decimal p.toNat ≠ [] := Nat.toDigits_ne_nil
  rw [splitWhitespace_cons hd fun c hc => not_isWhitespace_of_decimal hc,
    splitWhitespace_single hne fun c hc => not_isWhitespace_of_hex (mem_hexEncode hc)]

/-- An entry whose host is a plain token is read back. -/
theorem loadLine_plain (hl : Lowercase lower) (hp : Plain h) (k : KnownHosts) (n : Nat) :
    loadLine lower k n (entryLine ((h, p), fp)) = .ok (k.insert (normalizeHost lower h, p) fp) := by
  obtain ⟨hne, hws, hh⟩ := hp
  have hnil : entryLine ((h, p), fp) ≠ [] := by simp [entryLine]
  have hhead : (entryLine ((h, p), fp)).head? ≠ some '#' := by
    cases h with
    | nil => exact absurd rfl hne
    | cons x h => simpa [entryLine] using hh
  unfold loadLine
  simp only [trim_entryLine hne hws, hnil, hhead, or_self, if_false]
  have hs : splitWhitespace (entryLine ((h, p), fp)) = [h, decimal p.toNat, hexEncode fp.1] := by
    rw [entryLine, splitWhitespace_cons hne hws, splitWhitespace_port]
  simp only [hs, parseU16_decimal, parseHex32_hexEncode hl]

/-- An entry whose host starts with `#` is a comment. -/
theorem loadLine_hash (hws : ∀ c ∈ h, isWhitespace c = false) (hh : h.head? = some '#')
    (k : KnownHosts) (n : Nat) : loadLine lower k n (entryLine ((h, p), fp)) = .ok k := by
  cases h with
  | nil => simp at hh
  | cons x h =>
    have hx : x = '#' := by simpa using hh
    subst hx
    unfold loadLine
    rw [trim_entryLine (by simp) hws]
    exact if_pos (Or.inr rfl)

/-- An entry without a host has too few tokens. -/
theorem loadLine_empty (k : KnownHosts) (n : Nat) : ∃ e, loadLine lower k n (entryLine (([], p), fp)) = .error e := by
  have hd : ∃ c s, decimal p.toNat = c :: s ∧ isWhitespace c = false ∧ c ≠ '#' := by
    cases hs : decimal p.toNat with
    | nil => exact absurd hs Nat.toDigits_ne_nil
    | cons c s =>
      have hc : c ∈ decimal p.toNat := by rw [hs]; exact List.mem_cons_self
      exact ⟨c, s, rfl, not_isWhitespace_of_decimal hc, by
        rintro rfl; exact absurd (decimal_digit hc) (by decide)⟩
  obtain ⟨c, s, hs, hc, hh⟩ := hd
  have htrim : trim (entryLine (([], p), fp)) = decimal p.toNat ++ ' ' :: hexEncode fp.1 := by
    have h1 : (entryLine (([], p), fp)).dropWhile isWhitespace = decimal p.toNat ++ ' ' :: hexEncode fp.1 := by
      have hsp : isWhitespace ' ' = true := by decide
      simp [entryLine, hsp, hs, hc]
    have h2 : (decimal p.toNat ++ ' ' :: hexEncode fp.1).rdropWhile isWhitespace =
        decimal p.toNat ++ ' ' :: hexEncode fp.1 := by
      rw [List.rdropWhile_eq_self_iff]
      intro hne
      obtain ⟨d, hd, hx⟩ := getLast?_entryLine [] p fp
      rw [entryLine, List.nil_append, List.getLast?_cons_of_ne_nil (by simp),
        List.getLast?_eq_some_getLast hne, Option.some.injEq] at hd
      rw [hd, not_isWhitespace_of_hex hx]
      simp
    rw [trim, trimMatches, h1, h2]
  unfold loadLine
  simp only [htrim, splitWhitespace_port]
  rw [if_neg (by simp [hs, hh])]
  exact ⟨_, rfl⟩

end Line

/-! ## The file -/

theorem intercalate_newline (ls : List Str) (l : Str) :
    List.intercalate ['\n'] (ls ++ [l]) = (ls.flatMap fun m => m ++ ['\n']) ++ l := by
  induction ls with
  | nil => simp
  | cons m ls ih =>
    cases hm : ls ++ [l] with
    | nil => simp at hm
    | cons x xs =>
      rw [List.cons_append, hm, List.intercalate_cons_cons, ← hm, ih]
      simp

theorem lines_flatMap {ls : List Str} (h : ∀ l ∈ ls, '\n' ∉ l ∧ l.getLast? ≠ some '\r') :
    lines (ls.flatMap fun m => m ++ ['\n']) = ls := by
  simpa [lines, splitInclusive] using lines_flatMap_append h []

/-- No host holds whitespace, so that every entry is printed on one line. -/
def OneLine (k : KnownHosts) : Prop := ∀ e ∈ k.savedEntries, ∀ c ∈ e.1.1, isWhitespace c = false

theorem lines_saveText {k : KnownHosts} (hk : k.OneLine) :
    lines k.saveText = fileHeader :: k.savedEntries.map entryLine := by
  rw [saveText, intercalate_newline, List.append_nil]
  apply lines_flatMap
  intro l hl
  rcases List.mem_cons.1 hl with rfl | hl
  · decide
  · obtain ⟨e, he, rfl⟩ := List.mem_map.1 hl
    refine ⟨entryLine_noNewline (hk e he), ?_⟩
    obtain ⟨c, hc, hx⟩ := getLast?_entryLine e.1.1 e.1.2 e.2
    rw [show entryLine e = entryLine ((e.1.1, e.1.2), e.2) from rfl, hc]
    rintro h
    rw [Option.some.injEq] at h
    subst h
    exact absurd hx (by unfold IsHexDigit; decide)

theorem loadLine_header (k : KnownHosts) (n : Nat) : loadLine lower k n fileHeader = .ok k := by
  have h : trim fileHeader = fileHeader := by decide
  unfold loadLine
  rw [h]
  exact if_pos (Or.inr rfl)

/-- Entries that are read as entries. -/
def insertAll (k : KnownHosts) (es : List (HostPort × Pin)) : KnownHosts :=
  es.foldl (fun k e => k.insert e.1 e.2) k

theorem lookup_insertAll_of_notMem {es : List (HostPort × Pin)} {key : HostPort} (h : key ∉ es.map Prod.fst)
    (k : KnownHosts) : (k.insertAll es).lookup key = k.lookup key := by
  induction es generalizing k with
  | nil => rfl
  | cons e es ih =>
    simp only [List.map_cons, List.mem_cons, not_or] at h
    show ((k.insert e.1 e.2).insertAll es).lookup key = _
    rw [ih h.2, lookup_insert_ne h.1]

theorem lookup_insertAll_of_mem {es : List (HostPort × Pin)} (hnd : (es.map Prod.fst).Nodup)
    {e : HostPort × Pin} (he : e ∈ es) (k : KnownHosts) : (k.insertAll es).lookup e.1 = some e.2 := by
  induction es generalizing k with
  | nil => simp at he
  | cons x es ih =>
    simp only [List.map_cons, List.nodup_cons] at hnd
    show ((k.insert x.1 x.2).insertAll es).lookup e.1 = _
    rcases List.mem_cons.1 he with rfl | he
    · rw [lookup_insertAll_of_notMem hnd.1, lookup_insert_self]
    · exact ih hnd.2 he _

theorem mem_savedEntries {k : KnownHosts} {e : HostPort × Pin} : e ∈ k.savedEntries ↔ k.lookup e.1 = some e.2 := by
  simp only [savedEntries, sortedKeys, List.mem_filterMap, Option.map_eq_some_iff]
  constructor
  · rintro ⟨key, -, fp, hfp, rfl⟩; exact hfp
  · intro h
    exact ⟨e.1, List.mem_mergeSort.2 (mem_keys_iff.2 ⟨_, h⟩), e.2, h, rfl⟩

theorem savedEntries_keys_nodup (k : KnownHosts) : (k.savedEntries.map Prod.fst).Nodup := by
  have hs : (k.savedEntries.map Prod.fst).Sublist k.sortedKeys := by
    unfold savedEntries
    generalize k.sortedKeys = ks
    induction ks with
    | nil => exact List.Sublist.slnil
    | cons key ks ih =>
      rw [List.filterMap_cons]
      cases k.lookup key with
      | none => exact ih.cons key
      | some fp => exact ih.cons_cons key
  exact hs.nodup ((List.mergeSort_perm _ _).nodup_iff.2 k.pins.keys_nodup)

theorem loadLines_entries (hl : Lowercase lower) {es : List (HostPort × Pin)}
    (hn : ∀ e ∈ es, normalizeHost lower e.1.1 = e.1.1)
    (hp : ∀ e ∈ es, e.1.1 ≠ [] ∧ ∀ c ∈ e.1.1, isWhitespace c = false) (k : KnownHosts) (n : Nat) :
    loadLines lower k n (es.map entryLine) =
      .ok (k.insertAll (es.filter fun e => decide (e.1.1.head? ≠ some '#'))) := by
  induction es generalizing k n with
  | nil => rfl
  | cons e es ih =>
    have ih := ih (fun x hx => hn x (List.mem_cons_of_mem _ hx)) (fun x hx => hp x (List.mem_cons_of_mem _ hx))
    obtain ⟨⟨h, p⟩, fp⟩ := e
    obtain ⟨hne, hws⟩ := hp _ List.mem_cons_self
    simp only [List.map_cons, loadLines]
    by_cases hh : h.head? = some '#'
    · rw [loadLine_hash hws hh]
      simp only [ih, List.filter_cons, hh, ne_eq, not_true_eq_false, decide_false, Bool.false_eq_true, if_false]
    · rw [loadLine_plain hl ⟨hne, hws, hh⟩, hn _ List.mem_cons_self]
      simp only [ih, List.filter_cons, hh, ne_eq, not_false_eq_true, decide_true, if_true]
      rfl

theorem loadLines_error {ls : List Str} {l : Str} (h : ∀ k n, ∃ e, loadLine lower k n l = .error e)
    (hl : l ∈ ls) (k : KnownHosts) (n : Nat) : ∃ e, loadLines lower k n ls = .error e := by
  induction ls generalizing k n with
  | nil => simp at hl
  | cons m ls ih =>
    simp only [loadLines]
    rcases List.mem_cons.1 hl with rfl | hl
    · obtain ⟨e, he⟩ := h k n
      exact ⟨e, by rw [he]⟩
    · cases loadLine lower k n m with
      | error e => exact ⟨e, rfl⟩
      | ok k' => exact ih hl k' (n + 1)

/-- **What a reload makes of a saved store** without whitespace in its hosts. -/
theorem load_saveText (hl : Lowercase lower) {k : KnownHosts}
    (hn : ∀ e ∈ k.savedEntries, normalizeHost lower e.1.1 = e.1.1)
    (hp : ∀ e ∈ k.savedEntries, e.1.1 ≠ [] ∧ ∀ c ∈ e.1.1, isWhitespace c = false) :
    load lower (some k.saveText) =
      .ok (default.insertAll (k.savedEntries.filter fun e => decide (e.1.1.head? ≠ some '#'))) := by
  simp only [load, lines_saveText fun e he => (hp e he).2, loadLines, loadLine_header]
  exact loadLines_entries hl hn hp default 1

/-! ## Stores the code can hold -/

/-- What any sequence of `load` on an accepted text and `insert_hex` produces. -/
inductive Reachable (lower : Str → Str) : KnownHosts → Prop
  | load {text : Option Str} {k : KnownHosts} : load lower text = .ok k → Reachable lower k
  | insertHex {k k' : KnownHosts} {host hexFp : Str} {port : UInt16} : Reachable lower k →
      insertHex lower k host port hexFp = .ok k' → Reachable lower k'

theorem Reachable.absent : Reachable lower default := by
  have h : KnownHosts.load lower none = .ok default := rfl
  exact .load h

theorem insertHex_ok {k k' : KnownHosts} {host hexFp : Str} {port : UInt16}
    (h : insertHex lower k host port hexFp = .ok k') :
    ∃ fp, parseHex32 lower hexFp = .ok fp ∧ k' = k.insert (normalizeHost lower host, port) fp := by
  unfold KnownHosts.insertHex at h
  cases hp : parseHex32 lower hexFp with
  | error e => rw [hp] at h; cases h
  | ok fp => rw [hp] at h; cases h; exact ⟨fp, rfl, rfl⟩

/-- The host token of a line that `load` reads as an entry. -/
def hostToken (line : Str) : Option Str :=
  if trim line = [] ∨ (trim line).head? = some '#' then none else (splitWhitespace (trim line)).head?

/-- One line adds at most one pin, under the normalized host token of that line. -/
theorem loadLine_ok {k k' : KnownHosts} {n : Nat} {line : Str} (h : loadLine lower k n line = .ok k') :
    k' = k ∨ ∃ t p fp, hostToken line = some t ∧ t ∈ splitWhitespace (trim line) ∧
      k' = k.insert (normalizeHost lower t, p) fp := by
  simp only [loadLine] at h
  split at h
  · cases h; exact Or.inl rfl
  · rename_i hc
    split at h
    · rename_i host port fp rest hs
      split at h
      · cases h
      · split at h
        · cases h
        · cases h
          exact Or.inr ⟨host, _, _, by simp [hostToken, hc, hs], by simp [hs], rfl⟩
    · cases h

theorem loadLines_keys (P : Str → Prop) {ls : List Str}
    (hP : ∀ l ∈ ls, ∀ t, hostToken l = some t → t ∈ splitWhitespace (trim l) → P (normalizeHost lower t))
    {k k' : KnownHosts} {n : Nat} (h : loadLines lower k n ls = .ok k')
    (hk : ∀ key fp, k.lookup key = some fp → P key.1) : ∀ key fp, k'.lookup key = some fp → P key.1 := by
  induction ls generalizing k n with
  | nil => cases h; exact hk
  | cons l ls ih =>
    simp only [loadLines] at h
    cases hline : loadLine lower k n l with
    | error e => rw [hline] at h; cases h
    | ok k1 =>
      rw [hline] at h
      refine ih (fun m hm => hP m (List.mem_cons_of_mem _ hm)) h ?_
      rcases loadLine_ok hline with rfl | ⟨t, p, fp, ht, hm, rfl⟩
      · exact hk
      · intro key fp' hl
        rw [lookup_insert] at hl
        split at hl
        · rename_i he; subst he; exact hP l List.mem_cons_self t ht hm
        · exact hk key fp' hl

/-- Every host a load returns is a normalized token. -/
theorem load_keys (hl : Lowercase lower) {text : Option Str} {k : KnownHosts} (h : load lower text = .ok k)
    {key : HostPort} {fp : Pin} (hk : k.lookup key = some fp) :
    normalizeHost lower key.1 = key.1 ∧ ∀ c ∈ key.1, isWhitespace c = false := by
  cases text with
  | none => cases h; simp at hk
  | some text =>
    refine loadLines_keys (fun h => normalizeHost lower h = h ∧ ∀ c ∈ h, isWhitespace c = false) ?_ h
      (by simp) key fp hk
    intro l _ t _ hm
    exact ⟨normalizeHost_idem hl t, normalizeHost_noWhitespace hl (mem_splitWhitespace hm).2⟩

theorem Reachable.normalized (hl : Lowercase lower) {k : KnownHosts} (h : Reachable lower k) :
    ∀ key fp, k.lookup key = some fp → normalizeHost lower key.1 = key.1 := by
  induction h with
  | load h => exact fun key fp hk => (load_keys hl h hk).1
  | insertHex _ h ih =>
    obtain ⟨fp', -, rfl⟩ := insertHex_ok h
    intro key fp hk
    rw [lookup_insert] at hk
    split at hk
    · rename_i he; subst he; exact normalizeHost_idem hl _
    · exact ih key fp hk

/-! ## Round trip -/

/-- `save` followed by `load` succeeds and returns the same map. -/
def RoundTrips (lower : Str → Str) (k : KnownHosts) : Prop :=
  ∃ k', load lower (some k.saveText) = .ok k' ∧ ∀ key, k'.lookup key = k.lookup key

theorem roundTrips_of_plain (hl : Lowercase lower) {k : KnownHosts} (hk : Reachable lower k)
    (hp : ∀ key fp, k.lookup key = some fp → Plain key.1) : RoundTrips lower k := by
  have hmem : ∀ e ∈ k.savedEntries, k.lookup e.1 = some e.2 := fun e he => mem_savedEntries.1 he
  have hfilter : k.savedEntries.filter (fun e => decide (e.1.1.head? ≠ some '#')) = k.savedEntries := by
    rw [List.filter_eq_self]
    intro e he
    simpa using (hp _ _ (hmem e he)).2.2
  refine ⟨_, load_saveText hl (fun e he => hk.normalized hl _ _ (hmem e he))
    (fun e he => ⟨(hp _ _ (hmem e he)).1, (hp _ _ (hmem e he)).2.1⟩), ?_⟩
  rw [hfilter]
  intro key
  cases hkey : k.lookup key with
  | none =>
    rw [lookup_insertAll_of_notMem, lookup_default]
    intro hm
    obtain ⟨e, he, rfl⟩ := List.mem_map.1 hm
    rw [hmem e he] at hkey
    cases hkey
  | some fp =>
    have hm : (key, fp) ∈ k.savedEntries := mem_savedEntries.2 hkey
    exact lookup_insertAll_of_mem k.savedEntries_keys_nodup hm default

theorem plain_of_roundTrips (hl : Lowercase lower) {k : KnownHosts} (hk : Reachable lower k)
    (h : RoundTrips lower k) {key : HostPort} {fp : Pin} (hkey : k.lookup key = some fp) : Plain key.1 := by
  obtain ⟨k', hload, heq⟩ := h
  -- a reload holds no host with whitespace, so the store holds none
  have hws : ∀ key fp, k.lookup key = some fp → ∀ c ∈ key.1, isWhitespace c = false :=
    fun key fp hk => (load_keys hl hload (by rw [heq, hk])).2
  have hone : k.OneLine := fun e he => hws _ _ (mem_savedEntries.1 he)
  have hne : ∀ e ∈ k.savedEntries, e.1.1 ≠ [] := by
    rintro ⟨⟨host, p⟩, fp⟩ he rfl
    have hm : entryLine (([], p), fp) ∈ fileHeader :: k.savedEntries.map entryLine :=
      List.mem_cons_of_mem _ (List.mem_map.2 ⟨_, he, rfl⟩)
    obtain ⟨e, herr⟩ := loadLines_error (fun k n => loadLine_empty k n) hm default 0
    rw [← lines_saveText hone] at herr
    rw [load, herr] at hload
    cases hload
  have hn : ∀ e ∈ k.savedEntries, normalizeHost lower e.1.1 = e.1.1 :=
    fun e he => hk.normalized hl _ _ (mem_savedEntries.1 he)
  refine ⟨hne (key, fp) (mem_savedEntries.2 hkey), hws key fp hkey, fun hh => ?_⟩
  rw [load_saveText hl hn fun e he => ⟨hne e he, hone e he⟩, Except.ok.injEq] at hload
  have hnone := heq key
  rw [hkey, ← hload, lookup_insertAll_of_notMem, lookup_default] at hnone
  · cases hnone
  · intro hm
    obtain ⟨e, he, rfl⟩ := List.mem_map.1 hm
    simp [hh] at he

/-- What sequences of `load` and `insert_hex` produce when every host given to them, by an argument
or by a line of a file, is a plain token after normalization. -/
inductive PlainRun (lower : Str → Str) : KnownHosts → Prop
  | absent : PlainRun lower default
  | load {text : Str} {k : KnownHosts} : (∀ l ∈ lines text, ∀ t, hostToken l = some t → Plain (normalizeHost lower t)) →
      load lower (some text) = .ok k → PlainRun lower k
  | insertHex {k k' : KnownHosts} {host hexFp : Str} {port : UInt16} : PlainRun lower k →
      Plain (normalizeHost lower host) → insertHex lower k host port hexFp = .ok k' → PlainRun lower k'

theorem PlainRun.reachable {k : KnownHosts} (h : PlainRun lower k) : Reachable lower k := by
  induction h with
  | absent => exact Reachable.absent
  | load _ h => exact .load h
  | insertHex _ _ h ih => exact .insertHex ih h

theorem PlainRun.plain {k : KnownHosts} (h : PlainRun lower k) :
    ∀ key fp, k.lookup key = some fp → Plain key.1 := by
  induction h with
  | absent => simp
  | load hp h => exact loadLines_keys Plain (fun l hl t ht _ => hp l hl t ht) h (by simp)
  | insertHex _ hp h ih =>
    obtain ⟨fp', -, rfl⟩ := insertHex_ok h
    intro key fp hk
    rw [lookup_insert] at hk
    split at hk
    · rename_i he; subst he; exact hp
    · exact ih key fp hk

/-- **Exactly which stores survive save and reload**: those whose hosts are all plain tokens; and
every store of a run that is only given such hosts does. -/
theorem saveText_roundTrip_iff (hl : Lowercase lower) :
    (∀ k, Reachable lower k → (RoundTrips lower k ↔ ∀ key fp, k.lookup key = some fp → Plain key.1)) ∧
    ∀ k, PlainRun lower k → RoundTrips lower k :=
  ⟨fun _ hk => ⟨fun h _ _ hkey => plain_of_roundTrips hl hk h hkey, roundTrips_of_plain hl hk⟩,
    fun _ hk => roundTrips_of_plain hl hk.reachable hk.plain⟩

/-- `[0xaa; 32]` -/
def pinAA : Pin := ⟨List.replicate 32 0xaa, by simp⟩

theorem parseHex32_repeat_a : parseHex32 asciiLower (List.replicate 64 'a') = .ok pinAA := by decide

theorem insertHex_repeat_a {k : KnownHosts} (host : Str) (port : UInt16) :
    insertHex asciiLower k host port (List.replicate 64 'a') =
      .ok (k.insert (normalizeHost asciiLower host, port) pinAA) := by
  rw [KnownHosts.insertHex, parseHex32_repeat_a]

theorem normalizeHost_localhost : normalizeHost asciiLower "127.0.0.1".toList = "127.0.0.1".toList := by
  decide

theorem plain_localhost : Plain "127.0.0.1".toList := by
  have hws : "127.0.0.1".toList.all (fun c => !isWhitespace c) = true := by decide
  refine ⟨by simp, fun c hc => ?_, by simp⟩
  simpa using List.all_eq_true.mp hws c hc

/-- The store of the test `roundtrip_save_load`. -/
theorem saveText_roundTrip_localhost :
    RoundTrips asciiLower (default.insert (normalizeHost asciiLower "127.0.0.1".toList, 8443) pinAA) := by
  apply (saveText_roundTrip_iff lowercase_asciiLower).2
  have hp : Plain (normalizeHost asciiLower "127.0.0.1".toList) := by
    rw [normalizeHost_localhost]; exact plain_localhost
  exact .insertHex .absent hp (insertHex_repeat_a "127.0.0.1".toList 8443)

/-- `sao trust add '#build' 8443 aa…aa` is accepted, and the pin is gone after the next load. -/
theorem saveText_drops_hash_host :
    ¬ ∀ k, Reachable asciiLower k → RoundTrips asciiLower k := by
  intro h
  have hr : Reachable asciiLower (default.insert (normalizeHost asciiLower "#build".toList, 8443) pinAA) :=
    .insertHex .absent (insertHex_repeat_a "#build".toList 8443)
  have hp := plain_of_roundTrips lowercase_asciiLower hr (h _ hr) (lookup_insert_self _ _ _)
  exact hp.2.2 (by decide)

end KnownHosts

end Sao
