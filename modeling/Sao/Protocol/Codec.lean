import Sao.Protocol.Frame

/-!
# `FrameCodec::read_frame` / `FrameCodec::write_frame` (`codec.rs`)

A stream read to its end is the list of the bytes still to come; a stream written to is the
list of the bytes on it. `read_exact` on a stream that ends early is the only failure a byte list
has (`UnexpectedEof`).

* `readFrame_ok_iff` — `read_frame` succeeds exactly on an encoded frame within the maximum, and
  leaves what follows it.
* `encodeFrame_ok_iff` — `write_frame` accepts exactly the payloads within the maximum.
* `readFrame_error` — which error `read_frame` gives on any other input.
* `readFrame_error_append` — what follows changes an error only if the stream ended too early.
-/

namespace Sao

open Bytes

/-- `usize::MAX` of a 64-bit target. -/
def usizeMax : Nat := 0xFFFFFFFFFFFFFFFF

/-- `usize::try_from(payload_len)` -/
def usizeTryFrom (n : UInt32) : Except ProtocolError Nat :=
  if n.toNat ≤ usizeMax then .ok n.toNat else .error (.payloadLengthOverflow n)

/-- `read_exact` into a buffer of `n` bytes. -/
def readExact (n : Nat) (s : Bytes) : Except ProtocolError (Bytes × Bytes) :=
  if n ≤ s.length then .ok (s.take n, s.drop n) else .error .unexpectedEof

/-- `FrameCodec::read_frame`: the frame and the rest of the stream. -/
def readFrame (maxPayloadLen : UInt32) (s : Bytes) : Except ProtocolError (Frame × Bytes) := do
  let (hdr, s) ← readExact HEADER_LEN s
  let (_version, msgType, payloadLen) ← parseHeader hdr
  if payloadLen > maxPayloadLen then
    throw (.payloadTooLarge payloadLen maxPayloadLen)
  let len ← usizeTryFrom payloadLen
  if len > 0 then
    let (payload, s) ← readExact len s
    return (⟨msgType, payload⟩, s)
  else
    return (⟨msgType, []⟩, s)

/-- The bytes `write_frame` writes, or its error before it writes any. -/
def encodeFrame (maxPayloadLen : UInt32) (msgType : UInt8) (payload : Bytes) :
    Except ProtocolError Bytes :=
  -- `u32::try_from(payload.len())` fails from 2^32 on
  if 2 ^ 32 ≤ payload.length then .error (.payloadTooLarge 0xFFFFFFFF maxPayloadLen)
  else if UInt32.ofNat payload.length > maxPayloadLen then
    .error (.payloadTooLarge (UInt32.ofNat payload.length) maxPayloadLen)
  else .ok (writeHeader VERSION msgType (UInt32.ofNat payload.length) ++ payload)

/-- `FrameCodec::write_frame` on a stream that holds `out`. -/
def writeFrame (maxPayloadLen : UInt32) (out : Bytes) (msgType : UInt8) (payload : Bytes) :
    Bytes × Except ProtocolError Unit :=
  match encodeFrame maxPayloadLen msgType payload with
  | .ok b => (out ++ b, .ok ())
  | .error e => (out, .error e)

/-! ## The encoding of a frame -/

def encode (f : Frame) : Bytes := writeHeader VERSION f.msgType (UInt32.ofNat f.payload.length) ++ f.payload

/-- The payload is within the codec's maximum. -/
def Frame.Fits (maxPayloadLen : UInt32) (f : Frame) : Prop := f.payload.length ≤ maxPayloadLen.toNat

instance (M : UInt32) (f : Frame) : Decidable (f.Fits M) := inferInstanceAs (Decidable (_ ≤ _))

@[simp] theorem length_encode (f : Frame) : (encode f).length = 9 + f.payload.length := by
  simp [encode]

/-- No encoded frame is longer. -/
def MAX_FRAME_LEN : Nat := HEADER_LEN + DEFAULT_MAX_PAYLOAD_LEN.toNat

theorem length_encode_le {f : Frame} (h : f.Fits DEFAULT_MAX_PAYLOAD_LEN) : (encode f).length ≤ MAX_FRAME_LEN := by
  rw [length_encode]
  exact Nat.add_le_add_left h 9

theorem encode_ne_nil (f : Frame) : encode f ≠ [] := by
  intro h
  have := congrArg List.length h
  simp at this

theorem Frame.Fits.mono {M N : UInt32} {f : Frame} (h : f.Fits M) (hMN : M ≤ N) : f.Fits N :=
  Nat.le_trans h (UInt32.le_iff_toNat_le.1 hMN)

theorem toNat_ofNat_length {p : Bytes} {M : UInt32} (h : p.length ≤ M.toNat) :
    (UInt32.ofNat p.length).toNat = p.length := by
  have := M.toNat_lt
  rw [UInt32.toNat_ofNat', Nat.mod_eq_of_lt (by omega)]

theorem encodeFrame_ok_iff {M : UInt32} {t : UInt8} {p b : Bytes} :
    encodeFrame M t p = .ok b ↔ Frame.Fits M ⟨t, p⟩ ∧ b = encode ⟨t, p⟩ := by
  have hM := M.toNat_lt
  unfold encodeFrame Frame.Fits
  split
  · rename_i hbig
    constructor
    · intro h; cases h
    · rintro ⟨h, -⟩; simp only at h; omega
  · rename_i hsmall
    have hn : (UInt32.ofNat p.length).toNat = p.length := by
      rw [UInt32.toNat_ofNat', Nat.mod_eq_of_lt (by omega)]
    split
    · rename_i hgt
      rw [gt_iff_lt, UInt32.lt_iff_toNat_lt, hn] at hgt
      constructor
      · intro h; cases h
      · rintro ⟨h, -⟩; simp only at h; omega
    · rename_i hle
      rw [gt_iff_lt, UInt32.lt_iff_toNat_lt, hn] at hle
      simp only [Except.ok.injEq]
      exact ⟨fun h => ⟨by omega, h.symm⟩, fun h => h.2.symm⟩

theorem encodeFrame_fits {M : UInt32} {f : Frame} (h : f.Fits M) :
    encodeFrame M f.msgType f.payload = .ok (encode f) := encodeFrame_ok_iff.2 ⟨h, rfl⟩

/-- A payload over the maximum is rejected as `PayloadTooLarge`. -/
theorem encodeFrame_not_fits {M : UInt32} {f : Frame} (h : ¬ f.Fits M) :
    ∃ len, encodeFrame M f.msgType f.payload = .error (.payloadTooLarge len M) := by
  cases he : encodeFrame M f.msgType f.payload with
  | ok b => exact absurd (encodeFrame_ok_iff.1 he).1 h
  | error e =>
    unfold encodeFrame at he
    split at he
    · exact ⟨_, by simp only [Except.error.injEq] at he; rw [he]⟩
    · split at he
      · exact ⟨_, by simp only [Except.error.injEq] at he; rw [he]⟩
      · cases he

/-! ## `read_frame` on a stream that begins with a frame -/

theorem usizeTryFrom_ok (n : UInt32) : usizeTryFrom n = .ok n.toNat := by
  have h : n.toNat ≤ usizeMax := Nat.le_trans (Nat.le_of_lt n.toNat_lt) (by decide)
  exact if_pos h

theorem readExact_append (a b : Bytes) : readExact a.length (a ++ b) = .ok (a, b) := by
  simp [readExact]

/-- Reading past a header that parses. -/
theorem readFrame_of_parseHeader {M n : UInt32} {v t : UInt8} {hdr s : Bytes} (hlen : hdr.length = HEADER_LEN)
    (hp : parseHeader hdr = .ok (v, t, n)) : readFrame M (hdr ++ s) =
      if n > M then .error (.payloadTooLarge n M)
      else if n.toNat ≤ s.length then .ok (⟨t, s.take n.toNat⟩, s.drop n.toNat)
      else .error .unexpectedEof := by
  have hx : readExact HEADER_LEN (hdr ++ s) = .ok (hdr, s) := hlen ▸ readExact_append hdr s
  simp only [readFrame, hx, bind, Except.bind, hp, usizeTryFrom_ok]
  by_cases hg : n > M
  · simp only [hg, if_true]; rfl
  · by_cases h0 : n.toNat > 0
    · by_cases hn : n.toNat ≤ s.length <;> simp [hg, h0, hn, readExact, pure, Except.pure]
    · have hz : n.toNat = 0 := by omega
      simp [hg, hz, pure, Except.pure]

theorem readFrame_header (M : UInt32) (t : UInt8) (n : UInt32) (s : Bytes) :
    readFrame M (writeHeader VERSION t n ++ s) =
      if n > M then .error (.payloadTooLarge n M)
      else if n.toNat ≤ s.length then .ok (⟨t, s.take n.toNat⟩, s.drop n.toNat)
      else .error .unexpectedEof :=
  readFrame_of_parseHeader (length_writeHeader VERSION t n) (parseHeader_writeHeader t n)

theorem readFrame_encode {M : UInt32} {f : Frame} (h : f.Fits M) (t : Bytes) :
    readFrame M (encode f ++ t) = .ok (f, t) := by
  have hn := toNat_ofNat_length h
  have hle : ¬ UInt32.ofNat f.payload.length > M := by
    rw [gt_iff_lt, UInt32.lt_iff_toNat_lt, hn]
    exact Nat.not_lt.2 h
  rw [encode, List.append_assoc, readFrame_header, if_neg hle, hn]
  simp

/-- **`read_frame` succeeds exactly on an encoded frame**, and leaves what follows it. -/
theorem readFrame_ok_iff {M : UInt32} {s : Bytes} {f : Frame} {r : Bytes} :
    readFrame M s = .ok (f, r) ↔ f.Fits M ∧ s = encode f ++ r := by
  constructor
  · intro h
    by_cases hl : 9 ≤ s.length
    · have hs : s = s.take 9 ++ s.drop 9 := (List.take_append_drop 9 s).symm
      have hx : readExact HEADER_LEN s = .ok (s.take 9, s.drop 9) := by simp [readExact, HEADER_LEN, hl]
      cases hp : parseHeader (s.take 9) with
      | error e => simp [readFrame, hx, bind, Except.bind, hp] at h
      | ok v =>
        obtain ⟨v, t, n⟩ := v
        have hh : s.take 9 = writeHeader VERSION t n := parseHeader_ok (by simp; omega) hp
        rw [hs, hh, readFrame_header] at h
        split at h
        · cases h
        · rename_i hle
          split at h
          · rename_i hn
            simp only [Except.ok.injEq, Prod.mk.injEq] at h
            obtain ⟨rfl, rfl⟩ := h
            rw [gt_iff_lt, UInt32.lt_iff_toNat_lt] at hle
            have hlen : ((s.drop 9).take n.toNat).length = n.toNat := by simp only [List.length_take]; omega
            refine ⟨?_, ?_⟩
            · show ((s.drop 9).take n.toNat).length ≤ M.toNat
              omega
            · rw [encode]
              simp only [hlen, UInt32.ofNat_toNat, List.append_assoc, List.take_append_drop]
              rw [← hh, List.take_append_drop]
          · cases h
    · have hx : readExact HEADER_LEN s = .error .unexpectedEof := by simp [readExact, HEADER_LEN, hl]
      simp [readFrame, hx, bind, Except.bind] at h
  · rintro ⟨hf, rfl⟩
    exact readFrame_encode hf r

theorem readFrame_length {M : UInt32} {s : Bytes} {f : Frame} {r : Bytes}
    (h : readFrame M s = .ok (f, r)) : r.length < s.length := by
  obtain ⟨-, rfl⟩ := readFrame_ok_iff.1 h
  simp only [List.length_append, length_encode]
  omega

/-! ## The errors of `read_frame` -/

/-- The payload length a header declares. -/
def declaredLen (s : Bytes) : UInt32 := fromBeBytes (s.getD 5 0) (s.getD 6 0) (s.getD 7 0) (s.getD 8 0)

/-- Fewer bytes than the header, or than the header and the payload length it declares. -/
def Truncated (M : UInt32) (s : Bytes) : Prop :=
  s.length < 9 ∨ (s.take 3 = MAGIC ∧ s.getD 3 0 = VERSION ∧ declaredLen s ≤ M ∧
    s.length < 9 + (declaredLen s).toNat)

theorem getD_take {s : Bytes} {i n : Nat} (h : i < n) : (s.take n).getD i 0 = s.getD i 0 := by
  rw [List.getD_eq_getElem?_getD, List.getD_eq_getElem?_getD, List.getElem?_take_of_lt h]

theorem parseHeader_take (s : Bytes) : parseHeader (s.take 9) =
    if s.take 3 ≠ MAGIC then .error .invalidMagic
    else if s.getD 3 0 ≠ VERSION then .error (.unsupportedVersion (s.getD 3 0))
    else .ok (s.getD 3 0, s.getD 4 0, declaredLen s) := by
  have h3 : (s.take 9).take 3 = s.take 3 := by rw [List.take_take]; rfl
  simp only [parseHeader, h3, getD_take (show 3 < 9 by omega), getD_take (show 4 < 9 by omega),
    getD_take (show 5 < 9 by omega), getD_take (show 6 < 9 by omega), getD_take (show 7 < 9 by omega),
    getD_take (show 8 < 9 by omega), declaredLen]

/-- `read_frame`, header check by header check. -/
theorem readFrame_eq (M : UInt32) (s : Bytes) : readFrame M s =
    if s.length < 9 then .error .unexpectedEof
    else if s.take 3 ≠ MAGIC then .error .invalidMagic
    else if s.getD 3 0 ≠ VERSION then .error (.unsupportedVersion (s.getD 3 0))
    else if declaredLen s > M then .error (.payloadTooLarge (declaredLen s) M)
    else if s.length < 9 + (declaredLen s).toNat then .error .unexpectedEof
    else .ok (⟨s.getD 4 0, (s.drop 9).take (declaredLen s).toNat⟩, (s.drop 9).drop (declaredLen s).toNat) := by
  by_cases hl : s.length < 9
  · have hx : readExact HEADER_LEN s = .error .unexpectedEof := if_neg (Nat.not_le.2 hl)
    simp [readFrame, hx, bind, Except.bind, hl]
  · have hx : readExact HEADER_LEN s = .ok (s.take 9, s.drop 9) := if_pos (Nat.not_lt.1 hl)
    rw [if_neg hl]
    cases hp : parseHeader (s.take 9) with
    | error e =>
      have hr : readFrame M s = .error e := by simp [readFrame, hx, bind, Except.bind, hp]
      rw [parseHeader_take] at hp
      rw [hr]
      split at hp
      · rename_i hm; rw [if_pos hm]; cases hp; rfl
      · rename_i hm
        rw [if_neg hm]
        split at hp
        · rename_i hv; rw [if_pos hv]; cases hp; rfl
        · cases hp
    | ok v =>
      obtain ⟨v, t, n⟩ := v
      have hh : s.take 9 = writeHeader VERSION t n := parseHeader_ok (by simp; omega) hp
      rw [parseHeader_take] at hp
      split at hp
      · cases hp
      · rename_i hm
        split at hp
        · cases hp
        · rename_i hv
          simp only [Except.ok.injEq, Prod.mk.injEq] at hp
          obtain ⟨-, rfl, rfl⟩ := hp
          rw [if_neg hm, if_neg hv]
          conv_lhs => rw [← List.take_append_drop 9 s, hh, readFrame_header]
          by_cases hn : (declaredLen s).toNat ≤ (s.drop 9).length
          · rw [if_pos hn, if_neg (show ¬ s.length < 9 + (declaredLen s).toNat by
              rw [List.length_drop] at hn; omega)]
          · rw [if_neg hn, if_pos (show s.length < 9 + (declaredLen s).toNat by
              rw [List.length_drop] at hn; omega)]

theorem readFrame_truncated {M : UInt32} {s : Bytes} (h : Truncated M s) :
    readFrame M s = .error .unexpectedEof := by
  rw [readFrame_eq]
  rcases h with h | ⟨hm, hv, hd, hl⟩
  · rw [if_pos h]
  · have hd' : ¬ declaredLen s > M := by
      rw [gt_iff_lt, UInt32.lt_iff_toNat_lt]; exact Nat.not_lt.2 (UInt32.le_iff_toNat_le.1 hd)
    by_cases hs : s.length < 9
    · rw [if_pos hs]
    · rw [if_neg hs, if_neg (not_not_intro hm), if_neg (not_not_intro hv), if_neg hd', if_pos hl]

/-- **The precedence of the errors**: end of stream, magic, version, length. -/
theorem readFrame_error {M : UInt32} {s : Bytes} {e : ProtocolError} (h : readFrame M s = .error e) :
    (e = .unexpectedEof ↔ Truncated M s) ∧
    (¬ Truncated M s → (e = .invalidMagic ↔ s.take 3 ≠ MAGIC)) ∧
    (¬ Truncated M s → s.take 3 = MAGIC →
      ((e = .unsupportedVersion (s.getD 3 0) ↔ s.getD 3 0 ≠ VERSION) ∧
        (s.getD 3 0 = VERSION → e = .payloadTooLarge (declaredLen s) M))) := by
  rw [readFrame_eq] at h
  split at h
  · rename_i hl
    simp only [Except.error.injEq] at h
    have ht : Truncated M s := Or.inl hl
    subst h
    simp [ht]
  · rename_i hl
    split at h
    · rename_i hm
      simp only [Except.error.injEq] at h
      subst h
      refine ⟨⟨fun h => (by cases h), fun ht => ?_⟩, fun _ => by simp [hm], fun _ h => absurd h hm⟩
      rcases ht with ht | ht
      · exact absurd ht hl
      · exact absurd ht.1 hm
    · rename_i hm
      simp only [ne_eq, Decidable.not_not] at hm
      split at h
      · rename_i hv
        simp only [Except.error.injEq] at h
        subst h
        refine ⟨⟨fun h => (by cases h), fun ht => ?_⟩, fun _ => by simp [hm], fun _ _ => ?_⟩
        · rcases ht with ht | ht
          · exact absurd ht hl
          · exact absurd ht.2.1 hv
        · exact ⟨⟨fun _ => hv, fun _ => rfl⟩, fun h => absurd h hv⟩
      · rename_i hv
        simp only [ne_eq, Decidable.not_not] at hv
        split at h
        · rename_i hd
          simp only [Except.error.injEq] at h
          subst h
          refine ⟨⟨fun h => (by cases h), fun ht => ?_⟩, fun _ => by simp [hm],
            fun _ _ => ⟨⟨fun h => (by cases h), fun h => absurd hv h⟩, fun _ => rfl⟩⟩
          rcases ht with ht | ht
          · exact absurd ht hl
          · rw [gt_iff_lt, UInt32.lt_iff_toNat_lt] at hd
            exact absurd (UInt32.le_iff_toNat_le.1 ht.2.2.1) (by omega)
        · rename_i hd
          split at h
          · rename_i hlen
            simp only [Except.error.injEq] at h
            have hle : declaredLen s ≤ M := by
              rw [gt_iff_lt, UInt32.lt_iff_toNat_lt] at hd
              exact UInt32.le_iff_toNat_le.2 (by omega)
            have ht : Truncated M s := Or.inr ⟨hm, hv, hle, hlen⟩
            subst h
            simp [ht]
          · cases h

/-- An error that is not the end of the stream stands, whatever follows. -/
theorem readFrame_error_append {M : UInt32} {s : Bytes} {e : ProtocolError} (h : readFrame M s = .error e)
    (he : e ≠ .unexpectedEof) (t : Bytes) : readFrame M (s ++ t) = .error e := by
  rw [readFrame_eq] at h
  split at h
  · cases h
    exact absurd rfl he
  rename_i hl
  have hget : ∀ i, i < 9 → (s ++ t).getD i 0 = s.getD i 0 := fun i hi => by
    rw [List.getD_eq_getElem?_getD, List.getD_eq_getElem?_getD, List.getElem?_append_left (by omega)]
  have hlen : declaredLen (s ++ t) = declaredLen s := by
    simp only [declaredLen, hget 5 (by omega), hget 6 (by omega), hget 7 (by omega), hget 8 (by omega)]
  rw [readFrame_eq, if_neg (by rw [List.length_append]; omega), List.take_append_of_le_length (by omega),
    hget 3 (by omega), hlen]
  split at h
  · rename_i hm
    rw [if_pos hm, h]
  rename_i hm
  rw [if_neg hm]
  split at h
  · rename_i hv
    rw [if_pos hv, h]
  rename_i hv
  rw [if_neg hv]
  split at h
  · rename_i hd
    rw [if_pos hd, h]
  split at h
  · cases h
    exact absurd rfl he
  · cases h

end Sao
