import Sao.Lib.Stream
import Sao.Protocol.Codec

/-!
# Streams of frames

`FrameCodec` is a self-delimiting code (`frameCode`), so repeated `read_frame` and repeated
`write_frame` inherit the laws of `Stream.Code`.

* `writeFrames_readFrames` — what a sequence of `write_frame` calls leaves on the wire is read back
  as exactly the accepted calls, by any reader whose maximum is not smaller.
* `readAll_classifies` — every byte string is the encodings of the frames `read_frame` returns
  followed by a remainder that begins with no frame and determines the error; a truncated stream
  gives its whole frames and then `UnexpectedEof`.
-/

namespace Sao

/-- `FrameCodec` with a given maximum, as a code. -/
def frameCode (M : UInt32) : Stream.Code Frame ProtocolError where
  Valid := Frame.Fits M
  encode := encode
  read := readFrame M
  encode_ne_nil := encode_ne_nil
  read_ok_iff := readFrame_ok_iff

/-- What accepted `write_frame` calls put on the stream, in order. -/
def encodeAll (fs : List Frame) : Bytes := fs.flatMap encode

/-- `n` calls of `read_frame`. -/
def readFrames (M : UInt32) : Nat → Bytes → Except ProtocolError (List Frame × Bytes) := Stream.readN (frameCode M)

@[simp] theorem encodeAll_nil : encodeAll [] = [] := rfl

@[simp] theorem encodeAll_cons (f : Frame) (fs : List Frame) : encodeAll (f :: fs) = encode f ++ encodeAll fs := rfl

@[simp] theorem encodeAll_append (fs gs : List Frame) : encodeAll (fs ++ gs) = encodeAll fs ++ encodeAll gs := by
  simp [encodeAll]

theorem readFrames_encodeAll {M : UInt32} {fs : List Frame} (h : ∀ f ∈ fs, f.Fits M) (t : Bytes) :
    readFrames M fs.length (encodeAll fs ++ t) = .ok (fs, t) :=
  Stream.readN_encodeAll (C := frameCode M) h t

theorem encodeAll_injective {M : UInt32} {fs gs : List Frame} (hf : ∀ f ∈ fs, f.Fits M)
    (hg : ∀ g ∈ gs, g.Fits M) (h : encodeAll fs = encodeAll gs) : fs = gs :=
  Stream.encodeAll_injective (C := frameCode M) hf hg h

theorem encode_append_inj {M : UInt32} {f g : Frame} {r t : Bytes} (hf : f.Fits M) (hg : g.Fits M)
    (h : encode f ++ r = encode g ++ t) : f = g ∧ r = t :=
  Stream.encode_append_inj (C := frameCode M) hf hg h

/-- A call writes the encoding of its frame when the payload fits, and nothing otherwise. -/
theorem writeFrame_eq (M : UInt32) (out : Bytes) (f : Frame) :
    (f.Fits M ∧ writeFrame M out f.msgType f.payload = (out ++ encode f, .ok ())) ∨
    (¬ f.Fits M ∧ ∃ len, writeFrame M out f.msgType f.payload = (out, .error (.payloadTooLarge len M))) := by
  by_cases h : f.Fits M
  · left; exact ⟨h, by rw [writeFrame, encodeFrame_fits h]⟩
  · right
    obtain ⟨len, he⟩ := encodeFrame_not_fits h
    exact ⟨h, len, by rw [writeFrame, he]⟩

theorem writeFrame_nil_ok_iff {M : UInt32} {f : Frame} {b : Bytes} :
    writeFrame M [] f.msgType f.payload = (b, .ok ()) ↔ f.Fits M ∧ b = encode f := by
  rcases writeFrame_eq M [] f with ⟨h, hw⟩ | ⟨h, len, hw⟩
  · rw [hw]; simp [h, eq_comm]
  · rw [hw]; simp [h]

/-! ## Sequences of calls -/

/-- `write_frame` calls on one codec: the stream they leave and the result of each. -/
def writeFrames (W : UInt32) : List Frame → Bytes → Bytes × List (Except ProtocolError Unit)
  | [], out => (out, [])
  | f :: fs, out =>
    let r := writeFrame W out f.msgType f.payload
    let rs := writeFrames W fs r.1
    (rs.1, r.2 :: rs.2)

/-- The calls that returned `Ok`. -/
def accepted (calls : List Frame) (results : List (Except ProtocolError Unit)) : List Frame :=
  ((calls.zip results).filter fun c => c.2.isOk).map Prod.fst

theorem writeFrames_spec (W : UInt32) (calls : List Frame) (out : Bytes) :
    (writeFrames W calls out).1 = out ++ encodeAll (accepted calls (writeFrames W calls out).2) ∧
    (∀ f ∈ accepted calls (writeFrames W calls out).2, f.Fits W) ∧
    ∀ c ∈ calls.zip (writeFrames W calls out).2,
      (c.1.Fits W ∧ c.2 = .ok ()) ∨ (¬ c.1.Fits W ∧ ∃ len, c.2 = .error (.payloadTooLarge len W)) := by
  induction calls generalizing out with
  | nil => simp [writeFrames, accepted]
  | cons f fs ih =>
    rcases writeFrame_eq W out f with ⟨hf, hw⟩ | ⟨hf, len, hw⟩
    · obtain ⟨h1, h2, h3⟩ := ih (out ++ encode f)
      simp only [writeFrames, hw, accepted, List.zip_cons_cons] at h1 h2 h3 ⊢
      simp only [Except.isOk, Except.toBool, List.filter_cons, ite_true, List.map_cons, encodeAll_cons,
        List.forall_mem_cons] at h1 h2 ⊢
      exact ⟨by rw [h1, List.append_assoc], ⟨hf, h2⟩, Or.inl ⟨hf, trivial⟩, h3⟩
    · obtain ⟨h1, h2, h3⟩ := ih out
      simp only [writeFrames, hw, accepted, List.zip_cons_cons] at h1 h2 h3 ⊢
      simp only [Except.isOk, Except.toBool, List.filter_cons, Bool.false_eq_true, ite_false,
        List.forall_mem_cons] at h1 h2 ⊢
      exact ⟨h1, h2, Or.inr ⟨hf, len, rfl⟩, h3⟩

/-- **Round trip of a stream with rejected writes.** A rejected call is `PayloadTooLarge` and adds no
byte; the accepted ones are read back in order, and the reader is left at the start of what follows. -/
theorem writeFrames_readFrames (W R : UInt32) (hWR : W ≤ R) (calls : List Frame) (out t : Bytes) :
    let results := (writeFrames W calls out).2
    ∃ b, (writeFrames W calls out).1 = out ++ b ∧ b = encodeAll (accepted calls results) ∧
      readFrames R (accepted calls results).length (b ++ t) = .ok (accepted calls results, t) ∧
      ∀ c ∈ calls.zip results,
        (c.1.Fits W ∧ c.2 = .ok ()) ∨ (¬ c.1.Fits W ∧ ∃ len, c.2 = .error (.payloadTooLarge len W)) := by
  obtain ⟨h1, h2, h3⟩ := writeFrames_spec W calls out
  exact ⟨_, h1, rfl, readFrames_encodeAll (fun f hf => (h2 f hf).mono hWR) t, h3⟩

/-- A writer that allows two bytes: the second call is rejected, the reader sees the other two. -/
theorem writeFrames_readFrames_rejected :
    let calls : List Frame := [⟨0x11, [1, 2]⟩, ⟨0x11, [1, 2, 3]⟩, ⟨0x13, []⟩]
    ∃ b, (writeFrames 2 calls []).1 = [] ++ b ∧
      readFrames 5 2 (b ++ [7]) = .ok ([⟨0x11, [1, 2]⟩, ⟨0x13, []⟩], [7]) := by
  intro calls
  obtain ⟨b, h1, -, h3, -⟩ := writeFrames_readFrames 2 5 (by decide) calls [] [7]
  exact ⟨b, h1, h3⟩

/-! ## Every byte string -/

/-- The stream begins with something `write_frame` emits. -/
def BeginsWithFrame (M : UInt32) (s : Bytes) : Prop :=
  ∃ (f : Frame) (b t : Bytes), writeFrame M [] f.msgType f.payload = (b, .ok ()) ∧ s = b ++ t

theorem beginsWithFrame_iff {M : UInt32} {s : Bytes} :
    BeginsWithFrame M s ↔ ∃ f t, readFrame M s = .ok (f, t) := by
  constructor
  · rintro ⟨f, b, t, hw, rfl⟩
    obtain ⟨hf, rfl⟩ := writeFrame_nil_ok_iff.1 hw
    exact ⟨f, t, readFrame_encode hf t⟩
  · rintro ⟨f, t, h⟩
    obtain ⟨hf, rfl⟩ := readFrame_ok_iff.1 h
    exact ⟨f, encode f, t, writeFrame_nil_ok_iff.2 ⟨hf, rfl⟩, rfl⟩

theorem not_beginsWithFrame {M : UInt32} {s : Bytes} (h : ¬ BeginsWithFrame M s) :
    ∃ e, readFrame M s = .error e := by
  cases hr : readFrame M s with
  | error e => exact ⟨e, rfl⟩
  | ok p => exact absurd (beginsWithFrame_iff.2 ⟨p.1, p.2, hr⟩) h

/-- `read_frame` until its first error: the frames, the error, and what was left to read. -/
def readAll (M : UInt32) (s : Bytes) : List Frame × ProtocolError × Bytes := Stream.readAll (frameCode M) s

theorem readAll_spec (M : UInt32) (s : Bytes) :
    s = encodeAll (readAll M s).1 ++ (readAll M s).2.2 ∧ (∀ f ∈ (readAll M s).1, f.Fits M) ∧
      readFrame M (readAll M s).2.2 = .error (readAll M s).2.1 :=
  Stream.readAll_spec (C := frameCode M) s

theorem readAll_unique {M : UInt32} {fs : List Frame} {r : Bytes} {e : ProtocolError}
    (hfs : ∀ f ∈ fs, f.Fits M) (hr : readFrame M r = .error e) : readAll M (encodeAll fs ++ r) = (fs, e, r) :=
  Stream.readAll_unique (C := frameCode M) hfs hr

theorem readAll_append {M : UInt32} {fs : List Frame} (hfs : ∀ f ∈ fs, f.Fits M) (s : Bytes) :
    readAll M (encodeAll fs ++ s) = (fs ++ (readAll M s).1, (readAll M s).2) :=
  Stream.readAll_append (C := frameCode M) hfs s

theorem readAll_of_error {M : UInt32} {r : Bytes} {e : ProtocolError} (hr : readFrame M r = .error e) :
    readAll M r = ([], e, r) := Stream.readAll_error (C := frameCode M) hr

/-- A proper prefix of an encoded frame is cut off before its header or payload is complete. -/
theorem truncated_of_isPrefix {M : UInt32} {f : Frame} (hf : f.Fits M) {r t : Bytes}
    (h : encode f = r ++ t) (ht : t ≠ []) : Truncated M r := by
  have hn := toNat_ofNat_length hf
  have hlen : r.length < 9 + f.payload.length := by
    have h1 := congrArg List.length h
    have h2 := List.length_pos_iff.2 ht
    simp only [length_encode, List.length_append] at h1
    omega
  by_cases hr : r.length < 9
  · exact Or.inl hr
  · right
    have htake : r.take 9 = writeHeader VERSION f.msgType (UInt32.ofNat f.payload.length) := by
      have h9 : (encode f).take 9 = (r ++ t).take 9 := by rw [h]
      rw [List.take_append_of_le_length (by omega)] at h9
      rw [← h9]
      exact List.take_left' (length_writeHeader _ _ _)
    have hp := parseHeader_take r
    rw [htake, parseHeader_writeHeader] at hp
    split at hp
    · cases hp
    · rename_i hm
      split at hp
      · cases hp
      · rename_i hv
        simp only [ne_eq, Decidable.not_not] at hm hv
        simp only [Except.ok.injEq, Prod.mk.injEq] at hp
        refine ⟨hm, hv, ?_, ?_⟩
        · rw [← hp.2.2, UInt32.le_iff_toNat_le, hn]; exact hf
        · rw [← hp.2.2, hn]; exact hlen

/-- **Truncation.** The first `k` bytes of an encoded stream are its first whole frames and a rest
that ends too early. -/
theorem readAll_take {M : UInt32} {fs : List Frame} (hfs : ∀ f ∈ fs, f.Fits M) (k : Nat) :
    ∃ j r, readAll M ((encodeAll fs).take k) = (fs.take j, .unexpectedEof, r) ∧
      (encodeAll (fs.take j)).length ≤ k ∧ (j < fs.length → k < (encodeAll (fs.take (j + 1))).length) := by
  induction fs generalizing k with
  | nil =>
    have hr : readFrame M [] = .error .unexpectedEof := readFrame_truncated (Or.inl (by simp))
    exact ⟨0, [], by simpa using readAll_of_error hr, by simp, by simp⟩
  | cons f fs ih =>
    have hf := hfs f List.mem_cons_self
    by_cases hk : (encode f).length ≤ k
    · obtain ⟨j, r, h1, h2, h3⟩ := ih (fun g hg => hfs g (List.mem_cons_of_mem _ hg)) (k - (encode f).length)
      refine ⟨j + 1, r, ?_, ?_, ?_⟩
      · have hsplit : (encodeAll (f :: fs)).take k = encode f ++ (encodeAll fs).take (k - (encode f).length) := by
          rw [encodeAll_cons, List.take_append, List.take_of_length_le hk]
        rw [hsplit]
        have hread : (frameCode M).read (encode f ++ (encodeAll fs).take (k - (encode f).length)) =
            .ok (f, (encodeAll fs).take (k - (encode f).length)) := readFrame_encode hf _
        rw [readAll, Stream.readAll_ok hread]
        rw [readAll] at h1
        rw [h1]
        rfl
      · simp only [List.take_succ_cons, encodeAll_cons, List.length_append]
        omega
      · intro hj
        have := h3 (by simpa using hj)
        simp only [List.take_succ_cons, encodeAll_cons, List.length_append]
        omega
    · have htake : (encodeAll (f :: fs)).take k = (encode f).take k := by
        rw [encodeAll_cons, List.take_append_of_le_length (by omega)]
      have hcut : Truncated M ((encode f).take k) :=
        truncated_of_isPrefix hf (List.take_append_drop k (encode f)).symm (by
          intro h
          have := congrArg List.length h
          simp only [List.length_drop, List.length_nil] at this
          omega)
      refine ⟨0, (encode f).take k, ?_, by simp, fun _ => ?_⟩
      · rw [htake]
        exact readAll_of_error (readFrame_truncated hcut)
      · simp only [List.take_succ_cons, List.take_zero, encodeAll_cons, encodeAll_nil, List.append_nil]
        omega

/-- **The reader accepts exactly the frame language.** For every byte string and every maximum:
the split into frames `write_frame` emits and a remainder that begins with none exists, is unique
and is the one found; the remainder determines the error; truncating a stream of frames
leaves its whole frames followed by `UnexpectedEof`. -/
theorem readAll_classifies (M : UInt32) (s : Bytes) :
    let fs := (readAll M s).1
    let e := (readAll M s).2.1
    let r := (readAll M s).2.2
    s = encodeAll fs ++ r ∧ (∀ f ∈ fs, writeFrame M [] f.msgType f.payload = (encode f, .ok ())) ∧
    ¬ BeginsWithFrame M r ∧
    (∀ gs r', s = encodeAll gs ++ r' → (∀ g ∈ gs, g.Fits M) → ¬ BeginsWithFrame M r' → gs = fs ∧ r' = r) ∧
    (e = .unexpectedEof ↔ Truncated M r) ∧
    (¬ Truncated M r → (e = .invalidMagic ↔ r.take 3 ≠ MAGIC)) ∧
    (¬ Truncated M r → r.take 3 = MAGIC →
      ((e = .unsupportedVersion (r.getD 3 0) ↔ r.getD 3 0 ≠ VERSION) ∧
        (r.getD 3 0 = VERSION → e = .payloadTooLarge (declaredLen r) M))) ∧
    (∀ gs k, (∀ g ∈ gs, g.Fits M) → s = (encodeAll gs).take k →
      e = .unexpectedEof ∧ ∃ j, fs = gs.take j ∧ (encodeAll (gs.take j)).length ≤ k ∧
        (j < gs.length → k < (encodeAll (gs.take (j + 1))).length)) := by
  intro fs e r
  obtain ⟨h1, h2, h3⟩ := readAll_spec M s
  obtain ⟨e1, e2, e3⟩ := readFrame_error h3
  refine ⟨h1, fun f hf => writeFrame_nil_ok_iff.2 ⟨h2 f hf, rfl⟩, ?_, ?_, e1, e2, e3, ?_⟩
  · intro hb
    obtain ⟨f, t, h⟩ := beginsWithFrame_iff.1 hb
    rw [h3] at h
    cases h
  · intro gs r' hs hgs hr'
    obtain ⟨e', he'⟩ := not_beginsWithFrame hr'
    have hu : readAll M s = (gs, e', r') := hs ▸ readAll_unique hgs he'
    exact ⟨by show gs = (readAll M s).1; rw [hu], by show r' = (readAll M s).2.2; rw [hu]⟩
  · intro gs k hgs hs
    obtain ⟨j, r', hj, hle, hlt⟩ := readAll_take hgs k
    rw [← hs] at hj
    exact ⟨by show (readAll M s).2.1 = _; rw [hj], j, by show (readAll M s).1 = _; rw [hj], hle, hlt⟩

/-- What was read from a prefix of an encoded stream is its first frames, and what is left of the
prefix reads as the next frame or as the end of the stream. -/
theorem prefix_frames {M : UInt32} {fs gs : List Frame} {r : Bytes} (hfs : ∀ f ∈ fs, f.Fits M)
    (hgs : ∀ g ∈ gs, g.Fits M) (h : encodeAll fs ++ r <+: encodeAll gs) :
    ∃ hs, gs = fs ++ hs ∧ r <+: encodeAll hs :=
  Stream.prefix_of_encodeAll (C := frameCode M) hfs hgs h

/-- Of two streams of which one is a prefix of the other, the frames read compare, or the next frame
begins what is left of the longer one. -/
theorem compare_frames {M : UInt32} {fs gs : List Frame} {r t : Bytes} (hfs : ∀ f ∈ fs, f.Fits M)
    (hgs : ∀ g ∈ gs, g.Fits M) (h : encodeAll fs ++ r <+: encodeAll gs ++ t) :
    fs <+: gs ∨ ∃ f more, fs = gs ++ f :: more ∧ encode f <+: t := by
  obtain ⟨u, hu⟩ := h
  rw [List.append_assoc] at hu
  rcases Stream.encodeAll_append_eq (C := frameCode M) hfs hgs hu with ⟨cs, rfl, -⟩ | ⟨cs, rfl, ht⟩
  · exact Or.inl (List.prefix_append _ _)
  · cases cs with
    | nil => exact Or.inl ⟨[], by simp⟩
    | cons f more =>
      rw [Stream.encodeAll_cons, List.append_assoc] at ht
      exact Or.inr ⟨f, more, rfl, _, ht.symm⟩

end Sao
